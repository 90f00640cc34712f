import VmodRedis.DiscoveryWalk
import VmodRedis.LifecycleProgress
import VmodRedis.SharedPoolWorkers

namespace VmodRedis.SharedPool

open Database Connections Registry TransitionSystem Lifecycle

variable {ι : Type} [DecidableEq ι]

def State.cooled (st : State ι) : State ι := { st with db := (releaseContexts st.db).1 }

/-- The workers of a database over the life of its VCL: the cold event comes when none of them holds a context. -/
inductive LifeStep : State ι → State ι → Prop
  | work (st st' : State ι) (h : Step st st') : LifeStep st st'
  | cold (st : State ι) (h : ∀ w c, st.workers w ≠ .holding c) : LifeStep st st.cooled

def life (ι : Type) [DecidableEq ι] (limit : ℕ) : System (State ι) where
  init st := st.db.maxConnections = limit ∧ (∀ s, pool st.db s = .empty) ∧ ∀ w, st.workers w = .idle
  step := LifeStep

omit [DecidableEq ι] in
theorem pool_cooled (st : State ι) (s : ServerId) :
    pool st.cooled.db s = if st.db.Registered s then .empty else pool st.db s := by
  simp only [pool, State.cooled, releaseContexts, foldl_releaseServer, st.db.mem_allServers]

theorem foldl_released {l : List ServerId} (hl : l.Nodup) (d : Db × ℕ) :
    (l.foldl releaseServer d).2 =
      d.2 + (l.map fun s => (pool d.1 s).free.length + (pool d.1 s).busy.length).sum := by
  induction l generalizing d with
  | nil => simp
  | cons a l ih =>
    obtain ⟨ha, hl⟩ := List.nodup_cons.mp hl
    have hrest : (l.map fun s => (pool (releaseServer d a).1 s).free.length + (pool (releaseServer d a).1 s).busy.length) =
        l.map fun s => (pool d.1 s).free.length + (pool d.1 s).busy.length := by
      apply List.map_congr_left
      intro s hs
      have hne : s ≠ a := fun he => ha (he ▸ hs)
      simp [pool, releaseServer, setPool_of_ne, hne]
    rw [List.foldl_cons, ih hl, hrest, List.map_cons, List.sum_cons]
    simp only [releaseServer, pool]
    omega

omit [DecidableEq ι] in
theorem Inv.cooled_iff {st : State ι} (h : Inv st) :
    Inv st.cooled ↔ ∀ w c, st.workers w = .holding c → ¬ st.db.Registered (st.heap c).server := by
  constructor
  · intro hc w c hw hr
    have hbusy : c ∈ (pool st.cooled.db (st.heap c).server).busy := (hc.busy _ c).mpr ⟨rfl, w, hw⟩
    simp [pool_cooled, hr, Pool.empty] at hbusy
  · intro hheld
    constructor
    · intro s
      rw [pool_cooled]
      split_ifs
      · exact ⟨rfl, Nat.zero_le _, List.nodup_nil⟩
      · have hmax : st.cooled.db.maxConnections = st.db.maxConnections :=
          congrArg Options.maxConnections (releaseContexts_same st.db).options
        rw [hmax]
        exact h.ok s
    · intro s c hc
      rw [pool_cooled] at hc
      split_ifs at hc
      · simp [Pool.empty] at hc
      · exact h.owner s c hc
    · intro s c
      rw [pool_cooled]
      split_ifs with hr
      · refine iff_of_false (by simp [Pool.empty]) ?_
        rintro ⟨rfl, w, hw⟩
        exact hheld w c hw hr
      · exact h.busy s c
    · exact h.once

theorem LifeStep.inv {st st' : State ι} (hs : LifeStep st st') (h : Inv st) : Inv st' := by
  cases hs with
  | work _ hs => exact h.step hs
  | cold hidle => exact h.cooled_iff.mpr fun w c hw => absurd hw (hidle w c)

theorem life_inv {limit : ℕ} {st : State ι} (h : (life ι limit).Reachable st) : Inv st := by
  refine System.invariant (P := Inv) ?_ (fun st st' _ hi hs => LifeStep.inv hs hi) h
  rintro st ⟨-, hp, hw⟩
  exact Inv.init hp hw

/-- Over the whole life of a VCL, cold events included, the pools are accounted for; a cold event at any moment closes
and counts just what the pools count, and leaves them in order exactly if no context is held that it closes. -/
theorem cold_event_pools {limit : ℕ} {st : State ι} (h : (life ι limit).Reachable st) (hw : WellPlaced st.db) :
    Inv st ∧
      (releaseContexts st.db).2 = (st.db.allServers.map fun s => (pool st.db s).ncontexts).sum ∧
      (∀ s, st.db.Registered s → pool st.cooled.db s = .empty) ∧
      (Inv st.cooled ↔ ∀ w c, st.workers w = .holding c → ¬ st.db.Registered (st.heap c).server) := by
  have hinv := life_inv h
  refine ⟨hinv, ?_, fun s hs => by rw [pool_cooled, if_pos hs], hinv.cooled_iff⟩
  rw [releaseContexts, foldl_released hw.allServers_nodup, Nat.zero_add]
  congr 1
  apply List.map_congr_left
  intro s _
  exact (hinv.ok s).ncontexts.symm

def resting (db : Db) : State Bool := ⟨db, fun _ => ⟨0, 0, false, 0, 0⟩, fun _ => .idle⟩

def held (db : Db) : State Bool :=
  ⟨(lockSection connecting 0 (resting db).heap db).2.2, (lockSection connecting 0 (resting db).heap db).2.1,
    Function.update (resting db).workers true (.holding 0)⟩

theorem lockSection_connecting {db : Db} (hp : (db.server 0).pool = .empty) (hmax : db.maxConnections = 1) (heap : Heap) :
    (lockSection connecting 0 heap db).1 = .context 0 ∧ ((lockSection connecting 0 heap db).2.1 0).server = 0 := by
  have hfree : takeFree connecting.probe heap 0 (db.server 0).pool.free db = (none, db) := by
    rw [hp]
    rfl
  rw [lockSection_created hfree (by simp [hp, hmax, Pool.empty]) rfl]
  exact ⟨rfl, by simp [connecting, newRedisContext]⟩

theorem held_reachable {db : Db} (hp : ∀ s, (db.server s).pool = .empty) (hmax : db.maxConnections = 1) :
    (life Bool 1).Reachable (held db) := by
  have hresting : (life Bool 1).Reachable (resting db) := System.reachable_init ⟨hmax, hp, fun _ => rfl⟩
  refine hresting.step (.work _ _ (.lock _ true 0 connecting _ rfl (fun s => ?_) ?_))
  · rw [show pool (resting db).db s = .empty from hp s]
    exact List.not_mem_nil
  · rw [show (lockSection connecting 0 (resting db).heap (resting db).db).1 = .context 0 from
      (lockSection_connecting (hp 0) hmax _).1]
    exact .context 0

theorem masters_registered : DiscoveryWalk.masters.maxConnections = 1 ∧ DiscoveryWalk.masters.Registered 0 :=
  ⟨by decide +kernel, (DiscoveryWalk.masters.mem_allServers 0).mp (by decide +kernel)⟩

theorem held_cooled {db : Db} (hw : WellPlaced db) (hp : ∀ s, (db.server s).pool = .empty) (hmax : db.maxConnections = 1)
    (hr : db.Registered 0) : (held db).workers true = .holding 0 ∧ WellPlaced (held db).db ∧
      (held db).db.Registered ((held db).heap 0).server := by
  have hsame : SameRegistry db (held db).db := lockSection_same connecting 0 (resting db).heap db
  refine ⟨by simp [held], hw.same hsame, ?_⟩
  rw [show ((held db).heap 0).server = 0 from (lockSection_connecting (hp 0) hmax _).2]
  exact (hsame.registered 0).mpr hr

theorem cold_event_pools_held : ¬ Inv (held DiscoveryWalk.masters).cooled := by
  obtain ⟨hmax, hr⟩ := masters_registered
  obtain ⟨hheld, hw, hreg⟩ := held_cooled DiscoveryWalk.masters_fresh.1 DiscoveryWalk.masters_fresh.2 hmax hr
  obtain ⟨-, -, -, hiff⟩ := cold_event_pools (held_reachable DiscoveryWalk.masters_fresh.2 hmax) hw
  exact fun hinv => hiff.mp hinv true 0 hheld hreg

end VmodRedis.SharedPool
