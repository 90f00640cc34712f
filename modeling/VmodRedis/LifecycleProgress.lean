import VmodRedis.LifecycleSafety

namespace VmodRedis.Lifecycle

open Database DatabaseCreation SentinelInventory SentinelLoop TransitionSystem

def Thread.left (t : Thread) : ℕ :=
  if t.ended then 0
  else
    match t.phase with
    | .stopped => 1
    | .top | .discovering _ => 2
    | .checking _ _ => 3

def Thread.pending (t : Thread) : ℕ :=
  match t.phase with
  | .checking _ _ => 1
  | _ => 0

/-- What a thread that has been asked to stop may do: finish its iteration, and leave. -/
structure Leaves (t t' : Thread) : Prop where
  left : t'.left ≤ t.left
  stays : t'.left = t.left → t'.phase = t.phase ∧ t'.iterations = t.iterations
  iterations : t'.iterations.length + t'.pending ≤ t.iterations.length + t.pending
  discovers : ∀ now, t'.phase = .discovering now → t.phase = .discovering now

namespace Leaves

variable {t t' t'' : Thread}

theorem refl (t : Thread) : Leaves t t := ⟨le_rfl, fun _ => ⟨rfl, rfl⟩, le_rfl, fun _ => id⟩

theorem trans (h : Leaves t t') (h' : Leaves t' t'') : Leaves t t'' where
  left := h'.left.trans h.left
  stays he := by
    have hle := h.left
    have hle' := h'.left
    obtain ⟨hphase, hiterations⟩ := h.stays (by omega)
    obtain ⟨hphase', hiterations'⟩ := h'.stays (by omega)
    exact ⟨hphase'.trans hphase, hiterations'.trans hiterations⟩
  iterations := h'.iterations.trans h.iterations
  discovers now hd := h.discovers now (h'.discovers now hd)

theorem same (hphase : t'.phase = t.phase) (hiterations : t'.iterations = t.iterations) (hended : t'.ended = t.ended) :
    Leaves t t' where
  left := by simp [Thread.left, hphase, hended]
  stays _ := ⟨hphase, hiterations⟩
  iterations := by simp [Thread.pending, hphase, hiterations]
  discovers now hd := by rw [← hphase, hd]

theorem moved (hleft : t'.left < t.left)
    (hiterations : t'.iterations.length + t'.pending ≤ t.iterations.length + t.pending)
    (hdiscovers : ∀ now, t'.phase ≠ .discovering now) : Leaves t t' :=
  ⟨hleft.le, fun he => absurd he hleft.ne, hiterations, fun now hd => absurd hd (hdiscovers now)⟩

end Leaves

theorem continued_leaves {t : Thread} {config : Config} {r : Run} (he : t.ended = false) (ha : config.active = false)
    (hs : SentinelLoop.Step t.settings.period (t.run config) r) : Leaves t (t.continued r) := by
  cases hs with
  | stop hp _ =>
    change t.phase = .top at hp
    apply Leaves.moved <;> simp [Thread.left, Thread.pending, Thread.continued, Thread.run, he, hp]
  | discover now hp hactive hd => simp [Thread.run, ha] at hactive
  | skip now hp hactive hd => simp [Thread.run, ha] at hactive
  | discovered now answers hp =>
    change t.phase = .discovering now at hp
    apply Leaves.moved <;> simp [Thread.left, Thread.pending, Thread.continued, Thread.run, he, hp, ha]
  | notify now discovered clock reply hp => exact .same rfl rfl rfl
  | update now discovered clock hp =>
    change t.phase = .checking now discovered at hp
    apply Leaves.moved <;> simp [Thread.left, Thread.pending, Thread.continued, Thread.run, he, hp]
  | request => exact .same rfl rfl rfl
  | deactivate => exact .same rfl rfl rfl
  | register options db hdb => exact .same rfl rfl rfl
  | unregister i => exact .same rfl rfl rfl
  | use i db db' hi hs => exact .same rfl rfl rfl

theorem finished_leaves (t : Thread) : Leaves t { t with ended := true } where
  left := by simp [Thread.left]
  stays _ := ⟨rfl, rfl⟩
  iterations := le_rfl
  discovers _ := id

def Waits (build : Build) (v : VclId) (p p' : Process) : Prop := Step build p p' ∧ p'.joining = some v

variable {build : Build} {p p' : Process} {v : VclId} {t : Thread}

theorem leaves_of_set {i : ℕ} {u u' : Thread} (ht : t ∈ p.threads) (htv : t.vcl = v) (hi : p.threads[i]? = some u)
    (hvcl : u'.vcl = u.vcl) (hleaves : u.vcl = v → Leaves u u') :
    ∃ t' ∈ p.threads.set i u', t'.vcl = v ∧ Leaves t t' := by
  obtain ⟨hlt, -⟩ := List.getElem?_eq_some_iff.mp hi
  obtain ⟨j, hj⟩ := List.mem_iff_getElem?.mp ht
  by_cases hij : i = j
  · subst hij
    rw [hi, Option.some.injEq] at hj
    subst hj
    exact ⟨u', List.mem_iff_getElem?.mpr ⟨i, List.getElem?_set_self hlt⟩, hvcl.trans htv, hleaves htv⟩
  · exact ⟨t, List.mem_iff_getElem?.mpr ⟨j, (List.getElem?_set_ne hij).trans hj⟩, htv, .refl t⟩

theorem Waits.leaves (h : Inv p) (hj : p.joining = some v) (hs : Waits build v p p') (ht : t ∈ p.threads) (htv : t.vcl = v) :
    ∃ t' ∈ p'.threads, t'.vcl = v ∧ Leaves t t' := by
  obtain ⟨hs, hj'⟩ := hs
  cases hs with
  | load hn => simp [hj] at hn
  | warm _ u vcl tlsContext id hn => simp [hj] at hn
  | cold _ u vcl hn => simp [hj] at hn
  | discard _ u vcl hn => simp [hj] at hn
  | free u vcl hn => simp [hj] at hn
  | join u vcl t hn hu ht hid he => simp [threadJoined, cool, Process.setVcl] at hj'
  | sentinels u vcl environment args hu hw => exact ⟨t, ht, htv, .refl t⟩
  | use u vcl dbs hu hw hdbs => exact ⟨t, ht, htv, .refl t⟩
  | thread i u vcl r hi he hu hs ha =>
    refine leaves_of_set ht htv hi rfl fun huv => ?_
    subst huv
    exact continued_leaves he ((h.sound _ vcl hu).joining hj).2 hs
  | finish i u hi hp => exact leaves_of_set ht htv hi rfl fun _ => finished_leaves u

theorem waits_leaves (h : (lifecycle build).Reachable p) (hj : p.joining = some v) (ht : t ∈ p.threads) (htv : t.vcl = v)
    (hs : Relation.ReflTransGen (Waits build v) p p') :
    (lifecycle build).Reachable p' ∧ p'.joining = some v ∧ ∃ t' ∈ p'.threads, t'.vcl = v ∧ Leaves t t' := by
  induction hs with
  | refl => exact ⟨h, hj, t, ht, htv, .refl t⟩
  | tail _ hstep ih =>
    obtain ⟨hreach, hjoin, t', ht', htv', hleaves⟩ := ih
    obtain ⟨t'', ht'', htv'', hleaves'⟩ := hstep.leaves (lifecycle_inv hreach) hjoin ht' htv'
    exact ⟨hreach.step hstep.1, hstep.2, t'', ht'', htv'', hleaves.trans hleaves'⟩

theorem foldl_releaseServer (l : List ServerId) (d : Db × ℕ) (s : ServerId) :
    ((l.foldl releaseServer d).1.server s).pool = if s ∈ l then .empty else (d.1.server s).pool := by
  induction l generalizing d with
  | nil => simp
  | cons a l ih =>
    rw [List.foldl_cons, ih]
    by_cases hs : s = a
    · subst hs
      simp [releaseServer, Db.setPool]
    · simp [releaseServer, Db.setPool, hs]

theorem releaseContexts_empty (db : Db) {s : ServerId} (hs : db.Registered s) :
    ((releaseContexts db).1.server s).pool = .empty := by
  rw [releaseContexts, foldl_releaseServer, if_pos ((db.mem_allServers s).mpr hs)]

theorem releaseContexts_pools (db : Db) : Registry.PoolsKept db (releaseContexts db).1 := by
  intro s
  rw [releaseContexts, foldl_releaseServer]
  split_ifs
  · exact Or.inr rfl
  · exact Or.inl rfl

def Cooled (p : Process) (v : VclId) : Prop :=
  p.joining = none ∧ (∀ t ∈ p.threads, t.vcl ≠ v) ∧ ∃ vcl, p.vcls[v]? = some vcl ∧ vcl.temperature = .cold ∧
    ∀ db ∈ vcl.config.dbs, ∀ s, db.Registered s → (db.server s).pool = .empty

theorem threadJoined_cooled (h : Inv p) (hj : p.joining = some v) {vcl : Vcl} (hv : p.vcls[v]? = some vcl) :
    Cooled (threadJoined v vcl p) v := by
  have hinv := h.join hv hj
  have hlt := (List.getElem?_eq_some_iff.mp hv).1
  have hget := List.getElem?_set_self (a := ({ vcl with thread := 0, temperature := .cold, config := releasePools vcl.config } : Vcl)) hlt
  refine ⟨rfl, hinv.no_thread hget rfl, _, hget, rfl, fun db hdb s hs => ?_⟩
  obtain ⟨d, -, rfl⟩ := List.mem_map.mp hdb
  exact releaseContexts_empty d ((releaseContexts_same d).registered s |>.mp hs)

theorem step_waits_or_cooled (h : Inv p) (hj : p.joining = some v) (hs : Step build p p') :
    p'.joining = some v ∨ Cooled p' v := by
  cases hs with
  | load hn => simp [hj] at hn
  | warm _ u vcl tlsContext id hn => simp [hj] at hn
  | cold _ u vcl hn => simp [hj] at hn
  | discard _ u vcl hn => simp [hj] at hn
  | free u vcl hn => simp [hj] at hn
  | join u vcl t hn hu =>
    obtain rfl : v = u := Option.some.inj (hj.symm.trans hn)
    exact Or.inr (threadJoined_cooled h hj hu)
  | sentinels => exact Or.inl hj
  | use => exact Or.inl hj
  | thread => exact Or.inl hj
  | finish => exact Or.inl hj

theorem exists_left_lt (h : Inv p) (hj : p.joining = some v) (ht : t ∈ p.threads) (htv : t.vcl = v)
    (he : t.ended = false) : ∃ p', Waits build v p p' ∧ ∃ t' ∈ p'.threads, t'.vcl = v ∧ t'.left < t.left := by
  obtain ⟨i, hi⟩ := List.mem_iff_getElem?.mp ht
  obtain ⟨hlt, -⟩ := List.getElem?_eq_some_iff.mp hi
  obtain ⟨vcl, hv, -⟩ := h.attached t ht
  have hset : ∀ t' : Thread, t' ∈ p.threads.set i t' := fun t' => List.mem_iff_getElem?.mpr ⟨i, List.getElem?_set_self hlt⟩
  have hrun : ∀ r, SentinelLoop.Step t.settings.period (t.run vcl.config) r → r.config.active = vcl.config.active →
      (t.continued r).left < t.left → ∃ p', Waits build v p p' ∧ ∃ t' ∈ p'.threads, t'.vcl = v ∧ t'.left < t.left :=
    fun r hs ha hleft => ⟨_, ⟨.thread p i t vcl r hi he hv hs ha, hj⟩, t.continued r, hset _, htv, hleft⟩
  have hactive : vcl.config.active = false := ((h.sound _ vcl hv).joining (htv ▸ hj)).2
  cases hp : t.phase with
  | top =>
    apply hrun _ (.stop _ hp hactive) rfl
    simp [Thread.left, Thread.continued, Thread.run, he, hp]
  | discovering now =>
    apply hrun _ (.discovered _ now [] hp) rfl
    simp [Thread.left, Thread.continued, Thread.run, he, hp, hactive]
  | checking now discovered =>
    refine hrun _ (.update _ now discovered (fun _ _ _ => 0) hp) ?_ ?_
    · cases hpr : propagates vcl.config now t.state <;> simp [Thread.run, updateSection, hpr]
    · simp [Thread.left, Thread.continued, Thread.run, he, hp]
  | stopped =>
    refine ⟨_, ⟨.finish p i t hi hp, hj⟩, { t with ended := true }, hset _, htv, ?_⟩
    simp [Thread.left, he, hp]

theorem exists_cooled (h : (lifecycle build).Reachable p) (hj : p.joining = some v) (ht : t ∈ p.threads) (htv : t.vcl = v) :
    ∃ p', Relation.ReflTransGen (Step build) p p' ∧ Cooled p' v := by
  induction hn : t.left using Nat.strong_induction_on generalizing p t with
  | _ n ih =>
    have hinv := lifecycle_inv h
    cases he : t.ended with
    | true =>
      obtain ⟨vcl, hv, ha⟩ := hinv.attached t ht
      rw [htv] at hv
      exact ⟨_, .single (.join p v vcl t hj hv ht ha.id he), threadJoined_cooled hinv hj hv⟩
    | false =>
      obtain ⟨p₁, ⟨hstep, hj₁⟩, t₁, ht₁, htv₁, hlt⟩ : ∃ p₁, Waits build v p p₁ ∧ _ := exists_left_lt hinv hj ht htv he
      obtain ⟨p', hsteps, hcooled⟩ := ih t₁.left (hn ▸ hlt) (h.step hstep) hj₁ ht₁ htv₁ rfl
      exact ⟨p', .head hstep hsteps, hcooled⟩

/-- While the cold event waits for the Sentinel thread, whatever the others do, the thread can only finish its
iteration and leave: it begins no other, and no discovery. Whatever step ends the wait leaves the VCL cold, and
from every such state there is a run that ends it. -/
theorem cold_event_returns (h : (lifecycle build).Reachable p) (hj : p.joining = some v) :
    ∃ t ∈ p.threads, t.vcl = v ∧ ∀ p', Relation.ReflTransGen (Waits build v) p p' →
      (∃ t' ∈ p'.threads, t'.vcl = v ∧ Leaves t t') ∧
      (∀ p'', Step build p' p'' → p''.joining = some v ∨ Cooled p'' v) ∧
      ∃ p'', Relation.ReflTransGen (Step build) p' p'' ∧ Cooled p'' v := by
  have hinv := lifecycle_inv h
  obtain ⟨vcl, hv⟩ : ∃ vcl, p.vcls[v]? = some vcl := ⟨_, List.getElem?_eq_getElem (hinv.joining v hj)⟩
  have hsound := hinv.sound v vcl hv
  obtain ⟨-, -, t, ht, htv⟩ := hsound.running (hsound.joining hj).1
  refine ⟨t, ht, htv, fun p' hs => ?_⟩
  obtain ⟨hreach, hj', t', ht', htv', hleaves⟩ := waits_leaves h hj ht htv hs
  exact ⟨⟨t', ht', htv', hleaves⟩, fun _ => step_waits_or_cooled (lifecycle_inv hreach) hj',
    exists_cooled hreach hj' ht' htv'⟩

def stopping : Process :=
  { running with joining := some 0 }.setVcl 0 ({ configured.started 7 with temperature := .warm } : Vcl).stopped

theorem cold_event_returns_stopping : ∃ p, Relation.ReflTransGen (Step plain) stopping p ∧ Cooled p 0 :=
  have h : (lifecycle plain).Reachable stopping :=
    running_reachable.step (.cold _ _ 0 { configured.started 7 with temperature := .warm } rfl rfl rfl rfl)
  have ⟨_, _, _, hreturns⟩ := cold_event_returns h rfl
  (hreturns stopping .refl).2.2

end VmodRedis.Lifecycle
