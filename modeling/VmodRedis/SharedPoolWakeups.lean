import Mathlib.Data.List.Nodup
import VmodRedis.SharedPoolWorkers

namespace VmodRedis.SharedPool

open Database Connections TransitionSystem
open Monitor (Phase Notify count monitor)

variable {ι : Type} [DecidableEq ι]

def Worker.isSignalled (s : ServerId) : Worker → Bool
  | .signalled t _ => t = s
  | _ => false

def phaseOf (s : ServerId) (heap : Heap) : Worker → Phase
  | .idle => .outside
  | .waiting t _ => if t = s then .waiting else .outside
  | .signalled t _ => if t = s then .signalled else .outside
  | .holding c => if (heap c).server = s then .holding else .outside

def phases (s : ServerId) (heap : Heap) (ws : ι → Worker) : ι → Phase := fun w => phaseOf s heap (ws w)

theorem phaseOf_eq_holding {s : ServerId} {heap : Heap} {a : Worker} :
    phaseOf s heap a = .holding ↔ ∃ c, a = .holding c ∧ (heap c).server = s := by
  cases a <;> simp [phaseOf] <;> split_ifs <;> simp_all

theorem phaseOf_eq_waiting {s : ServerId} {heap : Heap} {a : Worker} :
    phaseOf s heap a = .waiting ↔ ∃ now, a = .waiting s now := by
  cases a <;> simp [phaseOf] <;> split_ifs <;> simp_all

theorem phaseOf_eq_signalled {s : ServerId} {heap : Heap} {a : Worker} :
    phaseOf s heap a = .signalled ↔ a.isSignalled s := by
  cases a <;> simp [phaseOf, Worker.isSignalled] <;> split_ifs <;> simp_all

omit [DecidableEq ι] in
theorem Inv.count_holding [Fintype ι] {st : State ι} (h : Inv st) (s : ServerId) :
    count (phases s st.heap st.workers) .holding = (pool st.db s).busy.length := by
  rw [← List.toFinset_card_of_nodup (h.ok s).nodup.of_append_right]
  unfold count
  refine (Finset.card_bij' (s := (pool st.db s).busy.toFinset)
    (fun c hc => ((h.busy s c).mp (List.mem_toFinset.mp hc)).2.choose)
    (fun w hw => (phaseOf_eq_holding.mp (Finset.mem_filter.mp hw).2).choose) ?_ ?_ ?_ ?_).symm
  · intro c hc
    have hb := (h.busy s c).mp (List.mem_toFinset.mp hc)
    exact Finset.mem_filter.mpr ⟨Finset.mem_univ _, phaseOf_eq_holding.mpr ⟨c, hb.2.choose_spec, hb.1⟩⟩
  · intro w hw
    have hc := (phaseOf_eq_holding.mp (Finset.mem_filter.mp hw).2).choose_spec
    exact List.mem_toFinset.mpr ((h.busy s _).mpr ⟨hc.2, w, hc.1⟩)
  · intro c hc
    have hb := (h.busy s c).mp (List.mem_toFinset.mp hc)
    have hw : phaseOf s st.heap (st.workers hb.2.choose) = .holding :=
      phaseOf_eq_holding.mpr ⟨c, hb.2.choose_spec, hb.1⟩
    have hd := (phaseOf_eq_holding.mp hw).choose_spec.1
    exact (Worker.holding.inj (hb.2.choose_spec.symm.trans hd)).symm
  · intro w hw
    have hc := (phaseOf_eq_holding.mp (Finset.mem_filter.mp hw).2).choose_spec
    have hb := (h.busy s _).mpr ⟨hc.2, w, hc.1⟩
    exact h.once _ _ _ ((h.busy s _).mp hb).2.choose_spec hc.1

theorem phases_update (s : ServerId) (heap : Heap) (ws : ι → Worker) (w : ι) (a : Worker) :
    phases s heap (Function.update ws w a) = Function.update (phases s heap ws) w (phaseOf s heap a) := by
  funext v
  by_cases hv : v = w
  · subst hv
    simp [phases]
  · simp [phases, hv]

omit [DecidableEq ι] in
theorem phases_congr {s : ServerId} {heap heap' : Heap} {ws : ι → Worker}
    (h : ∀ v c, ws v = .holding c → (heap' c).server = (heap c).server) :
    phases s heap' ws = phases s heap ws := by
  funext v
  unfold phases
  cases hv : ws v with
  | holding c => simp only [phaseOf, h v c hv]
  | _ => rfl

theorem phases_update_self {s : ServerId} {heap : Heap} {ws : ι → Worker} {w : ι} {a : Worker}
    (h : phaseOf s heap a = phaseOf s heap (ws w)) : phases s heap (Function.update ws w a) = phases s heap ws := by
  rw [phases_update, h]
  exact Function.update_eq_self w (phases s heap ws)

theorem Signal.notify {s : ServerId} {ws ws' : ι → Worker} (h : Signal s ws ws') (heap : Heap) :
    Notify (phases s heap ws) (phases s heap ws') := by
  cases h with
  | wake v now hv =>
    rw [phases_update]
    have hp : phaseOf s heap (.signalled s now) = .signalled := phaseOf_eq_signalled.mpr (by simp [Worker.isSignalled])
    rw [hp]
    exact .wake _ v (phaseOf_eq_waiting.mpr ⟨now, hv⟩)
  | none hn =>
    refine .none _ fun v hv => ?_
    obtain ⟨now, hw⟩ := phaseOf_eq_waiting.mp hv
    exact hn v now hw

theorem Signal.unseen {s t : ServerId} (ht : t ≠ s) {ws ws' : ι → Worker} (h : Signal t ws ws')
    (heap : Heap) : phases s heap ws' = phases s heap ws := by
  cases h with
  | wake v now hv => exact phases_update_self (by simp [hv, phaseOf, ht])
  | none _ => rfl

theorem Entered.unseen {s t : ServerId} (ht : t ≠ s) {now : ℤ} {w : ι} {ws ws' : ι → Worker}
    {locked : Locked} (h : Entered t now w ws locked ws') {heap : Heap}
    (hw : phaseOf s heap (ws w) = .outside) (hc : ∀ c, locked = .context c → (heap c).server = t) :
    phases s heap ws' = phases s heap ws := by
  cases h with
  | context c => exact phases_update_self (by rw [hw]; simp [phaseOf, hc c rfl, ht])
  | waiting => exact phases_update_self (by rw [hw]; simp [phaseOf, ht])
  | failed _ hs =>
    rw [hs.unseen ht]
    exact phases_update_self hw.symm

variable [Fintype ι]

theorem Outcome.monitor_step {limit : ℕ} {input : LockInput} {s : ServerId} {db : Db} {heap heap' : Heap}
    {p p' : Pool} {locked : Locked} (h : Outcome input s db heap p locked heap' p')
    (hok : Pool.Ok limit p) (hmax : db.maxConnections = limit) {now : ℤ} {w : ι} {ws ws' : ι → Worker}
    (he : Entered s now w ws locked ws') (hw : ∀ c, ws w ≠ .holding c)
    (hcount : count (phases s heap' ws) .holding = p.busy.length)
    (howner : ∀ c, locked = .context c → (heap' c).server = s) :
    Monitor.Step limit (phases s heap' ws) (phases s heap' ws') := by
  have hout : phases s heap' ws w ≠ .holding := by
    intro hh
    obtain ⟨c, hc, -⟩ := phaseOf_eq_holding.mp hh
    exact hw c hc
  have hn := hok.ncontexts
  have hl := hok.limit
  cases he with
  | context c =>
    have hp : phaseOf s heap' (.holding c) = .holding := phaseOf_eq_holding.mpr ⟨c, rfl, howner c rfl⟩
    rw [phases_update, hp]
    refine .acquire _ w hout ?_
    rw [hcount]
    cases h with
    | reuse c dropped rest hfree =>
      rw [hfree, List.length_append, List.length_cons] at hn
      omega
    | create hroom => exact hmax ▸ hroom
  | waiting =>
    have hp : phaseOf s heap' (.waiting s now) = .waiting := phaseOf_eq_waiting.mpr ⟨now, rfl⟩
    rw [phases_update, hp]
    refine .wait _ w hout ?_
    rw [hcount]
    cases h with
    | wait hfull => exact hmax ▸ hfull
  | failed _ hs =>
    have hnotify := hs.notify heap'
    rw [phases_update] at hnotify
    exact .fail _ _ w hout hnotify

theorem Inv.enter_step {limit : ℕ} {st : State ι} (h : Inv st) (hmax : st.db.maxConnections = limit)
    {w : ι} {t : ServerId} {input : LockInput} {now : ℤ} {ws' : ι → Worker}
    (hw : ∀ c, st.workers w ≠ .holding c)
    (hout : ∀ s, s ≠ t → phaseOf s st.heap (st.workers w) = .outside) (hf : Fresh st.db input.created)
    (he : Entered t now w st.workers (lockSection input t st.heap st.db).1 ws') (s : ServerId) :
    Relation.ReflTransGen (Monitor.Step limit) (phases s st.heap st.workers)
      (phases s (lockSection input t st.heap st.db).2.1 ws') := by
  obtain ⟨-, -, ho⟩ := lockSection_spec input t st.heap st.db (h.ok t)
  obtain ⟨⟨locked, heap', db'⟩, hr⟩ : ∃ r, r = lockSection input t st.heap st.db := ⟨_, rfl⟩
  rw [← hr] at ho he ⊢
  dsimp only at ho he ⊢
  have hheap : ∀ v c, st.workers v = .holding c → (heap' c).server = (st.heap c).server := by
    intro v c hv
    rw [ho.heap_of_ne]
    rintro rfl
    exact h.unheld (Or.inl hf) v hv
  have howner : ∀ c, locked = .context c → (heap' c).server = t := by
    rintro c rfl
    exact ho.context_server fun d hd => h.owner t d (List.mem_append_left _ hd)
  rw [← phases_congr (s := s) hheap]
  by_cases hs : s = t
  · subst hs
    refine .single (ho.monitor_step (hmax ▸ h.ok s) hmax he hw ?_ howner)
    rw [phases_congr hheap]
    exact h.count_holding s
  · have hw' : phaseOf s heap' (st.workers w) = .outside :=
      (congrFun (phases_congr (s := s) hheap) w).trans (hout s hs)
    rw [he.unseen (Ne.symm hs) hw' howner]

theorem Inv.monitor_steps {limit : ℕ} {st st' : State ι} (h : Inv st) (hmax : st.db.maxConnections = limit)
    (hs : Step st st') (s : ServerId) :
    Relation.ReflTransGen (Monitor.Step limit) (phases s st.heap st.workers)
      (phases s st'.heap st'.workers) := by
  cases hs with
  | lock w t input ws' hw hf he => exact h.enter_step hmax (by simp [hw]) (by simp [hw, phaseOf]) hf he s
  | resume w t input ws' hw hf he =>
    have hb : Inv { st with db := countBlocked st.db } := ⟨h.ok, h.owner, h.busy, h.once⟩
    refine hb.enter_step (w := w) hmax ?_ ?_ hf he s
    · rcases hw with hw | hw <;> simp [hw]
    · rintro u hu
      rcases hw with hw | hw <;> simp [hw, phaseOf, Ne.symm hu]
  | execute w c err hw =>
    rw [phases_congr]
    intro v d _
    by_cases hd : d = c
    · subst hd
      simp
    · simp [hd]
  | unlock w c ws' hw hn =>
    by_cases hc : (st.heap c).server = s
    · rw [hc] at hn
      have hnotify := hn.notify st.heap
      rw [phases_update] at hnotify
      exact .single (.release _ _ w (phaseOf_eq_holding.mpr ⟨c, hw, hc⟩) hnotify)
    · rw [hn.unseen hc, phases_update]
      have hp : phases s st.heap st.workers w = .outside := by
        simp [phases, phaseOf, hw, hc]
      rw [show phaseOf s st.heap .idle = phases s st.heap st.workers w from hp.symm, Function.update_eq_self]
  | other db ho hp => exact .refl

/-- Each server's pool is a monitor with as many slots as connections it may have. -/
def poolRefinement (ι : Type) [DecidableEq ι] [Fintype ι] (limit : ℕ) (s : ServerId) :
    Refinement (workers ι limit) (monitor ι limit) where
  abs st := phases s st.heap st.workers
  init st hst := by
    funext w
    simp [phases, hst.2.2 w, phaseOf]
  step st st' hr hs := (reachable_inv hr).monitor_steps (reachable_maxConnections hr) hs s

/-- A worker waits unsignalled only if the slots in sight are no more than the workers that have been
signalled and are about to take them. -/
theorem no_lost_wakeup {limit : ℕ} {st : State ι} (h : (workers ι limit).Reachable st) (s : ServerId)
    (hw : ∃ w now, st.workers w = .waiting s now) :
    (pool st.db s).free.length + (limit - (pool st.db s).ncontexts) ≤
      (Finset.univ.filter fun w => (st.workers w).isSignalled s).card := by
  have hinv := Monitor.reachable_inv ((poolRefinement ι limit s).reachable h)
  have hok := (reachable_inv h).ok s
  have hbusy := (reachable_inv h).count_holding s
  have hmax := reachable_maxConnections h
  obtain ⟨w, now, hw⟩ := hw
  have hcovered := hinv.covered ⟨w, phaseOf_eq_waiting.mpr ⟨now, hw⟩⟩
  have hsignalled : count (phases s st.heap st.workers) .signalled =
      (Finset.univ.filter fun w => (st.workers w).isSignalled s).card := by
    unfold count phases
    simp only [phaseOf_eq_signalled]
  have hn := hok.ncontexts
  have hl := hok.limit
  change limit ≤ count (phases s st.heap st.workers) .holding +
    count (phases s st.heap st.workers) .signalled at hcovered
  omega

theorem no_lost_wakeup_contended :
    (pool contended.db 0).free.length + (1 - (pool contended.db 0).ncontexts) ≤
      (Finset.univ.filter fun w => (contended.workers w).isSignalled 0).card :=
  no_lost_wakeup contended_reachable 0 ⟨false, 0, rfl⟩

end VmodRedis.SharedPool
