import Mathlib.Logic.Relation

namespace VmodRedis.TransitionSystem

variable {σ τ : Type*}

structure System (σ : Type*) where
  init : σ → Prop
  step : σ → σ → Prop

namespace System

def Reachable (S : System σ) (s : σ) : Prop := ∃ a, S.init a ∧ Relation.ReflTransGen S.step a s

theorem reachable_init {S : System σ} {s : σ} (h : S.init s) : S.Reachable s := ⟨s, h, .refl⟩

theorem Reachable.step {S : System σ} {s t : σ} (h : S.Reachable s) (hst : S.step s t) :
    S.Reachable t := by
  obtain ⟨a, ha, hs⟩ := h
  exact ⟨a, ha, hs.tail hst⟩

theorem Reachable.steps {S : System σ} {s t : σ} (h : S.Reachable s)
    (hst : Relation.ReflTransGen S.step s t) : S.Reachable t := by
  obtain ⟨a, ha, hs⟩ := h
  exact ⟨a, ha, hs.trans hst⟩

/-- What holds initially and is kept by every step from a reachable state holds of every
reachable state. -/
theorem invariant {S : System σ} {P : σ → Prop} (hinit : ∀ s, S.init s → P s)
    (hstep : ∀ s t, S.Reachable s → P s → S.step s t → P t) {s : σ} (h : S.Reachable s) : P s := by
  obtain ⟨a, ha, hs⟩ := h
  induction hs with
  | refl => exact hinit a ha
  | @tail b c hab hbc ih => exact hstep b c ⟨a, ha, hab⟩ ih hbc

end System

/-- Runs of the states that `S` allows are, seen through `abs`, runs that `T` allows. -/
structure Refinement (S : System σ) (T : System τ) where
  abs : σ → τ
  init : ∀ s, S.init s → T.init (abs s)
  step : ∀ s t, S.Reachable s → S.step s t → Relation.ReflTransGen T.step (abs s) (abs t)

theorem Refinement.reachable {S : System σ} {T : System τ} (R : Refinement S T) {s : σ}
    (h : S.Reachable s) : T.Reachable (R.abs s) :=
  System.invariant (P := fun s => T.Reachable (R.abs s))
    (fun s hs => System.reachable_init (R.init s hs))
    (fun s t hs ih hst => ih.steps (R.step s t hs hst)) h

end VmodRedis.TransitionSystem
