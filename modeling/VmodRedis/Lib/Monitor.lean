import Mathlib.Data.Fintype.Card
import Mathlib.Data.Finset.Card
import VmodRedis.Lib.TransitionSystem

/-!
A monitor that shares a number of slots among threads, waking at most one waiting thread each time
that a slot may have become available.
-/

namespace VmodRedis.Monitor

open TransitionSystem

inductive Phase where
  | outside
  | waiting
  | signalled
  | holding
  deriving DecidableEq

variable {ι : Type*} [DecidableEq ι]

inductive Notify : (ι → Phase) → (ι → Phase) → Prop
  | wake (p : ι → Phase) (v : ι) (h : p v = .waiting) : Notify p (Function.update p v .signalled)
  | none (p : ι → Phase) (h : ∀ v, p v ≠ .waiting) : Notify p p

variable [Fintype ι]

def count (p : ι → Phase) (a : Phase) : ℕ := (Finset.univ.filter fun v => p v = a).card

inductive Step (capacity : ℕ) : (ι → Phase) → (ι → Phase) → Prop
  | acquire (p : ι → Phase) (w : ι) (h : p w ≠ .holding) (hc : count p .holding < capacity) :
      Step capacity p (Function.update p w .holding)
  | wait (p : ι → Phase) (w : ι) (h : p w ≠ .holding) (hc : capacity ≤ count p .holding) :
      Step capacity p (Function.update p w .waiting)
  | fail (p p' : ι → Phase) (w : ι) (h : p w ≠ .holding) (hn : Notify (Function.update p w .outside) p') :
      Step capacity p p'
  | release (p p' : ι → Phase) (w : ι) (h : p w = .holding)
      (hn : Notify (Function.update p w .outside) p') : Step capacity p p'

def monitor (ι : Type*) [DecidableEq ι] [Fintype ι] (capacity : ℕ) : System (ι → Phase) where
  init p := p = fun _ => .outside
  step := Step capacity

theorem count_update_of_ne (p : ι → Phase) (w : ι) {a b : Phase} (ha : p w ≠ a) (hb : b ≠ a) :
    count (Function.update p w b) a = count p a := by
  unfold count
  congr 1
  ext v
  by_cases hv : v = w
  · subst hv
    simp [ha, hb]
  · simp [hv]

theorem count_update_gain (p : ι → Phase) (w : ι) {a : Phase} (ha : p w ≠ a) :
    count (Function.update p w a) a = count p a + 1 := by
  unfold count
  rw [← Finset.card_insert_of_notMem (a := w) (by simpa using ha)]
  congr 1
  ext v
  by_cases hv : v = w
  · subst hv
    simp
  · simp [hv]

theorem count_update_loss (p : ι → Phase) (w : ι) {a b : Phase} (ha : p w = a) (hb : b ≠ a) :
    count (Function.update p w b) a + 1 = count p a := by
  have h := count_update_gain (Function.update p w b) w (a := a) (by simpa using hb)
  rw [Function.update_idem] at h
  subst ha
  rw [Function.update_eq_self] at h
  exact h.symm

/-- Nobody waits unsignalled for a slot that no signalled thread is about to take. -/
structure Inv (capacity : ℕ) (p : ι → Phase) : Prop where
  held : count p .holding ≤ capacity
  covered : (∃ v, p v = .waiting) → capacity ≤ count p .holding + count p .signalled

theorem Notify.holding {p p' : ι → Phase} (h : Notify p p') : count p' .holding = count p .holding := by
  cases h with
  | wake v hv => exact count_update_of_ne p v (by simp [hv]) (by simp)
  | none hn => rfl

theorem Notify.inv {capacity : ℕ} {p p' : ι → Phase} (h : Notify p p')
    (hheld : count p .holding ≤ capacity)
    (hcovered : (∃ v, p v = .waiting) → capacity ≤ count p .holding + count p .signalled + 1) :
    Inv capacity p' := by
  refine ⟨h.holding.trans_le hheld, ?_⟩
  intro hw
  rw [h.holding]
  cases h with
  | wake v hv =>
    rw [count_update_gain p v (by simp [hv])]
    have := hcovered ⟨v, hv⟩
    omega
  | none hn =>
    obtain ⟨v, hv⟩ := hw
    exact absurd hv (hn v)

omit [Fintype ι] in
theorem waiting_of_update {p : ι → Phase} {w : ι} {a : Phase} (ha : a ≠ .waiting)
    (h : ∃ v, Function.update p w a v = .waiting) : ∃ v, p v = .waiting := by
  obtain ⟨v, hv⟩ := h
  by_cases hvw : v = w
  · subst hvw
    rw [Function.update_self] at hv
    exact absurd hv ha
  · rw [Function.update_of_ne hvw] at hv
    exact ⟨v, hv⟩

theorem signalled_update_le (p : ι → Phase) (w : ι) {a : Phase} (ha : a ≠ .signalled) :
    count p .signalled ≤ count (Function.update p w a) .signalled + 1 := by
  by_cases hw : p w = .signalled
  · exact (count_update_loss p w hw ha).ge
  · rw [count_update_of_ne p w hw ha]
    omega

theorem Step.inv {capacity : ℕ} {p p' : ι → Phase} (hs : Step capacity p p') (h : Inv capacity p) :
    Inv capacity p' := by
  cases hs with
  | acquire w hw hc =>
    constructor
    · rw [count_update_gain p w hw]
      exact hc
    · intro hv
      have hcov := h.covered (waiting_of_update (by simp) hv)
      have hsig := signalled_update_le p w (a := .holding) (by simp)
      rw [count_update_gain p w hw]
      omega
  | wait w hw hc =>
    have he := count_update_of_ne p w (b := .waiting) hw (by simp)
    constructor
    · rw [he]
      exact h.held
    · intro _
      rw [he]
      omega
  | fail _ w hw hn =>
    have he := count_update_of_ne p w (b := .outside) hw (by simp)
    apply hn.inv (he.trans_le h.held)
    intro hv
    have hcov := h.covered (waiting_of_update (by simp) hv)
    have hsig := signalled_update_le p w (a := .outside) (by simp)
    omega
  | release _ w hw hn =>
    have he := count_update_loss p w (b := .outside) hw (by simp)
    apply hn.inv
    · have := h.held
      omega
    · intro hv
      have hcov := h.covered (waiting_of_update (by simp) hv)
      rw [count_update_of_ne p w (a := .signalled) (by simp [hw]) (by simp)]
      omega

theorem reachable_inv {capacity : ℕ} {p : ι → Phase} (h : (monitor ι capacity).Reachable p) :
    Inv capacity p := by
  refine System.invariant (P := Inv capacity) ?_ ?_ h
  · intro q hq
    have hq' : q = fun _ => .outside := hq
    subst hq'
    exact ⟨by simp [count], by simp⟩
  · intro q r _ hq hqr
    exact Step.inv hqr hq

end VmodRedis.Monitor
