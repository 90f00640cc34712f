import Mathlib.Data.List.Basic
import Mathlib.Data.Nat.Basic
import Mathlib.Order.MinMax

namespace VmodRedis.Pipelining

variable {ρ α : Type*}

/-- A pipelined connection: the requests written to it, how many of them the other side has executed
and how many of their answers were read. -/
structure Channel (ρ : Type*) where
  requests : List ρ
  executed : ℕ
  answered : ℕ
  err : Bool
  answered_le : answered ≤ executed
  executed_le : executed ≤ requests.length

namespace Channel

def fresh : Channel ρ := ⟨[], 0, 0, false, le_rfl, le_rfl⟩

def unread (c : Channel ρ) : List ρ := c.requests.drop c.answered

def fail (c : Channel ρ) : Channel ρ := { c with err := true }

def write (ok : Bool) (r : ρ) (c : Channel ρ) : Channel ρ :=
  if ok then
    { c with
      requests := c.requests ++ [r]
      executed_le := c.executed_le.trans (by simp) }
  else c.fail

/-- Answers come in the order of the requests, and a connection that failed once gives no more. -/
def read (answer : Option α) (c : Channel ρ) : Channel ρ × Option (ρ × α) :=
  if h : c.answered < c.requests.length then
    match c.err, answer with
    | false, some a =>
      ({ c with
        executed := max c.executed (c.answered + 1)
        answered := c.answered + 1
        answered_le := le_max_right _ _
        executed_le := max_le c.executed_le h }, some (c.requests.get ⟨c.answered, h⟩, a))
    | _, _ => (c.fail, none)
  else (c.fail, none)

def serve (n : ℕ) (c : Channel ρ) : Channel ρ :=
  { c with
    executed := max c.executed (min n c.requests.length)
    answered_le := c.answered_le.trans (le_max_left _ _)
    executed_le := max_le c.executed_le (min_le_right _ _) }

/-- Unless it failed, the connection has got the requests of `history`, and `pending` have no answer yet. -/
def Awaiting (history pending : List ρ) (c : Channel ρ) : Prop :=
  c.err = false → c.requests = history ∧ c.unread = pending

variable {history pending : List ρ} {c : Channel ρ}

theorem awaiting_fresh : Awaiting [] [] (fresh : Channel ρ) := fun _ => ⟨rfl, rfl⟩

theorem Awaiting.fail (history pending : List ρ) (c : Channel ρ) : Awaiting history pending c.fail := nofun

theorem Awaiting.write (h : Awaiting history pending c) (ok : Bool) (r : ρ) :
    Awaiting (history ++ [r]) (pending ++ [r]) (c.write ok r) := by
  cases ok with
  | false => exact .fail _ _ c
  | true =>
    intro herr
    obtain ⟨hrequests, hunread⟩ := h herr
    refine ⟨congrArg (· ++ [r]) hrequests, ?_⟩
    change (c.requests ++ [r]).drop c.answered = _
    rw [List.drop_append_of_le_length (c.answered_le.trans c.executed_le)]
    exact congrArg (· ++ [r]) hunread

theorem write_of_err (h : c.err = true) (ok : Bool) (r : ρ) : (c.write ok r).err = true := by
  cases ok with
  | true => exact h
  | false => rfl

theorem Awaiting.read {r : ρ} (h : Awaiting history (r :: pending) c) (answer : Option α) :
    Awaiting history pending (c.read answer).1 ∧ ∀ x, (c.read answer).2 = some x → x.1 = r := by
  unfold Channel.read
  by_cases hlt : c.answered < c.requests.length
  · rw [dif_pos hlt]
    cases herr : c.err with
    | true => exact ⟨.fail _ _ c, nofun⟩
    | false =>
      cases answer with
      | none => exact ⟨.fail _ _ c, nofun⟩
      | some a =>
        obtain ⟨hrequests, hunread⟩ := h herr
        unfold unread at hunread
        rw [List.drop_eq_getElem_cons hlt] at hunread
        obtain ⟨hhead, htail⟩ := List.cons.inj hunread
        refine ⟨fun _ => ⟨hrequests, htail⟩, ?_⟩
        rintro x hx
        obtain rfl := Option.some.inj hx
        exact hhead
  · rw [dif_neg hlt]
    exact ⟨.fail _ _ c, nofun⟩

theorem read_none (c : Channel ρ) : c.read (none : Option α) = (c.fail, none) := by
  unfold Channel.read
  split_ifs
  · cases c.err <;> rfl
  · rfl

theorem read_of_err (h : c.err = true) (answer : Option α) : c.read answer = (c.fail, none) := by
  unfold Channel.read
  rw [h]
  split_ifs <;> rfl

theorem read_some {r : ρ} (herr : c.err = false) (h : c.unread = r :: pending) (a : α) :
    (c.read (some a)).2 = some (r, a) ∧ (c.read (some a)).1.err = false ∧ (c.read (some a)).1.unread = pending := by
  have hlt : c.answered < c.requests.length := by
    by_contra hge
    rw [unread, List.drop_eq_nil_of_le (not_lt.mp hge)] at h
    exact List.cons_ne_nil r pending h.symm
  rw [unread, List.drop_eq_getElem_cons hlt] at h
  obtain ⟨hhead, htail⟩ := List.cons.inj h
  unfold Channel.read
  rw [dif_pos hlt, herr]
  exact ⟨by rw [← hhead]; rfl, rfl, htail⟩

theorem Awaiting.serve (h : Awaiting history pending c) (n : ℕ) : Awaiting history pending (c.serve n) := h

theorem Awaiting.executed (h : Awaiting history [] c) (herr : c.err = false) : c.requests.take c.executed = history := by
  obtain ⟨hrequests, hunread⟩ := h herr
  have hlen : c.requests.length ≤ c.answered := List.drop_eq_nil_iff.mp hunread
  rw [List.take_of_length_le (hlen.trans c.answered_le)]
  exact hrequests

end Channel

end VmodRedis.Pipelining
