import Mathlib.Data.List.Basic
import Mathlib.Data.List.Induction

/-!
Lists of entries in which the last entry that says something counts.
-/

namespace VmodRedis.LastValue

variable {α β : Type*} {f : α → Option β} {l : List α} {b c : β}

/-- `b` is what the last entry of `l` that says something says. -/
def Last (f : α → Option β) (l : List α) (b : β) : Prop :=
  ∃ (i : ℕ) (a : α), l[i]? = some a ∧ f a = some b ∧ ∀ (j : ℕ) (x : α), i < j → l[j]? = some x → f x = none

theorem not_last_nil : ¬ Last f [] b := by
  rintro ⟨i, a, ha, -⟩
  simp at ha

theorem last_append_singleton (l : List α) (a : α) :
    Last f (l ++ [a]) b ↔ f a = some b ∨ f a = none ∧ Last f l b := by
  constructor
  · rintro ⟨i, x, hx, hb, hlater⟩
    obtain hi | hi := Nat.lt_or_ge i l.length
    · rw [List.getElem?_append_left hi] at hx
      refine Or.inr ⟨hlater l.length a hi (by simp), i, x, hx, hb, fun j y hj hy => hlater j y hj ?_⟩
      obtain ⟨hlt, -⟩ := List.getElem?_eq_some_iff.mp hy
      rwa [List.getElem?_append_left hlt]
    · rw [List.getElem?_append_right hi, List.getElem?_singleton] at hx
      split_ifs at hx
      obtain rfl := Option.some.inj hx
      exact Or.inl hb
  · rintro (ha | ⟨ha, i, x, hx, hb, hlater⟩)
    · refine ⟨l.length, a, by simp, ha, fun j y hj hy => ?_⟩
      obtain ⟨hlt, -⟩ := List.getElem?_eq_some_iff.mp hy
      rw [List.length_append, List.length_singleton] at hlt
      omega
    · obtain ⟨hi, -⟩ := List.getElem?_eq_some_iff.mp hx
      refine ⟨i, x, (List.getElem?_append_left hi).trans hx, hb, fun j y hj hy => ?_⟩
      obtain hlt | hge := Nat.lt_or_ge j l.length
      · rw [List.getElem?_append_left hlt] at hy
        exact hlater j y hj hy
      · rw [List.getElem?_append_right hge, List.getElem?_singleton] at hy
        split_ifs at hy
        rwa [← Option.some.inj hy]

theorem foldl_or_eq_some_iff (f : α → Option β) (l : List α) (b : β) :
    l.foldl (fun acc a => (f a).or acc) none = some b ↔ Last f l b := by
  induction l using List.reverseRecOn with
  | nil => simp [not_last_nil]
  | append_singleton l a ih =>
    rw [List.foldl_append, last_append_singleton, ← ih, List.foldl_cons, List.foldl_nil, Option.or_eq_some_iff]

theorem Last.unique (h : Last f l b) (h' : Last f l c) : b = c := by
  rw [← foldl_or_eq_some_iff] at h h'
  exact Option.some.inj (h.symm.trans h')

theorem foldl_or_eq_none_iff (f : α → Option β) (l : List α) :
    l.foldl (fun acc a => (f a).or acc) none = none ↔ ∀ a ∈ l, f a = none := by
  induction l using List.reverseRecOn with
  | nil => simp
  | append_singleton l a ih =>
    rw [List.foldl_append, List.foldl_cons, List.foldl_nil, Option.or_eq_none_iff, ih]
    simp only [List.mem_append, List.mem_singleton, or_imp, forall_and, forall_eq]
    exact and_comm

theorem foldl_getD_eq (f : α → Option β) (init : β) (l : List α) :
    l.foldl (fun acc a => (f a).getD acc) init = (l.foldl (fun acc a => (f a).or acc) none).getD init := by
  induction l using List.reverseRecOn with
  | nil => rfl
  | append_singleton l a ih =>
    simp only [List.foldl_append, List.foldl_cons, List.foldl_nil, ih]
    cases f a <;> rfl

end VmodRedis.LastValue
