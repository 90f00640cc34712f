import Mathlib.Data.List.Rotate
import VmodRedis.Lib.Buckets

namespace VmodRedis.RoundRobin

open Buckets

variable {α : Type*} [DecidableEq α] {p q : α → Bool} {xs pre post : List α} {x : α}

def turn (p : α → Bool) (xs : List α) : List α :=
  match xs.find? p with
  | some x => moveToTail x xs
  | none => xs

def served (p : α → Bool) : ℕ → List α → List (Option α)
  | 0, _ => []
  | n + 1, xs => xs.find? p :: served p n (turn p xs)

theorem turn_of_find (h : xs.find? p = some x) : turn p xs = moveToTail x xs := by
  rw [turn, h]

theorem turn_eq_self (h : xs.filter p = []) : turn p xs = xs := by
  have hnone : xs.find? p = none := by rw [← List.head?_filter, h, List.head?_nil]
  rw [turn, hnone]

theorem turn_congr (h : ∀ y ∈ xs, p y = q y) : turn p xs = turn q xs := by
  rw [turn, turn, ← List.head?_filter, ← List.head?_filter, List.filter_congr h]

theorem turn_split (hpre : ∀ y ∈ pre, ¬ p y = true) (hx : p x = true) :
    turn p (pre ++ x :: post) = pre ++ post ++ [x] := by
  have hfind : (pre ++ x :: post).find? p = some x := by
    rw [List.find?_append, List.find?_eq_none.mpr hpre, List.find?_cons_of_pos hx, Option.none_or]
  have hmem : x ∉ pre := fun h => hpre x h hx
  rw [turn_of_find hfind, moveToTail, List.erase_append_right _ hmem, List.erase_cons_head]

theorem turn_cases (p : α → Bool) (xs : List α) : (xs.filter p = [] ∧ turn p xs = xs) ∨
    ∃ pre x post, xs = pre ++ x :: post ∧ (∀ y ∈ pre, ¬ p y = true) ∧ p x = true ∧
      turn p xs = pre ++ post ++ [x] := by
  cases hfind : xs.find? p with
  | none =>
    left
    have hfilter : xs.filter p = [] := List.filter_eq_nil_iff.mpr (List.find?_eq_none.mp hfind)
    exact ⟨hfilter, turn_eq_self hfilter⟩
  | some x =>
    right
    obtain ⟨hx, pre, post, rfl, hpre⟩ := List.find?_eq_some_iff_append.mp hfind
    have hnot : ∀ y ∈ pre, ¬ p y = true := by simpa using hpre
    exact ⟨pre, x, post, rfl, hnot, hx, turn_split hnot hx⟩

theorem turn_perm : (turn p xs).Perm xs := by
  rcases turn_cases p xs with ⟨-, h⟩ | ⟨pre, x, post, rfl, -, -, h⟩
  · rw [h]
  · rw [h, List.append_assoc]
    exact (List.perm_append_singleton x post).append_left pre

theorem filter_turn : (turn p xs).filter p = (xs.filter p).rotate 1 := by
  rcases turn_cases p xs with ⟨hf, h⟩ | ⟨pre, x, post, rfl, hpre, hx, h⟩
  · rw [h, hf, List.rotate_nil]
  · have hnil : pre.filter p = [] := List.filter_eq_nil_iff.mpr hpre
    rw [h, List.filter_append, List.filter_append, List.filter_append, hnil, List.filter_cons_of_pos hx,
      List.filter_cons_of_pos hx, List.filter_nil, List.nil_append, List.nil_append, List.rotate_cons_succ,
      List.rotate_zero]

theorem filter_turn_of_disjoint (h : ∀ y ∈ xs, p y = true → ¬ q y = true) : (turn p xs).filter q = xs.filter q := by
  rcases turn_cases p xs with ⟨-, he⟩ | ⟨pre, x, post, rfl, -, hx, he⟩
  · rw [he]
  · have hq : ¬ q x = true := h x (by simp) hx
    rw [he, List.filter_append, List.filter_append, List.filter_append, List.filter_cons_of_neg hq,
      List.filter_cons_of_neg hq, List.filter_nil, List.append_nil]

theorem served_eq (n : ℕ) (xs : List α) :
    served p n xs = (List.range n).map fun k => ((xs.filter p).rotate k).head? := by
  induction n generalizing xs with
  | zero => rfl
  | succ n ih =>
    rw [served, ih, filter_turn, List.range_succ_eq_map, List.map_cons, List.map_map, List.rotate_zero,
      List.head?_filter]
    congr 2
    funext k
    rw [Function.comp_apply, List.rotate_rotate, Nat.add_comm 1 k]

/-- In as many turns as there are elements to serve, each of them is served, in the order of the list. -/
theorem served_round (p : α → Bool) (xs : List α) :
    served p (xs.filter p).length xs = (xs.filter p).map some := by
  rw [served_eq]
  apply List.ext_getElem
  · simp
  · intro k hk hk'
    rw [List.length_map, List.length_range] at hk
    rw [List.getElem_map, List.getElem_range, List.head?_rotate hk, List.getElem?_eq_getElem hk, List.getElem_map]

end VmodRedis.RoundRobin
