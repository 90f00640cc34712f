import Mathlib.Data.List.Basic

/-!
A text consumed block by block: what any division of the text into parts has in common.
-/

namespace VmodRedis.BlockStream

variable {σ α : Type*} (f : σ → List α → σ) (n : ℕ) {s : σ} {j k : ℕ} {xs ys : List α}

def absorb : ℕ → σ → List α → σ
  | 0, s, _ => s
  | k + 1, s, xs => absorb k (f s (xs.take n)) (xs.drop n)

def absorbWhole (s : σ) (xs : List α) : σ := absorb f n (xs.length / n) s xs

def remainder (xs : List α) : List α := xs.drop (n * (xs.length / n))

variable {f n}

theorem absorb_add : absorb f n (j + k) s xs = absorb f n k (absorb f n j s xs) (xs.drop (n * j)) := by
  induction j generalizing s xs with
  | zero => simp [absorb]
  | succ j ih =>
    rw [Nat.add_right_comm, absorb, absorb, ih, List.drop_drop, Nat.mul_succ, Nat.add_comm n]

theorem absorb_append_left (h : n * k ≤ xs.length) : absorb f n k s (xs ++ ys) = absorb f n k s xs := by
  induction k generalizing s xs with
  | zero => rfl
  | succ k ih =>
    rw [Nat.mul_succ] at h
    have hdrop : n * k ≤ (xs.drop n).length := by
      rw [List.length_drop]
      omega
    rw [absorb, absorb, List.take_append_of_le_length (by omega), List.drop_append_of_le_length (by omega), ih hdrop]

theorem remainder_length : (remainder n xs).length = xs.length % n := by
  rw [remainder, List.length_drop, Nat.mod_eq_sub]

theorem remainder_of_lt (h : xs.length < n) : remainder n xs = xs := by
  rw [remainder, Nat.div_eq_of_lt h, Nat.mul_zero, List.drop_zero]

theorem absorbWhole_of_lt (h : xs.length < n) : absorbWhole f n s xs = s := by
  rw [absorbWhole, Nat.div_eq_of_lt h, absorb]

theorem absorbWhole_step (s : σ) (xs : List α) (hn : 0 < n) (h : n ≤ xs.length) :
    absorbWhole f n s xs = absorbWhole f n (f s (xs.take n)) (xs.drop n) := by
  have hdiv : xs.length / n = (xs.length - n) / n + 1 := Nat.div_eq_sub_div hn h
  rw [absorbWhole, hdiv, absorb, absorbWhole, List.length_drop]

theorem remainder_step (xs : List α) (hn : 0 < n) (h : n ≤ xs.length) : remainder n xs = remainder n (xs.drop n) := by
  have hdiv : xs.length / n = (xs.length - n) / n + 1 := Nat.div_eq_sub_div hn h
  rw [remainder, hdiv, remainder, List.length_drop, List.drop_drop, Nat.mul_succ, Nat.add_comm n]

theorem length_div_append (hn : 0 < n) :
    (xs ++ ys).length / n = xs.length / n + (remainder n xs ++ ys).length / n := by
  have hdecomp := Nat.div_add_mod xs.length n
  rw [List.length_append, List.length_append, remainder_length, ← Nat.mul_add_div hn]
  congr 1
  omega

theorem drop_append_remainder (xs ys : List α) :
    (xs ++ ys).drop (n * (xs.length / n)) = remainder n xs ++ ys :=
  List.drop_append_of_le_length (Nat.mul_div_le xs.length n)

theorem absorbWhole_append (hn : 0 < n) :
    absorbWhole f n s (xs ++ ys) = absorbWhole f n (absorbWhole f n s xs) (remainder n xs ++ ys) := by
  rw [absorbWhole, length_div_append hn, absorb_add, drop_append_remainder,
    absorb_append_left (Nat.mul_div_le xs.length n), absorbWhole, absorbWhole]

theorem remainder_append (hn : 0 < n) : remainder n (xs ++ ys) = remainder n (remainder n xs ++ ys) := by
  rw [remainder, length_div_append hn, Nat.mul_add, ← List.drop_drop, drop_append_remainder xs ys]
  rfl

end VmodRedis.BlockStream
