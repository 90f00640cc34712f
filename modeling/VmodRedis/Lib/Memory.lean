import Mathlib.Data.List.Basic

/-!
A memory of cells, and the strings that a terminator ends in it.
-/

namespace VmodRedis.Memory

variable {α : Type} {z : α} {m m' : ℕ → α} {p : ℕ} {s t : List α}

def write (p : ℕ) (s : List α) (m : ℕ → α) : ℕ → α := fun q => if p ≤ q then (s[q - p]?).getD (m q) else m q

def StringAt (z : α) (m : ℕ → α) (p : ℕ) : List α → Prop
  | [] => m p = z
  | c :: s => c ≠ z ∧ m p = c ∧ StringAt z m (p + 1) s

@[simp] theorem write_nil (p : ℕ) (m : ℕ → α) : write p [] m = m := by
  funext q
  simp [write]

theorem write_cons_self (p : ℕ) (c : α) (s : List α) (m : ℕ → α) : write p (c :: s) m p = c := by
  simp [write]

theorem write_cons_of_lt (c : α) (s : List α) (m : ℕ → α) {q : ℕ} (h : p < q) :
    write p (c :: s) m q = write (p + 1) s m q := by
  obtain ⟨k, rfl⟩ := Nat.exists_eq_add_of_lt h
  have hcons : p + k + 1 - p = k + 1 := by omega
  have htail : p + k + 1 - (p + 1) = k := by omega
  rw [write, write, if_pos (by omega), if_pos (by omega), hcons, htail, List.getElem?_cons_succ]

theorem StringAt.congr (h : ∀ q, p ≤ q → m q = m' q) (s : List α) : StringAt z m p s ↔ StringAt z m' p s := by
  induction s generalizing p with
  | nil =>
    unfold StringAt
    rw [h p (Nat.le_refl p)]
  | cons c s ih =>
    unfold StringAt
    rw [h p (Nat.le_refl p), ih fun q hq => h q (by omega)]

theorem StringAt.unique (hs : StringAt z m p s) (ht : StringAt z m p t) : s = t := by
  induction s generalizing p t with
  | nil =>
    cases t with
    | nil => rfl
    | cons d t => exact absurd (ht.2.1.symm.trans hs) ht.1
  | cons c s ih =>
    cases t with
    | nil => exact absurd (hs.2.1.symm.trans ht) hs.1
    | cons d t => rw [hs.2.1.symm.trans ht.2.1, ih hs.2.2 ht.2.2]

theorem stringAt_write_append (hs : z ∉ s) (t u : List α) :
    StringAt z (write p (s ++ t) m) p (s ++ u) ↔ StringAt z (write (p + s.length) t m) (p + s.length) u := by
  induction s generalizing p with
  | nil => rfl
  | cons c s ih =>
    rw [List.mem_cons, not_or] at hs
    have hlength : p + (c :: s).length = p + 1 + s.length := by
      rw [List.length_cons]
      omega
    rw [hlength, ← ih hs.2, List.cons_append, List.cons_append, StringAt, write_cons_self]
    have htail := StringAt.congr (z := z) (fun q (hq : p + 1 ≤ q) => write_cons_of_lt c (s ++ t) m hq) (s ++ u)
    rw [htail]
    exact ⟨fun h => h.2.2, fun h => ⟨fun hc => hs.1 hc.symm, rfl, h⟩⟩

theorem stringAt_write (hs : z ∉ s) (t : List α) : StringAt z (write p (s ++ z :: t) m) p s := by
  have h := stringAt_write_append (p := p) (m := m) hs (z :: t) []
  rw [List.append_nil] at h
  exact h.mpr (write_cons_self _ z t m)

/-- Of a string without its terminator, or of a part of it, the rest must be there already. -/
theorem stringAt_write_take (hs : z ∉ s) {n : ℕ} (hn : n ≤ s.length) :
    StringAt z (write p (s.take n) m) p s ↔ StringAt z m (p + n) (s.drop n) := by
  have h := stringAt_write_append (p := p) (m := m) (fun hz => hs (List.mem_of_mem_take hz) : z ∉ s.take n) [] (s.drop n)
  rwa [List.append_nil, List.take_append_drop, List.length_take, Nat.min_eq_left hn, write_nil] at h

end VmodRedis.Memory
