import Mathlib.Data.List.Induction
import Mathlib.Data.List.TakeWhile

/-!
Index loops over a text that ends with a terminator, as C programs scan their strings.
-/

namespace VmodRedis.Scanning

inductive Stuck where
  | outOfFuel
  | pastEnd
  deriving DecidableEq, Repr

variable {α β : Type} {z c : α} {f : α → Bool} {pre post u w s : List α}

@[simp] theorem ok_bind (x : α) (g : α → Except Stuck β) : (Except.ok x >>= g) = g x := rfl

/-- One element of the text or its terminator `z`; there is nothing to read after that. -/
def elementAt (z : α) (s : List α) (i : ℕ) : Except Stuck α :=
  match (s ++ [z])[i]? with
  | some c => .ok c
  | none => .error .pastEnd

def skip (z : α) (f : α → Bool) (s : List α) : ℕ → ℕ → Except Stuck ℕ
  | 0, _ => .error .outOfFuel
  | fuel + 1, i => do
    let c ← elementAt z s i
    if f c then skip z f s fuel (i + 1) else .ok i

def back (z : α) (f : α → Bool) (s : List α) (lo : ℕ) : ℕ → Except Stuck ℕ
  | 0 => .ok 0
  | i + 1 =>
    if lo < i + 1 then do
      let c ← elementAt z s (i + 1)
      if f c then back z f s lo i else .ok (i + 1)
    else .ok (i + 1)

@[simp] theorem elementAt_append (z : α) (pre post : List α) :
    elementAt z (pre ++ post) pre.length = .ok (post.head?.getD z) := by
  cases post <;> simp [elementAt]

/-- A forward loop stops where its test first fails, at the terminator at the latest. -/
theorem skip_append (pre : List α) (hu : ∀ x ∈ u, f x = true) (hpost : f (post.head?.getD z) = false) {fuel : ℕ}
    (hfuel : u.length < fuel) : skip z f (pre ++ (u ++ post)) fuel pre.length = .ok (pre ++ u).length := by
  induction u generalizing pre fuel with
  | nil =>
    obtain ⟨n, rfl⟩ := Nat.exists_eq_add_one_of_ne_zero (by omega : fuel ≠ 0)
    rw [skip, List.nil_append, elementAt_append, ok_bind, hpost, List.append_nil]
    rfl
  | cons c u ih =>
    obtain ⟨n, rfl⟩ := Nat.exists_eq_add_one_of_ne_zero (by omega : fuel ≠ 0)
    have hrest := ih (pre ++ [c]) (fun x hx => hu x (List.mem_cons_of_mem c hx))
      (show u.length < n by rw [List.length_cons] at hfuel; omega)
    rw [skip, elementAt_append, ok_bind, List.cons_append, List.head?_cons, Option.getD_some,
      if_pos (hu c List.mem_cons_self)]
    simpa using hrest

theorem exists_skip (hz : f z = false) (s : List α) :
    ∃ u post, s = u ++ post ∧ (∀ x ∈ u, f x = true) ∧ f (post.head?.getD z) = false := by
  refine ⟨s.takeWhile f, s.dropWhile f, List.takeWhile_append_dropWhile.symm, fun x hx => List.mem_takeWhile_imp hx, ?_⟩
  have hstop := List.head?_dropWhile_not f s
  cases hpost : s.dropWhile f with
  | nil => exact hz
  | cons c post =>
    rw [hpost] at hstop
    exact hstop

theorem skip_unique (hu : ∀ x ∈ u, f x = true) (hpost : f (post.head?.getD z) = false) {u' post' : List α}
    (hu' : ∀ x ∈ u', f x = true) (hpost' : f (post'.head?.getD z) = false) (h : u ++ post = u' ++ post') :
    u = u' ∧ post = post' := by
  have hsplit : ∀ {v t : List α}, (∀ x ∈ v, f x = true) → f (t.head?.getD z) = false → (v ++ t).takeWhile f = v := by
    intro v t hv ht
    rw [List.takeWhile_append_of_pos hv]
    cases t with
    | nil => rw [List.takeWhile_nil, List.append_nil]
    | cons c t => rw [List.takeWhile_cons_of_neg (by simpa using ht), List.append_nil]
  have he : u = u' := by rw [← hsplit hu hpost, h, hsplit hu' hpost']
  exact ⟨he, List.append_cancel_left (he ▸ h)⟩

/-- A backward loop stops where its test first fails, or at the lower end, which it does not test. -/
theorem back_append (pre post : List α) (hw : ∀ x ∈ w, f x = true) (hc : u = [] ∨ f c = false) :
    back z f (pre ++ (u ++ c :: (w ++ post))) pre.length (pre ++ (u ++ w)).length = .ok (pre ++ u).length := by
  induction w using List.reverseRecOn generalizing post with
  | nil =>
    obtain ⟨n, hn⟩ : ∃ n, (pre ++ (u ++ [])).length = n := ⟨_, rfl⟩
    have hread : elementAt z (pre ++ (u ++ c :: ([] ++ post))) n = .ok c := by
      rw [← hn, List.append_nil, ← List.append_assoc, elementAt_append]
      rfl
    have hlength : (pre ++ u).length = n := by rw [← hn, List.append_nil]
    rw [hn, hlength]
    cases n with
    | zero => rfl
    | succ n =>
      by_cases hlo : pre.length < n + 1
      · have hfalse : f c = false := by
          apply hc.resolve_left
          rintro rfl
          rw [List.append_nil] at hlength
          omega
        rw [back, if_pos hlo, hread, ok_bind, hfalse]
        rfl
      · rw [back, if_neg hlo]
  | append_singleton w d ih =>
    have hrest := ih (d :: post) (fun x hx => hw x (List.mem_append_left [d] hx))
    have hd := hw d (List.mem_append_right w List.mem_cons_self)
    have hlength : (pre ++ (u ++ (w ++ [d]))).length = (pre ++ (u ++ w)).length + 1 := by
      simp only [List.length_append, List.length_cons, List.length_nil]
      omega
    have hread : elementAt z (pre ++ (u ++ c :: (w ++ d :: post))) ((pre ++ (u ++ w)).length + 1) = .ok d := by
      have h := elementAt_append z (pre ++ (u ++ c :: w)) (d :: post)
      simp only [List.length_append, List.length_cons, List.append_assoc, List.cons_append] at h ⊢
      exact (congrArg _ (by omega)).trans h
    have hlo : pre.length < (pre ++ (u ++ w)).length + 1 := by
      rw [List.length_append]
      omega
    rw [hlength, List.append_assoc, List.singleton_append, back, if_pos hlo, hread, ok_bind, if_pos hd]
    exact hrest

theorem exists_back (f : α → Bool) (hs : s ≠ []) :
    ∃ u c w, s = u ++ c :: w ∧ (∀ x ∈ w, f x = true) ∧ (u = [] ∨ f c = false) := by
  induction s using List.reverseRecOn with
  | nil => exact absurd rfl hs
  | append_singleton s d ih =>
    by_cases h : s = [] ∨ f d = false
    · exact ⟨s, d, [], rfl, by simp, h⟩
    · rw [not_or, Bool.not_eq_false] at h
      obtain ⟨u, c, w, rfl, hw, hc⟩ := ih h.1
      refine ⟨u, c, w ++ [d], by simp, ?_, hc⟩
      intro x hx
      rcases List.mem_append.mp hx with hx | hx
      · exact hw x hx
      · rw [List.mem_singleton.mp hx]
        exact h.2

def retreat (z : α) (f : α → Bool) (s : List α) (lo : ℕ) : ℕ → Except Stuck ℕ
  | 0 => .ok 0
  | i + 1 =>
    if lo < i + 1 then do
      let c ← elementAt z s i
      if f c then retreat z f s lo i else .ok (i + 1)
    else .ok (i + 1)

theorem retreat_append (pre post : List α) (hw : ∀ x ∈ w, f x = true) (hu : ∀ c ∈ u.getLast?, f c = false) :
    retreat z f (pre ++ (u ++ (w ++ post))) pre.length (pre ++ (u ++ w)).length = .ok (pre ++ u).length := by
  have hread : ∀ (v : List α) (d : α) (t : List α), elementAt z (pre ++ (v ++ d :: t)) (pre ++ v).length = .ok d := by
    intro v d t
    rw [← List.append_assoc, elementAt_append]
    rfl
  induction w using List.reverseRecOn generalizing post with
  | nil =>
    rw [List.append_nil, List.nil_append]
    induction u using List.reverseRecOn with
    | nil =>
      rw [List.append_nil]
      cases pre.length with
      | zero => rfl
      | succ n => rw [retreat, if_neg (lt_irrefl _)]
    | append_singleton v c =>
      have hlength : (pre ++ (v ++ [c])).length = (pre ++ v).length + 1 := by simp [Nat.add_assoc]
      have hlo : pre.length < (pre ++ v).length + 1 := by
        rw [List.length_append]
        omega
      rw [hlength, List.append_assoc, List.singleton_append, retreat, if_pos hlo, hread, ok_bind,
        hu c (by simp)]
      rfl
  | append_singleton w d ih =>
    have hrest := ih (d :: post) fun x hx => hw x (List.mem_append_left [d] hx)
    have hlength : (pre ++ (u ++ (w ++ [d]))).length = (pre ++ (u ++ w)).length + 1 := by simp [Nat.add_assoc]
    have hd := hread (u ++ w) d post
    rw [List.append_assoc] at hd
    have hlo : pre.length < (pre ++ (u ++ w)).length + 1 := by
      rw [List.length_append]
      omega
    rw [hlength, List.append_assoc, List.singleton_append, retreat, if_pos hlo, hd, ok_bind,
      if_pos (hw d (by simp))]
    exact hrest

theorem takeWhile_append_stop (s : List α) (hpost : f (post.head?.getD z) = false) :
    (s ++ post).takeWhile f = s.takeWhile f ∧ (s ++ post).dropWhile f = s.dropWhile f ++ post := by
  induction s with
  | nil =>
    cases post with
    | nil => exact ⟨rfl, rfl⟩
    | cons c post =>
      rw [List.head?_cons, Option.getD_some] at hpost
      simp [hpost]
  | cons d s ih => by_cases hd : f d = true <;> simp [hd, ih]

end VmodRedis.Scanning
