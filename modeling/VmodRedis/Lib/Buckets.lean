import Mathlib.Data.List.Nodup
import Mathlib.Data.List.Perm.Basic
import Mathlib.Logic.Function.Basic

namespace VmodRedis.Buckets

variable {κ α : Type*}

section

variable [DecidableEq α]

def successor (x : α) : List α → Option α
  | [] => none
  | y :: ys => if y = x then ys.head? else successor x ys

def moveToTail (x : α) (xs : List α) : List α := xs.erase x ++ [x]

theorem erase_eq_filter_ne {x : α} {xs : List α} (h : xs.Nodup) : xs.erase x = xs.filter (· ≠ x) := by
  rw [h.erase_eq_filter]
  refine List.filter_congr fun y _ => ?_
  by_cases hy : y = x <;> simp [hy]

theorem moveToTail_nodup {x : α} {xs : List α} (h : xs.Nodup) : (moveToTail x xs).Nodup :=
  List.nodup_append'.mpr ⟨h.erase x, List.nodup_singleton x, by simp [h.not_mem_erase]⟩

theorem moveToTail_perm {x : α} {xs : List α} (h : x ∈ xs) : (moveToTail x xs).Perm xs :=
  (List.perm_append_singleton x (xs.erase x)).trans (List.perm_cons_erase h).symm

theorem successor_mem {x y : α} {l : List α} (h : successor x l = some y) : y ∈ l := by
  induction l with
  | nil => simp [successor] at h
  | cons z zs ih =>
    unfold successor at h
    split_ifs at h
    · exact List.mem_cons_of_mem z (List.mem_of_head? h)
    · exact List.mem_cons_of_mem z (ih h)

end

/-- A family of lists that holds each of its elements once, in the list of its key. -/
structure Placed (key : α → κ) (f : κ → List α) : Prop where
  key_eq : ∀ k, ∀ x ∈ f k, key x = k
  nodup : ∀ k, (f k).Nodup

def Member (f : κ → List α) (x : α) : Prop := ∃ k, x ∈ f k

variable {key key' : α → κ} {f : κ → List α} {x y : α} {k : κ}

namespace Placed

theorem mem_iff (h : Placed key f) : x ∈ f k ↔ key x = k ∧ Member f x := by
  constructor
  · intro hx
    exact ⟨h.key_eq k x hx, k, hx⟩
  · rintro ⟨rfl, k, hx⟩
    rw [h.key_eq k x hx]
    exact hx

theorem mem_key (h : Placed key f) (hx : Member f x) : x ∈ f (key x) := h.mem_iff.mpr ⟨rfl, hx⟩

theorem existsUnique (h : Placed key f) (hx : Member f x) : ∃! k, x ∈ f k :=
  ⟨key x, h.mem_key hx, fun _ hk => (h.key_eq _ x hk).symm⟩

theorem flatMap_nodup (h : Placed key f) {ks : List κ} (hks : ks.Nodup) : (ks.flatMap f).Nodup := by
  rw [List.nodup_flatMap]
  refine ⟨fun k _ => h.nodup k, hks.imp ?_⟩
  intro a b hab x hxa hxb
  exact hab ((h.key_eq a x hxa).symm.trans (h.key_eq b x hxb))

theorem congr_key (h : Placed key f) (he : ∀ x, Member f x → key' x = key x) : Placed key' f :=
  ⟨fun k x hx => (he x ⟨k, hx⟩).trans (h.key_eq k x hx), h.nodup⟩

theorem perm (h : Placed key f) {g : κ → List α} (hp : ∀ k, (g k).Perm (f k)) : Placed key g :=
  ⟨fun k x hx => h.key_eq k x ((hp k).mem_iff.mp hx), fun k => (hp k).nodup_iff.mpr (h.nodup k)⟩

end Placed

variable [DecidableEq κ]

def insert (key : α → κ) (x : α) (f : κ → List α) : κ → List α :=
  Function.update f (key x) (f (key x) ++ [x])

theorem mem_insert : y ∈ insert key x f k ↔ y ∈ f k ∨ (y = x ∧ k = key x) := by
  by_cases hk : k = key x
  · subst hk
    simp [insert]
  · simp [insert, hk]

theorem member_insert : Member (insert key x f) y ↔ Member f y ∨ y = x := by
  simp only [Member, mem_insert, exists_or]
  apply or_congr Iff.rfl
  exact ⟨fun ⟨_, hy, _⟩ => hy, fun hy => ⟨key x, hy, rfl⟩⟩

theorem Placed.insert (h : Placed key f) (hx : ¬ Member f x) : Placed key (insert key x f) where
  key_eq k y hy := by
    rcases mem_insert.mp hy with hy | ⟨rfl, rfl⟩
    · exact h.key_eq k y hy
    · rfl
  nodup k := by
    by_cases hk : k = key x
    · subst hk
      simp only [Buckets.insert, Function.update_self]
      refine List.nodup_append'.mpr ⟨h.nodup _, List.nodup_singleton x, ?_⟩
      simpa using fun hm => hx ⟨key x, hm⟩
    · simpa only [Buckets.insert, ne_eq, hk, not_false_eq_true, Function.update_of_ne] using h.nodup k

variable [DecidableEq α]

def remove (key : α → κ) (x : α) (f : κ → List α) : κ → List α :=
  Function.update f (key x) ((f (key x)).erase x)

theorem remove_of_not_member (h : ¬ Member f x) : remove key x f = f := by
  rw [remove, List.erase_of_not_mem fun hx => h ⟨key x, hx⟩, Function.update_eq_self]

namespace Placed

theorem mem_remove (h : Placed key f) : y ∈ remove key x f k ↔ y ∈ f k ∧ y ≠ x := by
  by_cases hk : k = key x
  · subst hk
    simp only [remove, Function.update_self, (h.nodup (key x)).mem_erase_iff]
    exact and_comm
  · simp only [remove, ne_eq, hk, not_false_eq_true, Function.update_of_ne]
    constructor
    · intro hy
      refine ⟨hy, ?_⟩
      rintro rfl
      exact hk (h.key_eq k y hy).symm
    · exact And.left

theorem member_remove (h : Placed key f) : Member (remove key x f) y ↔ Member f y ∧ y ≠ x := by
  simp only [Member, h.mem_remove]
  exact exists_and_right

theorem remove (h : Placed key f) : Placed key (remove key x f) where
  key_eq k y hy := h.key_eq k y (h.mem_remove.mp hy).1
  nodup k := by
    by_cases hk : k = key x
    · subst hk
      simpa only [Buckets.remove, Function.update_self] using (h.nodup (key x)).erase x
    · simpa only [Buckets.remove, ne_eq, hk, not_false_eq_true, Function.update_of_ne] using h.nodup k

end Placed

theorem Placed.move (h : Placed key f) (he : ∀ y, y ≠ x → key' y = key y) :
    Placed key' (Buckets.insert key' x (Buckets.remove key x f)) := by
  have hr : Placed key' (Buckets.remove key x f) :=
    h.remove.congr_key fun y hy => he y (h.member_remove.mp hy).2
  exact hr.insert fun hm => (h.member_remove.mp hm).2 rfl

theorem Placed.member_move (h : Placed key f) :
    Member (Buckets.insert key' x (Buckets.remove key x f)) y ↔ Member f y ∨ y = x := by
  rw [member_insert, h.member_remove]
  by_cases hy : y = x <;> simp [hy]

theorem Placed.remove_eq_filter (h : Placed key f) (k : κ) : Buckets.remove key x f k = (f k).filter (· ≠ x) := by
  by_cases hk : k = key x
  · subst hk
    rw [Buckets.remove, Function.update_self, erase_eq_filter_ne (h.nodup (key x))]
  · have hx : x ∉ f k := fun hx => hk (h.key_eq k x hx).symm
    rw [Buckets.remove, Function.update_of_ne hk]
    refine (List.filter_eq_self.mpr fun y hy => ?_).symm
    rw [decide_eq_true_eq]
    rintro rfl
    exact hx hy

/-- `g` is what the lists `f` become when the elements `xs` leave them and go, in this order, to the
tails of the lists of their keys. -/
def Relisted (key : α → κ) (f : κ → List α) (xs : List α) (g : κ → List α) : Prop :=
  ∀ k, g k = (f k).filter (· ∉ xs) ++ xs.filter (key · = k)

namespace Relisted

variable {g : κ → List α} {xs : List α}

theorem nil (key : α → κ) (f : κ → List α) : Relisted key f [] f := fun k => by simp

theorem move (h : Relisted key f xs g) (hg : Placed key g) (hn : xs.Nodup) (he : ∀ y, y ≠ x → key' y = key y) :
    Relisted key' f (moveToTail x xs) (Buckets.insert key' x (Buckets.remove key x g)) := by
  intro k
  have htail : ∀ y, y ∈ moveToTail x xs ↔ y ∈ xs ∨ y = x := by
    intro y
    by_cases hy : y = x <;> simp [moveToTail, hy, List.mem_erase_of_ne]
  have hkeep : (f k).filter (· ∉ moveToTail x xs) = ((f k).filter (· ∉ xs)).filter (· ≠ x) := by
    rw [List.filter_filter]
    refine List.filter_congr fun y _ => ?_
    simp only [htail, not_or, Bool.decide_and]
    exact Bool.and_comm _ _
  have hmoved : (moveToTail x xs).filter (key' · = k) =
      (xs.filter (key · = k)).filter (· ≠ x) ++ if key' x = k then [x] else [] := by
    have hfilter : (xs.filter (· ≠ x)).filter (key' · = k) = (xs.filter (key · = k)).filter (· ≠ x) := by
      rw [List.filter_filter, List.filter_filter]
      refine List.filter_congr fun y _ => ?_
      by_cases hy : y = x
      · simp [hy]
      · simp [hy, he y hy]
    rw [moveToTail, List.filter_append, erase_eq_filter_ne hn, hfilter]
    congr 1
    split_ifs with hx <;> simp [hx]
  rw [hkeep, hmoved, ← List.append_assoc, ← List.filter_append, ← h k]
  by_cases hk : k = key' x
  · subst hk
    simp only [Buckets.insert, Function.update_self, if_true, hg.remove_eq_filter]
  · rw [Buckets.insert, Function.update_of_ne hk, if_neg (Ne.symm hk), List.append_nil, hg.remove_eq_filter]

end Relisted

end VmodRedis.Buckets
