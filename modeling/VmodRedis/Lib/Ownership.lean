import Mathlib.Data.List.Nodup
import Mathlib.Data.List.Range

/-!
Objects that are obtained one after the other, each with an owner who has to release it once.
-/

namespace VmodRedis.Ownership

/-- The objects obtained so far are those below `obtained`. -/
structure Ledger where
  obtained : ℕ
  released : List ℕ

namespace Ledger

def empty : Ledger := ⟨0, []⟩

def obtain (l : Ledger) : Ledger := { l with obtained := l.obtained + 1 }

def release (id : ℕ) (l : Ledger) : Ledger := { l with released := id :: l.released }

end Ledger

/-- Every object obtained is either released or held, and once. -/
def Owns (l : Ledger) (held : List ℕ) : Prop := (l.released ++ held).Perm (List.range l.obtained)

namespace Owns

variable {l : Ledger} {held held' : List ℕ} {id : ℕ}

theorem empty : Owns .empty [] := List.Perm.refl []

theorem perm (h : Owns l held) (hp : held'.Perm held) : Owns l held' := (hp.append_left _).trans h

theorem obtain (h : Owns l held) : Owns l.obtain (l.obtained :: held) := by
  change (l.released ++ l.obtained :: held).Perm (List.range (l.obtained + 1))
  rw [List.range_succ]
  exact List.perm_middle.trans ((List.Perm.cons _ h).trans (List.perm_append_singleton _ _).symm)

theorem release (h : Owns l (id :: held)) : Owns (l.release id) held := List.perm_middle.symm.trans h

theorem not_owns_obtain (h : Owns l held) : ¬ Owns l.obtain held := by
  intro h'
  have hlength := h.length_eq
  have hlength' := h'.length_eq
  rw [List.length_range] at hlength hlength'
  change (l.released ++ held).length = l.obtained + 1 at hlength'
  omega

theorem live_iff (h : Owns l held) : id < l.obtained ∧ id ∉ l.released ↔ id ∈ held := by
  have hmem : id ∈ l.released ++ held ↔ id < l.obtained := by
    rw [h.mem_iff, List.mem_range]
  have hnodup : (l.released ++ held).Nodup := h.nodup_iff.mpr List.nodup_range
  rw [List.mem_append] at hmem
  constructor
  · rintro ⟨hid, hn⟩
    exact (hmem.mpr hid).resolve_left hn
  · intro hid
    refine ⟨hmem.mp (Or.inr hid), ?_⟩
    intro hr
    exact List.disjoint_of_nodup_append hnodup hr hid

theorem released_nodup (h : Owns l held) : l.released.Nodup := by
  have hnodup : (l.released ++ held).Nodup := h.nodup_iff.mpr List.nodup_range
  exact (List.nodup_append.mp hnodup).1

theorem released_once (h : Owns l []) (hid : id < l.obtained) : l.released.count id = 1 := by
  have hp : l.released.Perm (List.range l.obtained) := by
    have hl : (l.released ++ []).Perm (List.range l.obtained) := h
    rwa [List.append_nil] at hl
  rw [hp.count_eq]
  exact List.count_eq_one_of_mem List.nodup_range (List.mem_range.mpr hid)

end Owns

end VmodRedis.Ownership
