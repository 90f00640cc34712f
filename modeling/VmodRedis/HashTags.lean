import VmodRedis.Slots

namespace VmodRedis.Slots

open CStrings Database

/-- The tag of a key: what is between its first brace and the first closing brace after it. -/
def Tagged (key tag : Bytes) : Prop :=
  ∃ before after, key = before ++ 123 :: (tag ++ 125 :: after) ∧ 123 ∉ before ∧ 125 ∉ tag ∧ tag ≠ []

def IsHashed (key part : Bytes) : Prop := Tagged key part ∨ (part = key ∧ ∀ tag, ¬ Tagged key tag)

theorem takeWhile_ne_append {c : UInt8} {s t : Bytes} (h : c ∉ s) :
    (s ++ c :: t).takeWhile (· ≠ c) = s ∧ (s ++ c :: t).dropWhile (· ≠ c) = c :: t := by
  have hall : ∀ x ∈ s, decide (x ≠ c) = true := fun x hx => decide_eq_true fun he => h (he ▸ hx)
  rw [List.takeWhile_append_of_pos hall, List.dropWhile_append_of_pos hall]
  simp

theorem takeWhile_ne_self {c : UInt8} {s : Bytes} (h : c ∉ s) :
    s.takeWhile (· ≠ c) = s ∧ s.dropWhile (· ≠ c) = [] := by
  have hall : ∀ x ∈ s, decide (x ≠ c) = true := fun x hx => decide_eq_true fun he => h (he ▸ hx)
  exact ⟨List.takeWhile_eq_self_iff.mpr hall, List.dropWhile_eq_nil_iff.mpr hall⟩

theorem searchFrom_eq {key : Bytes} {n i : ℕ} (h : i + n = key.length) (c : UInt8) :
    searchFrom key c n i = i + ((key.drop i).takeWhile (· ≠ c)).length := by
  induction n generalizing i with
  | zero =>
    rw [List.drop_eq_nil_of_le (show key.length ≤ i by omega)]
    rfl
  | succ n ih =>
    have hi : i < key.length := by omega
    rw [searchFrom, List.getElem?_eq_getElem hi, List.drop_eq_getElem_cons hi, List.takeWhile_cons]
    by_cases hc : key[i] = c
    · simp [hc]
    · rw [if_neg (by simpa using hc), if_pos (by simpa using hc), ih (by omega), List.length_cons]
      omega

theorem and_slots (n : ℕ) : n &&& (nredisClusterSlots - 1) = n % nredisClusterSlots :=
  Nat.and_two_pow_sub_one_eq_mod n 14

theorem hashed_of_not_mem {key : Bytes} (h : 123 ∉ cstr key) : hashed key = cstr key := by
  unfold hashed
  simp only [(takeWhile_ne_self h).2]

theorem hashed_of_brace {key before rest : Bytes} (hkey : cstr key = before ++ 123 :: rest) (h : 123 ∉ before) :
    hashed key = if (rest.takeWhile (· ≠ 125)).length = rest.length ∨ rest.takeWhile (· ≠ 125) = [] then cstr key
      else rest.takeWhile (· ≠ 125) := by
  unfold hashed
  simp only [hkey, (takeWhile_ne_append h).2]

theorem getClusterSlot_eq {key : Bytes} (h : (cstr key).length < 2 ^ 31) :
    getClusterSlot key = crc16 (hashed key) % nredisClusterSlots := by
  have hbmod : Int.bmod (cstr key).length (2 ^ 32) = (cstr key).length := by
    apply Int.bmod_eq_of_le <;> omega
  unfold getClusterSlot
  simp only [hbmod, Int.toNat_natCast, List.take_length, and_slots, Int.natCast_inj]
  rw [searchFrom_eq (Nat.zero_add _), List.drop_zero, Nat.zero_add]
  by_cases hmem : 123 ∈ cstr key
  · obtain ⟨before, rest, hkey, hbefore⟩ := List.eq_append_cons_of_mem hmem
    have hlength : (cstr key).length = before.length + 1 + rest.length := by
      rw [hkey, List.length_append, List.length_cons]
      omega
    have hs : ((cstr key).takeWhile (· ≠ 123)).length = before.length := by
      rw [hkey, (takeWhile_ne_append hbefore).1]
    have hdrop : (cstr key).drop (before.length + 1) = rest := by
      rw [hkey, List.drop_append]
      simp
    have hn : (((cstr key).length : ℤ) - ((before.length : ℤ) + 1)).toNat = rest.length := by omega
    have he : before.length + 1 + rest.length = (cstr key).length := hlength.symm
    rw [hs, if_neg (by omega), hn, searchFrom_eq he, hdrop, hashed_of_brace hkey hbefore]
    obtain ⟨tag, htag⟩ : ∃ tag, rest.takeWhile (· ≠ 125) = tag := ⟨_, rfl⟩
    have hprefix : rest.take tag.length = tag := by
      rw [← htag]
      exact (List.prefix_iff_eq_take.mp (List.takeWhile_prefix _)).symm
    have hcond : (before.length + 1 + tag.length = (cstr key).length ∨ before.length + 1 + tag.length = before.length + 1) ↔
        (tag.length = rest.length ∨ tag = []) := by
      rw [hlength, ← List.length_eq_zero_iff]
      omega
    rw [htag]
    simp only [hcond]
    split_ifs
    · rfl
    · rw [show before.length + 1 + tag.length - before.length - 1 = tag.length by omega, hprefix]
  · rw [(takeWhile_ne_self hmem).1, if_pos rfl, hashed_of_not_mem hmem]

theorem hashed_of_tagged {key tag : Bytes} (h : Tagged (cstr key) tag) : hashed key = tag := by
  obtain ⟨before, after, hkey, hbefore, htag, hne⟩ := h
  rw [hashed_of_brace hkey hbefore, (takeWhile_ne_append htag).1, if_neg]
  rintro (hlength | hnil)
  · rw [List.length_append, List.length_cons] at hlength
    omega
  · exact hne hnil

theorem hashed_of_not_tagged {key : Bytes} (h : ∀ tag, ¬ Tagged (cstr key) tag) : hashed key = cstr key := by
  by_cases hmem : 123 ∈ cstr key
  · obtain ⟨before, rest, hkey, hbefore⟩ := List.eq_append_cons_of_mem hmem
    rw [hashed_of_brace hkey hbefore]
    by_cases hclosing : 125 ∈ rest
    · obtain ⟨tag, after, hrest, htag⟩ := List.eq_append_cons_of_mem hclosing
      rw [hrest, (takeWhile_ne_append htag).1]
      apply if_pos
      right
      by_contra hne
      exact h tag ⟨before, after, by rw [hkey, hrest], hbefore, htag, hne⟩
    · apply if_pos
      left
      rw [(takeWhile_ne_self hclosing).1]
  · exact hashed_of_not_mem hmem

theorem isHashed_iff (key part : Bytes) : IsHashed (cstr key) part ↔ part = hashed key := by
  constructor
  · rintro (htag | ⟨rfl, hnone⟩)
    · exact (hashed_of_tagged htag).symm
    · exact (hashed_of_not_tagged hnone).symm
  · rintro rfl
    by_cases h : ∃ tag, Tagged (cstr key) tag
    · obtain ⟨tag, htag⟩ := h
      left
      rwa [hashed_of_tagged htag]
    · exact Or.inr ⟨hashed_of_not_tagged (not_exists.mp h), not_exists.mp h⟩

theorem not_tagged_of_not_mem {key : Bytes} (h : 125 ∉ key) (tag : Bytes) : ¬ Tagged key tag := by
  rintro ⟨before, after, rfl, -⟩
  simp at h

/-- Keys of fewer than `2 ^ 31` bytes are hashed by their tags. -/
theorem getClusterSlot_tags :
    (∀ key, (cstr key).length < 2 ^ 31 → ∃ part, (∀ p, IsHashed (cstr key) p ↔ p = part) ∧
      getClusterSlot key = crc16 part % nredisClusterSlots) ∧
    (∀ before tag after, 0 ∉ before ++ 123 :: (tag ++ 125 :: after) →
      (before ++ 123 :: (tag ++ 125 :: after)).length < 2 ^ 31 → 123 ∉ before → 125 ∉ tag → tag ≠ [] →
      getClusterSlot (before ++ 123 :: (tag ++ 125 :: after)) = getClusterSlot tag) ∧
    ∀ key key' tag, (cstr key).length < 2 ^ 31 → (cstr key').length < 2 ^ 31 → Tagged (cstr key) tag →
      Tagged (cstr key') tag → getClusterSlot key = getClusterSlot key' := by
  refine ⟨fun key h => ⟨hashed key, isHashed_iff key, getClusterSlot_eq h⟩, ?_, ?_⟩
  · intro before tag after hzero hlength hbefore htag hne
    obtain ⟨key, hkey⟩ : ∃ key, before ++ 123 :: (tag ++ 125 :: after) = key := ⟨_, rfl⟩
    have hzero' : 0 ∉ tag := by
      intro hmem
      apply hzero
      simp [hmem]
    have hlength' : tag.length < 2 ^ 31 := by
      simp only [List.length_append, List.length_cons] at hlength
      omega
    have hwhole : hashed tag = tag := by
      have hnone : ∀ t, ¬ Tagged (cstr tag) t := by
        rw [cstr_of_not_mem hzero']
        exact not_tagged_of_not_mem htag
      rw [hashed_of_not_tagged hnone, cstr_of_not_mem hzero']
    have hpart : hashed key = tag := by
      apply hashed_of_tagged
      rw [← hkey, cstr_of_not_mem hzero]
      exact ⟨before, after, rfl, hbefore, htag, hne⟩
    rw [hkey] at hzero hlength ⊢
    rw [getClusterSlot_eq (by rwa [cstr_of_not_mem hzero]), getClusterSlot_eq (by rwa [cstr_of_not_mem hzero']), hpart,
      hwhole]
  · intro key key' tag h h' ht ht'
    rw [getClusterSlot_eq h, getClusterSlot_eq h', hashed_of_tagged ht, hashed_of_tagged ht']

theorem getClusterSlot_long {n : ℕ} (h : 2 ^ 31 ≤ n + 3) (h' : n + 3 < 2 ^ 32) :
    hashed (bytes "{a}" ++ List.replicate n 120) = bytes "a" ∧
      getClusterSlot (bytes "{a}" ++ List.replicate n 120) = 0 := by
  obtain ⟨key, hkey⟩ : ∃ key, bytes "{a}" ++ List.replicate n 120 = key := ⟨_, rfl⟩
  have hzero : 0 ∉ key := by
    rw [← hkey, List.mem_append, List.mem_replicate, not_or]
    exact ⟨by decide, fun hx => absurd hx.2 (by decide)⟩
  have hlength : key.length = n + 3 := by
    rw [← hkey, List.length_append, List.length_replicate, Nat.add_comm]
    rfl
  have hbmod : Int.bmod (n + 3 : ℕ) (2 ^ 32) = (n + 3 : ℕ) - 2 ^ 32 := by
    unfold Int.bmod
    dsimp only
    rw [if_neg] <;> omega
  rw [hkey]
  constructor
  · apply hashed_of_tagged
    rw [cstr_of_not_mem hzero, ← hkey]
    exact ⟨[], List.replicate n 120, rfl, List.not_mem_nil, by decide, by decide⟩
  · have hnone : (((n + 3 : ℕ) : ℤ) - 2 ^ 32).toNat = 0 := by omega
    have hnone' : (((n + 3 : ℕ) : ℤ) - 2 ^ 32 - ((0 : ℕ) + 1)).toNat = 0 := by omega
    unfold getClusterSlot
    dsimp only
    rw [cstr_of_not_mem hzero, hlength, hbmod, hnone, searchFrom, if_neg (by omega), hnone', searchFrom,
      if_pos (Or.inr rfl), List.take_zero]
    decide

theorem getClusterSlot_overflows : ¬ ∀ key, getClusterSlot key = crc16 (hashed key) % nredisClusterSlots := by
  intro h
  obtain ⟨hpart, hslot⟩ := getClusterSlot_long (show 2 ^ 31 ≤ 2147483645 + 3 by decide) (by decide)
  have he := h (bytes "{a}" ++ List.replicate 2147483645 120)
  rw [hpart, hslot] at he
  exact absurd he (by decide +kernel)

end VmodRedis.Slots
