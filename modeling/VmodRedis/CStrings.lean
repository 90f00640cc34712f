import Mathlib.Algebra.Group.Int.Defs
import Mathlib.Algebra.Group.Nat.Defs
import Mathlib.Data.List.Infix
import Mathlib.Data.List.TakeWhile

namespace VmodRedis.CStrings

abbrev Bytes := List UInt8

def bytes (s : String) : Bytes := s.toList.map (fun c => c.toUInt8)

/-- What the C string functions see of a buffer: the bytes before the first NUL. -/
def cstr (s : Bytes) : Bytes := s.takeWhile (· ≠ 0)

def strcmp (s t : Bytes) : Bool := cstr s == cstr t

def strncmp (s word : Bytes) : Bool := word.isPrefixOf (cstr s)

def lower (c : UInt8) : UInt8 := if 65 ≤ c ∧ c ≤ 90 then c + 32 else c

def strcasecmp (s t : Bytes) : Bool := (cstr s).map lower == (cstr t).map lower

def strcasestr (haystack needle : Bytes) : Bool :=
  ((cstr haystack).map lower).tails.any (fun t => ((cstr needle).map lower).isPrefixOf t)

def strstr (haystack needle : Bytes) : Bool := (cstr haystack).tails.any fun t => (cstr needle).isPrefixOf t

/-- What calls of `strtok_r` with a blank as the only delimiter return, until there are no more tokens. -/
def strtok (s : Bytes) : List Bytes := ((cstr s).splitOn 32).filter (· ≠ [])

def strchr (s : Bytes) (c : UInt8) : Option Bytes :=
  match (cstr s).dropWhile (· ≠ c) with
  | [] => none
  | t => some t

def strrchr (s : Bytes) (c : UInt8) : Option (Bytes × Bytes) :=
  match (cstr s).reverse.span (· ≠ c) with
  | (_, []) => none
  | (after, _ :: before) => some (before.reverse, after.reverse)

def isspace (c : UInt8) : Bool := c = 32 ∨ (9 ≤ c ∧ c ≤ 13)

def isdigit (c : UInt8) : Bool := 48 ≤ c ∧ c ≤ 57

def digitsValue (s : Bytes) : ℕ := s.foldl (fun n c => 10 * n + (c.toNat - 48)) 0

/-- `strtol` in base 10: blanks, a sign, digits; the value saturates at the limits of `long`. -/
def strtol (s : Bytes) : ℤ :=
  let s := (cstr s).dropWhile isspace
  let negative := s.head? = some 45
  let s := if s.head? = some 45 ∨ s.head? = some 43 then s.tail else s
  let n : ℤ := digitsValue (s.takeWhile isdigit)
  if negative then max (-n) (-2 ^ 63) else min n (2 ^ 63 - 1)

def strtolLength (s : Bytes) : ℕ :=
  let text := (cstr s).dropWhile isspace
  let text := if text.head? = some 45 ∨ text.head? = some 43 then text.tail else text
  if text.takeWhile isdigit = [] then 0 else (cstr s).length - (text.dropWhile isdigit).length

def atoi (s : Bytes) : ℕ := (strtol s % 2 ^ 32).toNat

def decimal (n : ℕ) : Bytes := (Nat.toDigits 10 n).map (fun c => c.toUInt8)

def colon : UInt8 := 58

theorem cstr_of_not_mem {s : Bytes} (h : 0 ∉ s) : cstr s = s := by
  apply List.takeWhile_eq_self_iff.mpr
  intro c hc
  simpa using fun he : c = 0 => h (he ▸ hc)

theorem zero_not_mem_cstr (s : Bytes) : 0 ∉ cstr s := by
  intro h
  simpa using List.mem_takeWhile_imp h

@[simp] theorem cstr_cstr (s : Bytes) : cstr (cstr s) = cstr s :=
  cstr_of_not_mem (zero_not_mem_cstr s)

theorem strcmp_iff (s t : Bytes) : strcmp s t = true ↔ cstr s = cstr t := by
  simp [strcmp]

theorem strrchr_isSome (s : Bytes) (c : UInt8) : (strrchr s c).isSome = true ↔ c ∈ cstr s := by
  have hmem : c ∈ cstr s ↔ (cstr s).reverse.dropWhile (· ≠ c) ≠ [] := by
    simp [List.dropWhile_eq_nil_iff]
  rw [hmem, strrchr, List.span_eq_takeWhile_dropWhile]
  cases (cstr s).reverse.dropWhile (· ≠ c) <;> simp

theorem cstr_append_of_not_mem {s t : Bytes} (h : 0 ∉ s) : cstr (s ++ t) = s ++ cstr t := by
  apply List.takeWhile_append_of_pos
  intro c hc
  simpa using fun he : c = 0 => h (he ▸ hc)

theorem cstr_cons_of_ne {c : UInt8} {s : Bytes} (h : c ≠ 0) : cstr (c :: s) = c :: cstr s := by
  rw [cstr, List.takeWhile_cons_of_pos (by simpa using h)]
  rfl

theorem strchr_append {pre post : Bytes} {c : UInt8} (hc : c ∉ pre) (h : 0 ∉ pre ++ c :: post) :
    strchr (pre ++ c :: post) c = some (c :: post) := by
  have hdrop : (pre ++ c :: post).dropWhile (· ≠ c) = c :: post := by
    rw [List.dropWhile_append_of_pos]
    · rw [List.dropWhile_cons_of_neg (by simp)]
    · intro d hd
      simpa using fun he : d = c => hc (he ▸ hd)
  rw [strchr, cstr_of_not_mem h, hdrop]

theorem strrchr_append {pre post : Bytes} {c : UInt8} (hc : c ∉ post) (h : 0 ∉ pre ++ c :: post) :
    strrchr (pre ++ c :: post) c = some (pre, post) := by
  have hne : ∀ d ∈ post.reverse, decide (d ≠ c) = true := by
    intro d hd
    simpa using fun he : d = c => hc (he ▸ List.mem_reverse.mp hd)
  rw [strrchr, cstr_of_not_mem h, List.span_eq_takeWhile_dropWhile, List.reverse_append, List.reverse_cons,
    List.append_assoc, List.singleton_append, List.takeWhile_append_of_pos hne, List.dropWhile_append_of_pos hne,
    List.takeWhile_cons_of_neg (by simp), List.dropWhile_cons_of_neg (by simp)]
  simp

theorem isdigit_iff (c : UInt8) : isdigit c = true ↔ 48 ≤ c.toNat ∧ c.toNat ≤ 57 := by
  simp [isdigit, UInt8.le_iff_toNat_le]

def IsDigits (s : Bytes) : Prop := s ≠ [] ∧ ∀ c ∈ s, isdigit c = true

theorem isDigits_of_all {s : Bytes} (hne : s ≠ []) (h : s.all isdigit = true) : IsDigits s :=
  ⟨hne, List.all_eq_true.mp h⟩

theorem IsDigits.not_mem {s : Bytes} (h : IsDigits s) {c : UInt8} (hc : isdigit c = false) : c ∉ s := by
  intro hm
  have := h.2 c hm
  rw [hc] at this
  cases this

theorem not_isspace_of_isdigit {c : UInt8} (h : isdigit c = true) : isspace c = false := by
  rw [isdigit_iff] at h
  simp only [isspace, decide_eq_false_iff_not, not_or, not_and, UInt8.le_iff_toNat_le, ← UInt8.toNat_inj]
  simp only [UInt8.toNat_ofNat]
  omega

theorem strtol_append {s t : Bytes} (h : IsDigits s) (ht : isdigit (t.head?.getD 0) = false) :
    strtol (s ++ t) = min (digitsValue s : ℤ) (2 ^ 63 - 1) ∧ strtolLength (s ++ t) = s.length := by
  have hstr : cstr (s ++ t) = s ++ cstr t := cstr_append_of_not_mem (h.not_mem (by decide))
  have hrest : (cstr t).takeWhile isdigit = [] ∧ (cstr t).dropWhile isdigit = cstr t := by
    cases t with
    | nil => exact ⟨rfl, rfl⟩
    | cons c t =>
      rw [List.head?_cons, Option.getD_some] at ht
      by_cases hc : c = 0
      · rw [hc]
        exact ⟨rfl, rfl⟩
      · rw [cstr_cons_of_ne hc]
        simp [ht]
  have htake : (s ++ cstr t).takeWhile isdigit = s ∧ (s ++ cstr t).dropWhile isdigit = cstr t := by
    rw [List.takeWhile_append_of_pos h.2, List.dropWhile_append_of_pos h.2, hrest.1, hrest.2, List.append_nil]
    exact ⟨rfl, rfl⟩
  obtain ⟨hne, hall⟩ := h
  cases s with
  | nil => exact absurd rfl hne
  | cons c rest =>
    have hc : isdigit c = true := hall c List.mem_cons_self
    have h45 : c ≠ 45 := by rintro rfl; exact absurd hc (by decide)
    have h43 : c ≠ 43 := by rintro rfl; exact absurd hc (by decide)
    have hspace : (c :: rest ++ cstr t).dropWhile isspace = c :: rest ++ cstr t :=
      List.dropWhile_cons_of_neg (by simp [not_isspace_of_isdigit hc])
    have hsign : ¬ ((c :: rest ++ cstr t).head? = some 45 ∨ (c :: rest ++ cstr t).head? = some 43) := by
      simp [h45, h43]
    unfold strtol strtolLength
    dsimp only
    rw [hstr, hspace, if_neg hsign, if_neg (fun he => hsign (Or.inl he)), htake.1, htake.2, if_neg hne,
      List.length_append, Nat.add_sub_cancel]
    exact ⟨rfl, rfl⟩

theorem strtol_digits {s : Bytes} (h : IsDigits s) : strtol s = min (digitsValue s : ℤ) (2 ^ 63 - 1) := by
  have hs := strtol_append h (t := []) (by decide)
  rw [List.append_nil] at hs
  exact hs.1

theorem atoi_digits {s : Bytes} (h : IsDigits s) (hlt : digitsValue s < 2 ^ 32) : atoi s = digitsValue s := by
  rw [atoi, strtol_digits h]
  omega

theorem digitsValue_concat (s : Bytes) (c : UInt8) : digitsValue (s ++ [c]) = 10 * digitsValue s + (c.toNat - 48) := by
  rw [digitsValue, List.foldl_append]
  rfl

theorem digitChar_toNat {d : ℕ} (h : d < 10) : d.digitChar.toUInt8.toNat = 48 + d := by
  have hall : ∀ e : Fin 10, (e : ℕ).digitChar.toUInt8.toNat = 48 + e := by decide
  exact hall ⟨d, h⟩

theorem decimal_of_lt {n : ℕ} (h : n < 10) : decimal n = [n.digitChar.toUInt8] := by
  rw [decimal, Nat.toDigits_of_lt_base h]
  rfl

theorem decimal_of_le {n : ℕ} (h : 10 ≤ n) : decimal n = decimal (n / 10) ++ [(n % 10).digitChar.toUInt8] := by
  rw [decimal, Nat.toDigits_of_base_le (by decide) h, List.map_append]
  rfl

theorem isDigits_decimal (n : ℕ) : IsDigits (decimal n) := by
  induction n using Nat.strong_induction_on with
  | _ n ih =>
    have hdigit : ∀ d < 10, isdigit d.digitChar.toUInt8 = true := by
      intro d hd
      rw [isdigit_iff, digitChar_toNat hd]
      omega
    by_cases h : n < 10
    · rw [decimal_of_lt h]
      exact ⟨List.cons_ne_nil _ _, by simpa using hdigit n h⟩
    · have hrest := (ih (n / 10) (by omega)).2
      rw [decimal_of_le (Nat.not_lt.mp h)]
      refine ⟨by simp, fun c hc => ?_⟩
      rcases List.mem_append.mp hc with hc | hc
      · exact hrest c hc
      · rw [List.mem_singleton.mp hc]
        exact hdigit (n % 10) (Nat.mod_lt n (by decide))

theorem digitsValue_decimal (n : ℕ) : digitsValue (decimal n) = n := by
  induction n using Nat.strong_induction_on with
  | _ n ih =>
    by_cases h : n < 10
    · rw [decimal_of_lt h, ← List.nil_append [_], digitsValue_concat, digitChar_toNat h]
      change 10 * 0 + (48 + n - 48) = n
      omega
    · rw [decimal_of_le (Nat.not_lt.mp h), digitsValue_concat, ih (n / 10) (by omega),
        digitChar_toNat (Nat.mod_lt n (by decide))]
      omega

theorem atoi_decimal {n : ℕ} (h : n < 2 ^ 32) : atoi (decimal n) = n := by
  rw [atoi_digits (isDigits_decimal n) (by rw [digitsValue_decimal]; exact h), digitsValue_decimal]

theorem zero_not_mem_decimal (n : ℕ) : 0 ∉ decimal n := (isDigits_decimal n).not_mem (by decide)

theorem head_ne_zero {text : Bytes} (hne : text ≠ []) (hzero : 0 ∉ text) : text.head?.getD 0 ≠ 0 := by
  rw [List.head?_eq_some_head hne, Option.getD_some]
  intro h
  exact hzero (h ▸ List.head_mem hne)

example : strrchr (bytes "10.0.0.1:6379") colon = some (bytes "10.0.0.1", bytes "6379") := by decide

example : decimal (atoi (bytes " 6379x")) = bytes "6379" := by decide

end VmodRedis.CStrings
