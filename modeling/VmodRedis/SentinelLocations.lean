import VmodRedis.CStrings
import VmodRedis.Lib.Scanning

namespace VmodRedis.SentinelLocations

open CStrings Scanning

structure Location where
  host : Bytes
  port : ℕ
  deriving DecidableEq, Repr

def comma : UInt8 := 44

def notSeparator (c : UInt8) : Bool := c ≠ 0 ∧ c ≠ comma

def isSeparator (c : UInt8) : Bool := isspace c ∨ c = comma

/-- The body of the loop of `unsafe_set_locations` up to `new_sentinel`: the parsed Sentinel and where its
item ends, or the value of `error`. -/
def parseItem (fuel : ℕ) (s : Bytes) (p : ℕ) : Except Stuck (Except ℕ (Location × ℕ)) := do
  let p ← skip 0 isspace s fuel p
  let q ← skip 0 notSeparator s fuel p
  if p = q then return .error 10
  let r ← back 0 isspace s p (q - 1)
  let r ← back 0 isdigit s p r
  if (← elementAt 0 s r) ≠ colon then return .error 20
  let r := r + 1
  if ¬ isdigit (← elementAt 0 s r) then return .error 30
  -- A `long` that is stored in an `int`.
  let port := Int.bmod (strtol (s.drop r)) (2 ^ 32)
  let e := r + strtolLength (s.drop r)
  let c ← elementAt 0 s e
  if r = e ∨ (c ≠ comma ∧ ¬ isspace c ∧ c ≠ 0) ∨ port < 0 ∨ 65536 < port then return .error 40
  if r - p ≤ 1 then return .error 50
  -- The length of the host is an `unsigned`.
  return .ok (⟨(s.drop p).take ((r - p - 1) % 2 ^ 32), port.toNat⟩, q)

def parseItems (s : Bytes) : ℕ → ℕ → List Location → Except Stuck (ℕ × List Location)
  | 0, _, _ => .error .outOfFuel
  | fuel + 1, p, sentinels => do
    if (← elementAt 0 s p) = 0 then return (0, sentinels)
    match ← parseItem (fuel + 1) s p with
    | .error error => return (error, sentinels)
    | .ok (location, q) =>
      let p ← skip 0 isSeparator s (fuel + 1) q
      parseItems s fuel p (sentinels ++ [location])

def unsafeSetLocations (fuel : ℕ) (sentinels : List Location) (locations : Bytes) :
    Except Stuck (ℕ × List Location) := do
  let (error, sentinels) ← parseItems (cstr locations) fuel 0 sentinels
  return (error, if error = 0 then sentinels else [])

example : unsafeSetLocations 40 [] (bytes " 10.0.0.1:26379, ,[::1]:26380 ") =
    .ok (0, [⟨bytes "10.0.0.1", 26379⟩, ⟨bytes "[::1]", 26380⟩]) := by decide +kernel

def IsBlank (s : Bytes) : Prop := ∀ c ∈ s, isspace c = true

def IsGap (s : Bytes) : Prop := ∀ c ∈ s, isSeparator c = true

def Accepted (port : ℕ) : Prop := port < 2 ^ 63 ∧ port % 2 ^ 32 ≤ 65536

instance (port : ℕ) : Decidable (Accepted port) := inferInstanceAs (Decidable (_ ∧ _))

def stored (host : Bytes) (port : ℕ) : Location := ⟨host.take (host.length % 2 ^ 32), port % 2 ^ 32⟩

def itemResult (host : Bytes) (c : UInt8) (digits : Bytes) : Except ℕ Location :=
  if c ≠ colon then .error 20
  else if digits = [] then .error 30
  else if ¬ Accepted (digitsValue digits) then .error 40
  else if host = [] then .error 50
  else .ok (stored host (digitsValue digits))

theorem itemResult_cases (host : Bytes) (c : UInt8) (digits : Bytes) :
    (∃ error, error ≠ 0 ∧ itemResult host c digits = .error error) ∨
      (c = colon ∧ digits ≠ [] ∧ Accepted (digitsValue digits) ∧ host ≠ []) ∧
        itemResult host c digits = .ok (stored host (digitsValue digits)) := by
  unfold itemResult
  by_cases hc : c = colon
  case neg => exact Or.inl ⟨20, by decide, if_pos hc⟩
  rw [if_neg (not_not.mpr hc)]
  by_cases hdigits : digits = []
  case pos => exact Or.inl ⟨30, by decide, if_pos hdigits⟩
  rw [if_neg hdigits]
  by_cases haccepted : Accepted (digitsValue digits)
  case neg => exact Or.inl ⟨40, by decide, if_pos haccepted⟩
  rw [if_neg (not_not.mpr haccepted)]
  by_cases hhost : host = []
  case pos => exact Or.inl ⟨50, by decide, if_pos hhost⟩
  exact Or.inr ⟨⟨hc, hdigits, haccepted, hhost⟩, if_neg hhost⟩

theorem bmod_of_accepted {n : ℕ} (h : Accepted n) : Int.bmod (min (n : ℤ) (2 ^ 63 - 1)) (2 ^ 32) = (n % 2 ^ 32 : ℕ) := by
  obtain ⟨hlt, hle⟩ := h
  rw [Int.bmod_def]
  split <;> omega

theorem bmod_of_not_accepted {n : ℕ} (h : ¬ Accepted n) :
    Int.bmod (min (n : ℤ) (2 ^ 63 - 1)) (2 ^ 32) < 0 ∨ 65536 < Int.bmod (min (n : ℤ) (2 ^ 63 - 1)) (2 ^ 32) := by
  rw [Accepted, not_and_or, Nat.not_lt, Nat.not_le] at h
  rw [Int.bmod_def]
  split <;> omega

theorem end_of_notSeparator {c : UInt8} (h : notSeparator c = false) : c = 0 ∨ c = comma := by
  by_contra hc
  rw [not_or] at hc
  simp [notSeparator, hc] at h

theorem head_after_digits {sp : Bytes} (tail : Bytes) (hsp : IsBlank sp) (htail : notSeparator (tail.head?.getD 0) = false) :
    isdigit ((sp ++ tail).head?.getD 0) = false ∧
      ¬ ((sp ++ tail).head?.getD 0 ≠ comma ∧ ¬ isspace ((sp ++ tail).head?.getD 0) = true ∧
        (sp ++ tail).head?.getD 0 ≠ 0) := by
  cases sp with
  | nil =>
    rw [List.nil_append]
    rcases end_of_notSeparator htail with h | h <;> rw [h] <;> decide
  | cons c sp =>
    have hc : isspace c = true := hsp c List.mem_cons_self
    rw [List.cons_append, List.head?_cons, Option.getD_some]
    refine ⟨?_, fun h => h.2.1 hc⟩
    by_contra hdigit
    rw [Bool.not_eq_false] at hdigit
    rw [not_isspace_of_isdigit hdigit] at hc
    cases hc

section

variable {pre lead tail : Bytes} {fuel : ℕ}

theorem parseItem_nil (pre : Bytes) (hlead : IsBlank lead) (htail : notSeparator (tail.head?.getD 0) = false)
    (hfuel : lead.length < fuel) : parseItem fuel (pre ++ (lead ++ tail)) pre.length = .ok (.error 10) := by
  have hend : isspace (tail.head?.getD 0) = false := by
    rcases end_of_notSeparator htail with h | h <;> rw [h] <;> rfl
  have hp : skip 0 isspace (pre ++ (lead ++ tail)) fuel pre.length = .ok (pre ++ lead).length :=
    skip_append pre hlead hend hfuel
  have hq : skip 0 notSeparator (pre ++ (lead ++ tail)) fuel (pre ++ lead).length = .ok (pre ++ lead).length := by
    have h := skip_append (pre ++ lead) (u := []) (by simp) htail (Nat.zero_lt_of_lt hfuel)
    simpa only [List.append_assoc, List.nil_append, List.append_nil] using h
  unfold parseItem
  rw [hp, ok_bind, hq, ok_bind, if_pos rfl]
  rfl

structure Splits (v host : Bytes) (c : UInt8) (digits sp : Bytes) : Prop where
  eq : v = host ++ c :: (digits ++ sp)
  blank : IsBlank sp
  allDigits : ∀ x ∈ digits, isdigit x = true
  stop : host = [] ∨ isdigit c = false
  last : digits = [] → isspace c = false

theorem exists_splits {v : Bytes} (hv : v ≠ []) (hhead : isspace (v.head?.getD 0) = false) :
    ∃ host c digits sp, Splits v host c digits sp := by
  obtain ⟨u, d, sp, rfl, hsp, hd⟩ := exists_back isspace hv
  have hdspace : isspace d = false := by
    rcases hd with rfl | hd
    · exact hhead
    · exact hd
  obtain ⟨host, c, digits, hu, hdigits, hc⟩ := exists_back isdigit (List.append_ne_nil_of_right_ne_nil u (List.cons_ne_nil d []))
  refine ⟨host, c, digits, sp, ?_, hsp, hdigits, hc, ?_⟩
  · rw [← List.singleton_append, ← List.append_assoc, hu, List.append_assoc, List.cons_append]
  · rintro rfl
    rw [← List.singleton_inj.mp (List.append_inj' hu rfl).2]
    exact hdspace

theorem Splits.back_space {v host digits sp : Bytes} {c : UInt8} (h : Splits v host c digits sp) :
    back 0 isspace (pre ++ (v ++ tail)) pre.length ((pre ++ v).length - 1) = .ok (pre ++ (host ++ digits)).length := by
  obtain ⟨rfl, hsp, hdigits, -, hlast⟩ := h
  rcases List.eq_nil_or_concat' digits with rfl | ⟨front, d, rfl⟩
  · have hback := back_append (z := 0) pre tail (u := host) hsp (Or.inr (hlast rfl))
    rw [List.append_nil, List.nil_append, List.append_assoc, List.cons_append]
    exact (congrArg _ (by simp only [List.length_append, List.length_cons]; omega)).trans hback
  · have hd : isspace d = false := not_isspace_of_isdigit (hdigits d (by simp))
    have hback := back_append (z := 0) pre tail (u := host ++ c :: front) hsp (Or.inr hd)
    simp only [List.append_assoc, List.cons_append, List.nil_append, List.length_append, List.length_cons,
      List.length_nil] at hback ⊢
    exact (congrArg _ (by omega)).trans (hback.trans (congrArg _ (by omega)))

theorem Splits.back_digit {v host digits sp : Bytes} {c : UInt8} (h : Splits v host c digits sp) :
    back 0 isdigit (pre ++ (v ++ tail)) pre.length (pre ++ (host ++ digits)).length = .ok (pre ++ host).length := by
  have hback := back_append (z := 0) pre (sp ++ tail) h.allDigits h.stop
  rw [h.eq]
  simpa only [List.append_assoc, List.cons_append] using hback

theorem Splits.loops {v host digits sp : Bytes} {c : UInt8} (h : Splits v host c digits sp) (pre : Bytes) (hlead : IsBlank lead)
    (hv : ∀ x ∈ v, notSeparator x = true) (hhead : isspace (v.head?.getD 0) = false)
    (htail : notSeparator (tail.head?.getD 0) = false) (hfuel : lead.length + v.length < fuel) :
    skip 0 isspace (pre ++ (lead ++ (v ++ tail))) fuel pre.length = .ok (pre ++ lead).length ∧
      skip 0 notSeparator (pre ++ (lead ++ (v ++ tail))) fuel (pre ++ lead).length = .ok (pre ++ lead ++ v).length ∧
      back 0 isspace (pre ++ (lead ++ (v ++ tail))) (pre ++ lead).length ((pre ++ lead ++ v).length - 1) =
        .ok (pre ++ lead ++ (host ++ digits)).length ∧
      back 0 isdigit (pre ++ (lead ++ (v ++ tail))) (pre ++ lead).length (pre ++ lead ++ (host ++ digits)).length =
        .ok (pre ++ lead ++ host).length := by
  have hvhead : (v ++ tail).head?.getD 0 = v.head?.getD 0 := by
    have hne : v ≠ [] := by simp [h.eq]
    rw [List.head?_append_of_ne_nil v hne]
  refine ⟨skip_append pre hlead (by rw [hvhead]; exact hhead) (by omega), ?_⟩
  rw [← List.append_assoc pre lead]
  exact ⟨skip_append (pre ++ lead) hv htail (by omega), h.back_space, h.back_digit⟩

theorem Splits.reads {v host digits sp : Bytes} {c : UInt8} (h : Splits v host c digits sp)
    (pre tail : Bytes) : elementAt 0 (pre ++ (v ++ tail)) (pre ++ host).length = .ok c ∧
      elementAt 0 (pre ++ (v ++ tail)) ((pre ++ host).length + 1) = .ok ((digits ++ (sp ++ tail)).head?.getD 0) ∧
      (pre ++ (v ++ tail)).drop ((pre ++ host).length + 1) = digits ++ (sp ++ tail) ∧
      elementAt 0 (pre ++ (v ++ tail)) ((pre ++ host).length + 1 + digits.length) = .ok ((sp ++ tail).head?.getD 0) ∧
      ((pre ++ (v ++ tail)).drop pre.length).take (host.length % 2 ^ 32) = host.take (host.length % 2 ^ 32) := by
  have hc : pre ++ (v ++ tail) = pre ++ host ++ c :: (digits ++ (sp ++ tail)) := by
    rw [h.eq]
    simp only [List.append_assoc, List.cons_append]
  have hafter : pre ++ (v ++ tail) = pre ++ host ++ [c] ++ (digits ++ (sp ++ tail)) := by
    rw [hc, List.append_assoc _ [c], List.singleton_append]
  have hlength : (pre ++ host).length + 1 = (pre ++ host ++ [c]).length := by
    rw [List.length_append, List.length_append, List.length_append, List.length_singleton]
  refine ⟨?_, ?_, ?_, ?_, ?_⟩
  · rw [hc, elementAt_append]
    rfl
  · rw [hafter, hlength, elementAt_append]
  · rw [hafter, hlength, List.drop_left]
  · rw [hafter, hlength, ← List.length_append, ← List.append_assoc, elementAt_append]
  · have hle : host.length % 2 ^ 32 ≤ host.length := Nat.mod_le _ _
    rw [hc, List.append_assoc, List.drop_left, List.take_append_of_le_length hle]

theorem parseItem_eq (pre : Bytes) {v host digits sp : Bytes} {c : UInt8} (h : Splits v host c digits sp) (hlead : IsBlank lead)
    (hv : ∀ x ∈ v, notSeparator x = true) (hhead : isspace (v.head?.getD 0) = false)
    (htail : notSeparator (tail.head?.getD 0) = false) (hfuel : lead.length + v.length < fuel) :
    parseItem fuel (pre ++ (lead ++ (v ++ tail))) pre.length =
      .ok ((itemResult host c digits).map fun location => (location, (pre ++ lead ++ v).length)) := by
  obtain ⟨hp, hq, hr, hr'⟩ := h.loops pre hlead hv hhead htail hfuel
  obtain ⟨hc, hfirst, hdrop, hend, hhost⟩ := h.reads (pre ++ lead) tail
  rw [← List.append_assoc pre lead] at hp hq hr hr' ⊢
  obtain ⟨hnotdigit, hstop⟩ := head_after_digits tail h.blank htail
  have hwidth : (pre ++ lead ++ host).length + 1 - (pre ++ lead).length = host.length + 1 := by
    have hr'' : (pre ++ lead ++ host).length = (pre ++ lead).length + host.length := List.length_append
    omega
  have hne : (pre ++ lead).length ≠ (pre ++ lead ++ v).length := by
    have hlength : v.length = host.length + (digits ++ sp).length + 1 := by
      rw [h.eq, List.length_append]
      rfl
    have hq' : (pre ++ lead ++ v).length = (pre ++ lead).length + v.length := List.length_append
    omega
  unfold parseItem itemResult
  rw [hp, ok_bind, hq, ok_bind, if_neg hne, hr, ok_bind, hr', ok_bind, hc, ok_bind]
  dsimp only
  by_cases hcolon : c = colon
  case neg =>
    rw [if_pos hcolon, if_pos hcolon]
    rfl
  rw [if_neg (not_not.mpr hcolon), if_neg (not_not.mpr hcolon), hfirst, ok_bind]
  by_cases hdigits : digits = []
  case pos =>
    rw [if_pos hdigits, hdigits, List.nil_append, if_pos (by rw [hnotdigit]; exact Bool.false_ne_true)]
    rfl
  have hnumber : IsDigits digits := ⟨hdigits, h.allDigits⟩
  obtain ⟨hvalue, hread⟩ := strtol_append hnumber hnotdigit
  have hdigit : isdigit ((digits ++ (sp ++ tail)).head?.getD 0) = true := by
    rw [List.head?_append_of_ne_nil digits hdigits, List.head?_eq_some_head hdigits]
    exact h.allDigits _ (List.head_mem hdigits)
  rw [if_neg (not_not.mpr hdigit), if_neg hdigits, hdrop, hvalue, hread, hend, ok_bind]
  by_cases haccepted : Accepted (digitsValue digits)
  case neg =>
    rw [if_pos haccepted, if_pos (Or.inr (Or.inr (bmod_of_not_accepted haccepted)))]
    rfl
  rw [bmod_of_accepted haccepted, if_neg (not_not.mpr haccepted), if_neg, hwidth, Nat.add_sub_cancel, hhost,
    Int.toNat_natCast]
  · by_cases hempty : host = []
    · rw [if_pos hempty, hempty]
      rfl
    · have hpos := List.length_pos_iff.mpr hempty
      rw [if_neg hempty, if_neg (by omega)]
      rfl
  · have hmoved := List.length_pos_iff.mpr hdigits
    have hle := haccepted.2
    rintro (he | he | he | he)
    · omega
    · exact hstop he
    · omega
    · omega

end

/-- A text as one round of the loop divides it: white space, an item, what separates it from the next, the rest. -/
structure Pieces (text lead v gap rest : Bytes) : Prop where
  eq : text = lead ++ (v ++ (gap ++ rest))
  isBlank : IsBlank lead
  inside : ∀ x ∈ v, notSeparator x = true
  head : isspace ((v ++ (gap ++ rest)).head?.getD 0) = false
  stop : notSeparator ((gap ++ rest).head?.getD 0) = false
  isGap : IsGap gap
  next : isSeparator (rest.head?.getD 0) = false

theorem exists_pieces (text : Bytes) : ∃ lead v gap rest, Pieces text lead v gap rest := by
  obtain ⟨lead, text, rfl, hlead, hhead⟩ := exists_skip (z := 0) (f := isspace) rfl text
  obtain ⟨v, text, rfl, hv, hstop⟩ := exists_skip (z := 0) (f := notSeparator) rfl text
  obtain ⟨gap, rest, rfl, hgap, hnext⟩ := exists_skip (z := 0) (f := isSeparator) rfl text
  exact ⟨lead, v, gap, rest, rfl, hlead, hv, hhead, hstop, hgap, hnext⟩

section

variable {pre text lead v gap rest : Bytes} {fuel : ℕ} {sentinels : List Location}

theorem Pieces.unique {lead' v' gap' rest' : Bytes} (h : Pieces text lead v gap rest)
    (h' : Pieces text lead' v' gap' rest') : v = v' ∧ rest = rest' := by
  have heq : lead ++ (v ++ (gap ++ rest)) = lead' ++ (v' ++ (gap' ++ rest')) := by rw [← h.eq, h'.eq]
  obtain ⟨-, hitem⟩ := skip_unique h.isBlank h.head h'.isBlank h'.head heq
  obtain ⟨hv, hgap⟩ := skip_unique h.inside h.stop h'.inside h'.stop hitem
  exact ⟨hv, (skip_unique h.isGap h.next h'.isGap h'.next hgap).2⟩

theorem Pieces.head_item (h : Pieces text lead v gap rest) (hv : v ≠ []) : isspace (v.head?.getD 0) = false := by
  rw [← h.head, List.head?_append_of_ne_nil v hv]

theorem Pieces.length_eq (h : Pieces text lead v gap rest) :
    text.length = lead.length + v.length + gap.length + rest.length := by
  rw [h.eq]
  simp only [List.length_append]
  omega

theorem Pieces.ne_nil {host digits sp : Bytes} {c : UInt8} (h : Pieces text lead v gap rest)
    (hs : Splits v host c digits sp) : text ≠ [] := by
  rw [h.eq, hs.eq]
  simp

theorem parseItem_pieces (pre : Bytes) {host digits sp : Bytes} {c : UInt8} (h : Pieces text lead v gap rest)
    (hs : Splits v host c digits sp) (hfuel : text.length ≤ fuel) :
    parseItem (fuel + 1) (pre ++ text) pre.length =
      .ok ((itemResult host c digits).map fun location => (location, (pre ++ lead ++ v).length)) := by
  have hlength := h.length_eq
  have hparse := parseItem_eq pre hs h.isBlank h.inside (h.head_item (by simp [hs.eq])) h.stop
    (show lead.length + v.length < fuel + 1 by omega)
  rwa [← h.eq] at hparse

theorem parseItems_ok {host digits sp : Bytes} {c : UInt8} {location : Location} (h : Pieces text lead v gap rest)
    (hs : Splits v host c digits sp) (hzero : 0 ∉ text) (hfuel : text.length ≤ fuel)
    (hitem : itemResult host c digits = .ok location) :
    parseItems (pre ++ text) (fuel + 1) pre.length sentinels =
      parseItems (pre ++ text) fuel (pre ++ lead ++ v ++ gap).length (sentinels ++ [location]) := by
  have hlength := h.length_eq
  have hparse := parseItem_pieces pre h hs hfuel
  have hskip : skip 0 isSeparator (pre ++ text) (fuel + 1) (pre ++ lead ++ v).length = .ok (pre ++ lead ++ v ++ gap).length := by
    have hgap := skip_append (pre ++ lead ++ v) h.isGap h.next (by omega : gap.length < fuel + 1)
    rw [h.eq]
    simpa only [List.append_assoc] using hgap
  rw [hitem] at hparse
  rw [parseItems, elementAt_append, ok_bind, if_neg (head_ne_zero (h.ne_nil hs) hzero), hparse, ok_bind]
  change (skip 0 isSeparator (pre ++ text) (fuel + 1) (pre ++ lead ++ v).length >>= _) = _
  rw [hskip, ok_bind]

theorem parseItems_error {host digits sp : Bytes} {c : UInt8} {error : ℕ} (h : Pieces text lead v gap rest)
    (hs : Splits v host c digits sp) (hzero : 0 ∉ text) (hfuel : text.length ≤ fuel)
    (hitem : itemResult host c digits = .error error) :
    parseItems (pre ++ text) (fuel + 1) pre.length sentinels = .ok (error, sentinels) := by
  have hparse := parseItem_pieces pre h hs hfuel
  rw [hitem] at hparse
  rw [parseItems, elementAt_append, ok_bind, if_neg (head_ne_zero (h.ne_nil hs) hzero), hparse, ok_bind]
  rfl

theorem parseItems_empty (h : Pieces text lead [] gap rest) (hne : text ≠ []) (hzero : 0 ∉ text)
    (hfuel : text.length ≤ fuel) :
    parseItems (pre ++ text) (fuel + 1) pre.length sentinels = .ok (10, sentinels) := by
  have hlength := h.length_eq
  have hparse := parseItem_nil pre h.isBlank h.stop (show lead.length < fuel + 1 by omega)
  have heq : lead ++ (gap ++ rest) = text := h.eq.symm
  rw [heq] at hparse
  rw [parseItems, elementAt_append, ok_bind, if_neg (head_ne_zero hne hzero), hparse, ok_bind]
  rfl

theorem parseItems_nil : parseItems pre (fuel + 1) pre.length sentinels = .ok (0, sentinels) := by
  have hread := elementAt_append (0 : UInt8) pre []
  rw [List.append_nil] at hread
  rw [parseItems, hread, ok_bind]
  rfl

end

end VmodRedis.SentinelLocations
