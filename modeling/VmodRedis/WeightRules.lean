import VmodRedis.Database
import VmodRedis.Lib.Scanning
import Mathlib.Data.List.DropRight

namespace VmodRedis.WeightRules

open CStrings Database Scanning

structure Rule where
  weight : Weight
  regexp : Bytes
  deriving DecidableEq

def isblank (c : UInt8) : Bool := c = 32 ∨ c = 9

def inLine (c : UInt8) : Bool := c ≠ 0 ∧ c ≠ 10

def isTrailing (c : UInt8) : Bool := isblank c ∨ c = 13

def isGap (c : UInt8) : Bool := isblank c ∨ c = 10

def toWeight (weight : ℤ) : Option Weight :=
  if h : weight < 0 ∨ nredisServerWeights ≤ weight then none else some ⟨weight.toNat, by omega⟩

section

variable (compiles : Bytes → Bool)

/-- The body of the loop of `unsafe_set_weight_rules` up to the storage of the rule: the rule and where its
line ends, or the value of `error`. -/
def parseRule (fuel : ℕ) (s : Bytes) (p : ℕ) : Except Stuck (Except ℕ (Rule × ℕ)) := do
  -- A `long` that is stored in an `int`.
  let weight := Int.bmod (strtol (s.drop p)) (2 ^ 32)
  let q := p + strtolLength (s.drop p)
  if p = q then return .error 10
  match toWeight weight with
  | none => return .error 10
  | some weight =>
    let p ← skip 0 isblank s fuel q
    let q ← skip 0 inLine s fuel p
    let r ← retreat 0 isTrailing s p q
    if p = r then return .error 20
    let regexp := (s.drop p).take (r - p)
    if ¬ compiles regexp then return .error 30
    return .ok (⟨weight, regexp⟩, q)

def parseRules (s : Bytes) : ℕ → ℕ → List Rule → Except Stuck (ℕ × List Rule)
  | 0, _, _ => .error .outOfFuel
  | fuel + 1, p, rules => do
    if (← elementAt 0 s p) = 0 then return (0, rules)
    match ← parseRule compiles (fuel + 1) s p with
    | .error error => return (error, rules)
    | .ok (rule, q) =>
      let p ← skip 0 isGap s (fuel + 1) q
      parseRules s fuel p (rules ++ [rule])

def unsafeSetWeightRules (fuel : ℕ) (rules : List Rule) (text : Bytes) : Except Stuck (ℕ × List Rule) := do
  let (error, rules) ← parseRules compiles (cstr text) fuel 0 rules
  return (error, if error = 0 then rules else [])

end

example : unsafeSetWeightRules (fun _ => true) 40 [] (bytes "\n  1 ^a$ \r\n\t0 .*\n ") =
    .ok (0, [⟨1, bytes "^a$"⟩, ⟨0, bytes ".*"⟩]) := by decide +kernel

def IsBlank (s : Bytes) : Prop := ∀ c ∈ s, isspace c = true

theorem isBlank_nil : IsBlank [] := fun _ h => absurd h List.not_mem_nil

theorem isBlank_append {s t : Bytes} : IsBlank (s ++ t) ↔ IsBlank s ∧ IsBlank t := List.forall_mem_append

structure Written where
  number : ℤ
  regexp : Bytes
  deriving DecidableEq

def unsigned (s : Bytes) : Bytes := if s.head? = some 45 ∨ s.head? = some 43 then s.tail else s

def signed (s : Bytes) (n : ℕ) : ℤ := if s.head? = some 45 then -n else n

def trim (s : Bytes) : Bytes := (s.dropWhile isblank).rdropWhile isTrailing

def written (line : Bytes) : Option Written :=
  let text := line.dropWhile isspace
  let digits := (unsigned text).takeWhile isdigit
  if digits = [] then none
  else some ⟨signed text (digitsValue digits), trim ((unsigned text).dropWhile isdigit)⟩

/-- What is left of a number in a `long` and then in an `int`. -/
def narrowed (n : ℤ) : ℤ := Int.bmod (max (-2 ^ 63) (min n (2 ^ 63 - 1))) (2 ^ 32)

section

variable (compiles : Bytes → Bool)

def lineResult : Option Written → Except ℕ Rule
  | none => .error 10
  | some ⟨n, regexp⟩ =>
    match toWeight (narrowed n) with
    | none => .error 10
    | some weight =>
      if regexp = [] then .error 20 else if ¬ compiles regexp then .error 30 else .ok ⟨weight, regexp⟩

def linesResult (error : ℕ) : List (Option Written) → ℕ × List Rule
  | [] => (error, [])
  | item :: items =>
    match lineResult compiles item with
    | .error e => (e, [])
    | .ok rule => ((linesResult error items).1, rule :: (linesResult error items).2)

end

structure Pieces (text lead line gap rest : Bytes) : Prop where
  eq : text = lead ++ (line ++ (gap ++ rest))
  isBlank : IsBlank lead
  inside : ∀ x ∈ line, inLine x = true
  head : isspace (line.head?.getD 0) = false
  ne : line ≠ []
  stop : inLine ((gap ++ rest).head?.getD 0) = false
  isGap : ∀ x ∈ gap, isGap x = true
  next : WeightRules.isGap (rest.head?.getD 0) = false

theorem exists_pieces {text : Bytes} (hzero : 0 ∉ text) (h : ¬ IsBlank text) :
    ∃ lead line gap rest, Pieces text lead line gap rest := by
  obtain ⟨lead, text, rfl, hlead, hhead⟩ := exists_skip (z := 0) (f := isspace) rfl text
  obtain ⟨line, text, rfl, hline, hstop⟩ := exists_skip (z := 0) (f := inLine) rfl text
  obtain ⟨gap, rest, rfl, hgap, hnext⟩ := exists_skip (z := 0) (f := isGap) rfl text
  have hne : line ≠ [] := by
    rintro rfl
    rw [List.nil_append] at hhead hzero h
    cases ht : gap ++ rest with
    | nil => exact h (by rw [ht, List.append_nil]; exact hlead)
    | cons c t =>
      rw [ht, List.head?_cons, Option.getD_some] at hhead hstop
      have hc : c ≠ 0 := by
        rintro rfl
        exact hzero (by simp [ht])
      obtain rfl : c = 10 := by simpa [inLine, hc] using hstop
      cases hhead
  refine ⟨lead, line, gap, rest, rfl, hlead, hline, ?_, hne, hstop, hgap, hnext⟩
  rwa [List.head?_append_of_ne_nil line hne] at hhead

theorem unsigned_append {line : Bytes} (hne : line ≠ []) (post : Bytes) :
    unsigned (line ++ post) = unsigned line ++ post := by
  cases line with
  | nil => exact absurd rfl hne
  | cons c line =>
    unfold unsigned
    rw [List.cons_append, List.head?_cons, List.head?_cons, List.tail_cons, List.tail_cons]
    by_cases h : some c = some 45 ∨ some c = some 43
    · rw [if_pos h, if_pos h]
    · rw [if_neg h, if_neg h]
      rfl

theorem dropWhile_isspace {lead line : Bytes} (hlead : IsBlank lead) (hhead : isspace (line.head?.getD 0) = false) :
    (lead ++ line).dropWhile isspace = line := by
  rw [List.dropWhile_append_of_pos hlead]
  cases line with
  | nil => rfl
  | cons c line =>
    rw [List.head?_cons, Option.getD_some] at hhead
    exact List.dropWhile_cons_of_neg (by rw [hhead]; exact Bool.false_ne_true)

theorem strtol_line {lead line post : Bytes} (hlead : IsBlank lead) (hhead : isspace (line.head?.getD 0) = false)
    (hne : line ≠ []) (hpost : isdigit (post.head?.getD 0) = false) (hzero : 0 ∉ lead ++ (line ++ post)) :
    strtol (lead ++ (line ++ post)) =
        max (-2 ^ 63) (min (signed line (digitsValue ((unsigned line).takeWhile isdigit))) (2 ^ 63 - 1)) ∧
      strtolLength (lead ++ (line ++ post)) =
        if (unsigned line).takeWhile isdigit = [] then 0
        else (lead ++ (line ++ post)).length - ((unsigned line).dropWhile isdigit ++ post).length := by
  have hdrop : (lead ++ (line ++ post)).dropWhile isspace = line ++ post := by
    apply dropWhile_isspace hlead
    rwa [List.head?_append_of_ne_nil line hne]
  obtain ⟨htake, hrest⟩ := takeWhile_append_stop (unsigned line) hpost
  have hsign : (line ++ post).head? = line.head? := List.head?_append_of_ne_nil line hne
  have hunsigned := unsigned_append hne post
  unfold unsigned at hunsigned htake hrest ⊢
  unfold strtol strtolLength signed
  dsimp only
  rw [cstr_of_not_mem hzero, hdrop, hunsigned, htake, hrest, hsign]
  refine ⟨?_, rfl⟩
  split_ifs <;> omega

theorem exists_sign (line : Bytes) : ∃ sign, line = sign ++ unsigned line := by
  unfold unsigned
  by_cases h : line.head? = some 45 ∨ line.head? = some 43
  · rw [if_pos h]
    cases line with
    | nil => simp at h
    | cons c line => exact ⟨[c], rfl⟩
  · rw [if_neg h]
    exact ⟨[], rfl⟩

theorem end_of_inLine {c : UInt8} (h : inLine c = false) : c = 0 ∨ c = 10 := by
  by_contra hc
  rw [not_or] at hc
  simp [inLine, hc] at h

theorem written_of_head {line : Bytes} (hhead : isspace (line.head?.getD 0) = false) : written line =
    if (unsigned line).takeWhile isdigit = [] then none
    else some ⟨signed line (digitsValue ((unsigned line).takeWhile isdigit)), trim ((unsigned line).dropWhile isdigit)⟩ := by
  have hdrop : line.dropWhile isspace = line := dropWhile_isspace isBlank_nil hhead
  unfold written
  rw [hdrop]

theorem expression_loops (pre : Bytes) {e post : Bytes} {fuel : ℕ} (he : ∀ x ∈ e, inLine x = true)
    (hpost : inLine (post.head?.getD 0) = false) (hfuel : e.length < fuel) :
    ∃ p q, skip 0 isblank (pre ++ (e ++ post)) fuel pre.length = .ok p ∧
      skip 0 inLine (pre ++ (e ++ post)) fuel p = .ok q ∧ q = (pre ++ e).length ∧
      retreat 0 isTrailing (pre ++ (e ++ post)) p q = .ok (p + (trim e).length) ∧
      ((pre ++ (e ++ post)).drop p).take (trim e).length = trim e := by
  obtain ⟨bl, hbl⟩ : ∃ bl, e.takeWhile isblank = bl := ⟨_, rfl⟩
  obtain ⟨mid, hmid⟩ : ∃ mid, e.dropWhile isblank = mid := ⟨_, rfl⟩
  obtain ⟨regexp, hregexp⟩ : ∃ regexp, mid.rdropWhile isTrailing = regexp := ⟨_, rfl⟩
  obtain ⟨after, hafter⟩ : ∃ after, mid.rtakeWhile isTrailing = after := ⟨_, rfl⟩
  have heq : e = bl ++ mid := by rw [← hbl, ← hmid, List.takeWhile_append_dropWhile]
  have hsplit : mid = regexp ++ after := by rw [← hregexp, ← hafter, List.rdropWhile_append_rtakeWhile]
  have htrim : trim e = regexp := by rw [trim, hmid, hregexp]
  have hpost' : isblank (post.head?.getD 0) = false := by
    rcases end_of_inLine hpost with h | h <;> rw [h] <;> rfl
  have hstop : isblank ((mid ++ post).head?.getD 0) = false := by
    have hnot := List.head?_dropWhile_not isblank e
    rw [hmid] at hnot
    cases hm : mid with
    | nil => exact hpost'
    | cons c mid =>
      rw [hm] at hnot
      exact hnot
  have hall : ∀ x ∈ bl, isblank x = true := by
    rw [← hbl]
    exact fun x hx => List.mem_takeWhile_imp hx
  have hinside : ∀ x ∈ mid, inLine x = true := fun x hx => he x (heq ▸ List.mem_append_right bl hx)
  have hlength : e.length = bl.length + mid.length := by rw [heq, List.length_append]
  have hfirst := skip_append pre hall hstop (show bl.length < fuel by omega)
  have hsecond := skip_append (pre ++ bl) hinside hpost (show mid.length < fuel by omega)
  have htrailing : ∀ x ∈ after, isTrailing x = true := by
    rw [← hafter]
    exact fun x hx => List.mem_rtakeWhile_imp hx
  have hlast : ∀ c ∈ regexp.getLast?, isTrailing c = false := by
    intro c hc
    subst hregexp
    obtain ⟨hne, rfl⟩ := List.mem_getLast?_eq_getLast hc
    rw [← Bool.not_eq_true]
    exact List.rdropWhile_last_not isTrailing mid hne
  have hthird := retreat_append (z := 0) (pre ++ bl) post htrailing hlast
  have htext : pre ++ (e ++ post) = pre ++ bl ++ (regexp ++ (after ++ post)) := by
    rw [heq, hsplit]
    simp only [List.append_assoc]
  rw [htrim]
  refine ⟨(pre ++ bl).length, (pre ++ e).length, ?_, ?_, rfl, ?_, ?_⟩
  · rw [← hfirst, heq, List.append_assoc]
  · rw [heq, ← List.append_assoc pre bl mid, ← hsecond]
    simp only [List.append_assoc]
  · have hend : pre ++ e = pre ++ bl ++ (regexp ++ after) := by
      rw [heq, hsplit, List.append_assoc]
    rw [htext, ← List.length_append, ← hthird, hend]
  · rw [htext, List.drop_left, List.take_left]

section

variable {compiles : Bytes → Bool} {pre text lead line gap rest : Bytes} {fuel : ℕ} {rules : List Rule}

theorem Pieces.length_eq (h : Pieces text lead line gap rest) :
    text.length = lead.length + line.length + gap.length + rest.length := by
  rw [h.eq]
  simp only [List.length_append]
  omega

theorem parseRule_pieces (compiles : Bytes → Bool) (pre : Bytes) (h : Pieces text lead line gap rest) (hzero : 0 ∉ text)
    (hfuel : text.length ≤ fuel) : parseRule compiles (fuel + 1) (pre ++ text) pre.length =
      .ok ((lineResult compiles (written line)).map fun rule => (rule, (pre ++ lead ++ line).length)) := by
  have hlength := h.length_eq
  obtain ⟨post, hpost⟩ : ∃ post, gap ++ rest = post := ⟨_, rfl⟩
  have htext : text = lead ++ (line ++ post) := by rw [h.eq, hpost]
  have hstop : inLine (post.head?.getD 0) = false := hpost ▸ h.stop
  have hdigit : isdigit (post.head?.getD 0) = false := by
    rcases end_of_inLine hstop with he | he <;> rw [he] <;> rfl
  obtain ⟨hvalue, hread⟩ := strtol_line h.isBlank h.head h.ne hdigit (htext ▸ hzero)
  rw [← htext] at hvalue hread
  obtain ⟨digits, hdigits⟩ : ∃ digits, (unsigned line).takeWhile isdigit = digits := ⟨_, rfl⟩
  obtain ⟨e, he⟩ : ∃ e, (unsigned line).dropWhile isdigit = e := ⟨_, rfl⟩
  rw [hdigits] at hvalue hread
  rw [he] at hread
  unfold parseRule
  dsimp only
  rw [written_of_head h.head, hdigits, he, List.drop_left, hvalue, hread]
  by_cases hnone : digits = []
  · rw [if_pos hnone, if_pos hnone, if_pos (Nat.add_zero _).symm]
    rfl
  rw [if_neg hnone, if_neg hnone]
  obtain ⟨sign, hsign⟩ := exists_sign line
  have hline : line = sign ++ digits ++ e := by
    rw [List.append_assoc, ← hdigits, ← he, List.takeWhile_append_dropWhile]
    exact hsign
  have hpos : 0 < digits.length := List.length_pos_iff.mpr hnone
  have hlineLength : line.length = sign.length + digits.length + e.length := by
    rw [hline]
    simp only [List.length_append]
  have hend : pre.length + (text.length - (e ++ post).length) = (pre ++ (lead ++ (sign ++ digits))).length := by
    rw [htext]
    simp only [List.length_append, hlineLength]
    omega
  have hmoved : pre.length ≠ (pre ++ (lead ++ (sign ++ digits))).length := by
    simp only [List.length_append]
    omega
  rw [hend, if_neg hmoved]
  unfold lineResult narrowed
  dsimp only
  cases toWeight (Int.bmod (max (-2 ^ 63) (min (signed line (digitsValue digits)) (2 ^ 63 - 1))) (2 ^ 32)) with
  | none => rfl
  | some weight =>
    have hs : pre ++ text = pre ++ (lead ++ (sign ++ digits)) ++ (e ++ post) := by
      rw [htext, hline]
      simp only [List.append_assoc]
    obtain ⟨p, q, hp, hq, hqlength, hr, hregexp⟩ := expression_loops (pre ++ (lead ++ (sign ++ digits)))
      (fun x hx => h.inside x (by rw [hline]; exact List.mem_append_right _ hx)) hstop
      (show e.length < fuel + 1 by omega)
    dsimp only
    rw [hs, hp, ok_bind, hq, ok_bind, hr, ok_bind, Nat.add_sub_cancel_left, hregexp]
    by_cases hempty : trim e = []
    · rw [if_pos (by rw [hempty]; rfl), if_pos hempty]
      rfl
    have hnonempty := List.length_pos_iff.mpr hempty
    rw [if_neg (by omega), if_neg hempty]
    have hlast : (pre ++ (lead ++ (sign ++ digits)) ++ e).length = (pre ++ lead ++ line).length := by
      rw [hline]
      simp only [List.length_append]
      omega
    by_cases hcompiles : compiles (trim e) = true
    · rw [if_neg (not_not.mpr hcompiles), if_neg (not_not.mpr hcompiles), hqlength, hlast]
      rfl
    · rw [if_pos hcompiles, if_pos hcompiles]
      rfl

theorem parseRule_blank (pre : Bytes) (h : IsBlank text) (hzero : 0 ∉ text) :
    parseRule compiles fuel (pre ++ text) pre.length = .ok (.error 10) := by
  have hread : strtolLength text = 0 := by
    have hdrop : (cstr text).dropWhile isspace = [] := by
      rw [cstr_of_not_mem hzero]
      exact List.dropWhile_eq_nil_iff.mpr h
    unfold strtolLength
    rw [hdrop]
    rfl
  unfold parseRule
  rw [List.drop_left, hread]
  exact if_pos (Nat.add_zero _).symm

theorem parseRules_error {error : ℕ} (hne : text ≠ []) (hzero : 0 ∉ text)
    (h : parseRule compiles (fuel + 1) (pre ++ text) pre.length = .ok (.error error)) :
    parseRules compiles (pre ++ text) (fuel + 1) pre.length rules = .ok (error, rules) := by
  rw [parseRules, elementAt_append, ok_bind, if_neg (head_ne_zero hne hzero), h, ok_bind]
  rfl

theorem parseRules_nil : parseRules compiles pre (fuel + 1) pre.length rules = .ok (0, rules) := by
  have hread := elementAt_append (0 : UInt8) pre []
  rw [List.append_nil] at hread
  rw [parseRules, hread, ok_bind]
  rfl

theorem Pieces.text_ne_nil (h : Pieces text lead line gap rest) : text ≠ [] := by
  rw [h.eq]
  simp [h.ne]

theorem parseRules_ok {rule : Rule} (h : Pieces text lead line gap rest) (hzero : 0 ∉ text)
    (hfuel : text.length ≤ fuel) (hline : lineResult compiles (written line) = .ok rule) :
    parseRules compiles (pre ++ text) (fuel + 1) pre.length rules =
      parseRules compiles (pre ++ text) fuel (pre ++ lead ++ line ++ gap).length (rules ++ [rule]) := by
  have hlength := h.length_eq
  have hparse := parseRule_pieces compiles pre h hzero hfuel
  have hskip : skip 0 isGap (pre ++ text) (fuel + 1) (pre ++ lead ++ line).length =
      .ok (pre ++ lead ++ line ++ gap).length := by
    have hgap := skip_append (pre ++ lead ++ line) h.isGap h.next (by omega : gap.length < fuel + 1)
    rw [h.eq]
    simpa only [List.append_assoc] using hgap
  rw [hline] at hparse
  rw [parseRules, elementAt_append, ok_bind, if_neg (head_ne_zero h.text_ne_nil hzero), hparse, ok_bind]
  change (skip 0 isGap (pre ++ text) (fuel + 1) (pre ++ lead ++ line).length >>= _) = _
  rw [hskip, ok_bind]

end

inductive Layout : Bytes → List Bytes → Bytes → Prop
  | done {left : Bytes} (h : IsBlank left) : Layout left [] left
  | rule {text lead line gap rest left : Bytes} {lines : List Bytes} (h : Pieces text lead line gap rest)
      (hrest : Layout rest lines left) : Layout text (line :: lines) left

theorem exists_layout (text : Bytes) (hzero : 0 ∉ text) : ∃ lines left, Layout text lines left := by
  induction hn : text.length using Nat.strong_induction_on generalizing text with
  | _ n ih =>
    by_cases hblank : IsBlank text
    · exact ⟨[], text, .done hblank⟩
    · obtain ⟨lead, line, gap, rest, h⟩ := exists_pieces hzero hblank
      have hlength := h.length_eq
      have hpos := List.length_pos_iff.mpr h.ne
      obtain ⟨lines, left, hrest⟩ := ih rest.length (by omega) rest (fun hm => hzero (by simp [h.eq, hm])) rfl
      exact ⟨line :: lines, left, .rule h hrest⟩

section

variable {compiles : Bytes → Bool} {text left : Bytes} {lines : List Bytes}

theorem parseRules_layout (compiles : Bytes → Bool) (h : Layout text lines left) (pre : Bytes) (rules : List Rule) (hzero : 0 ∉ text) {fuel : ℕ}
    (hfuel : text.length < fuel) : parseRules compiles (pre ++ text) fuel pre.length rules =
      .ok ((linesResult compiles (if left = [] then 0 else 10) (lines.map written)).1,
        rules ++ (linesResult compiles (if left = [] then 0 else 10) (lines.map written)).2) := by
  obtain ⟨m, rfl⟩ := Nat.exists_eq_add_one_of_ne_zero (by omega : fuel ≠ 0)
  induction h generalizing pre rules m with
  | @done left hblank =>
    rw [List.map_nil, linesResult, List.append_nil]
    by_cases hne : left = []
    · rw [if_pos hne, hne, List.append_nil, parseRules_nil]
    · rw [if_neg hne, parseRules_error hne hzero (parseRule_blank pre hblank hzero)]
  | @rule text lead line gap rest left lines h hrest ih =>
    have hlength := h.length_eq
    have hpos := List.length_pos_iff.mpr h.ne
    rw [List.map_cons, linesResult]
    cases hline : lineResult compiles (written line) with
    | error error =>
      have hparse := parseRule_pieces compiles pre h hzero (Nat.le_of_lt_succ hfuel)
      rw [hline] at hparse
      rw [parseRules_error h.text_ne_nil hzero hparse, List.append_nil]
    | ok rule =>
      obtain ⟨n, rfl⟩ := Nat.exists_eq_add_one_of_ne_zero (by omega : m ≠ 0)
      have heq : pre ++ text = pre ++ lead ++ line ++ gap ++ rest := by
        rw [h.eq]
        simp only [List.append_assoc]
      rw [parseRules_ok h hzero (by omega) hline, heq,
        ih (pre ++ lead ++ line ++ gap) (rules ++ [rule]) (fun hm => hzero (by simp [h.eq, hm])) n (by omega)]
      simp only [List.append_assoc, List.singleton_append]

def outcome (compiles : Bytes → Bool) (error : ℕ) (items : List (Option Written)) : ℕ × List Rule :=
  let r := linesResult compiles error items
  (r.1, if r.1 = 0 then r.2 else [])

theorem unsafeSetWeightRules_layout {rules : Bytes} (h : Layout (cstr rules) lines left) {fuel : ℕ}
    (hfuel : (cstr rules).length < fuel) : unsafeSetWeightRules compiles fuel [] rules =
      .ok (outcome compiles (if left = [] then 0 else 10) (lines.map written)) := by
  have hrun := parseRules_layout compiles h [] [] (zero_not_mem_cstr rules) hfuel
  rw [List.nil_append, List.nil_append] at hrun
  unfold unsafeSetWeightRules
  change (parseRules compiles (cstr rules) fuel ([] : Bytes).length [] >>= _) = _
  rw [hrun]
  rfl

end

end VmodRedis.WeightRules
