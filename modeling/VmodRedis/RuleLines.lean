import VmodRedis.WeightRules

namespace VmodRedis.WeightRules

open CStrings Database Scanning

def ruleLines (text : Bytes) : List Bytes := (text.splitOn 10).filter fun line => !line.all isspace

def items (text : Bytes) : List (Option Written) := (ruleLines text).map written

def stragglers (text : Bytes) : Bytes := (text.rtakeWhile isspace).dropWhile (· ≠ 10)

theorem items_cons {c : UInt8} (hc : isspace c = true) (text : Bytes) : items (c :: text) = items text := by
  unfold items ruleLines
  rw [List.splitOn_cons_eq_if_modifyHead]
  by_cases hline : c = 10
  · rw [if_pos (by simpa using hline), List.filter_cons_of_neg (by simp)]
  · rw [if_neg (by simpa using hline)]
    cases text.splitOn 10 with
    | nil => rfl
    | cons line lines =>
      rw [List.modifyHead_cons]
      by_cases hblank : line.all isspace = true
      · rw [List.filter_cons_of_neg (by simpa [hc] using hblank), List.filter_cons_of_neg (by simpa using hblank)]
      · have hwritten : written (c :: line) = written line := by
          unfold written
          rw [List.dropWhile_cons_of_pos hc]
        rw [List.filter_cons_of_pos (by simpa [hc] using hblank), List.filter_cons_of_pos (by simpa using hblank),
          List.map_cons, List.map_cons, hwritten]

theorem items_append {lead : Bytes} (hlead : IsBlank lead) (text : Bytes) : items (lead ++ text) = items text := by
  induction lead with
  | nil => rfl
  | cons c lead ih =>
    rw [List.cons_append, items_cons (hlead c List.mem_cons_self)]
    exact ih fun x hx => hlead x (List.mem_cons_of_mem c hx)

theorem items_of_isBlank {text : Bytes} (h : IsBlank text) : items text = [] := by
  have hitems := items_append h []
  rw [List.append_nil] at hitems
  exact hitems

theorem items_line {line post : Bytes} (hhead : isspace (line.head?.getD 0) = false) (hne : line ≠ [])
    (hline : 10 ∉ line) (hpost : post = [] ∨ post.head? = some 10) :
    items (line ++ post) = written line :: items post := by
  have hkept : (!line.all isspace) = true := by
    cases line with
    | nil => exact absurd rfl hne
    | cons c line =>
      rw [List.head?_cons, Option.getD_some] at hhead
      simp [hhead]
  have hfilter : ∀ lines, (line :: lines).filter (fun line => !line.all isspace) =
      line :: lines.filter fun line => !line.all isspace := fun lines => List.filter_cons_of_pos hkept
  have hfree : ∀ x ∈ line, (x == 10) = false := by
    intro x hx
    rw [beq_eq_false_iff_ne]
    rintro rfl
    exact hline hx
  rcases hpost with rfl | hpost
  · rw [items_of_isBlank isBlank_nil, List.append_nil]
    unfold items ruleLines
    rw [List.splitOn_eq_splitOnP, List.splitOnP_eq_singleton hfree, hfilter]
    rfl
  · obtain ⟨post, rfl⟩ : ∃ t, post = 10 :: t := by
      cases post with
      | nil => cases hpost
      | cons c t => exact ⟨t, by rw [Option.some.inj hpost]⟩
    rw [items_cons rfl]
    unfold items ruleLines
    rw [List.splitOn_eq_splitOnP, List.splitOnP_append_cons_of_forall_mem hfree 10 rfl, hfilter, List.map_cons,
      List.splitOn_eq_splitOnP]

theorem Pieces.post {text lead line gap rest : Bytes} (h : Pieces text lead line gap rest) (hzero : 0 ∉ text) :
    gap ++ rest = [] ∨ (gap ++ rest).head? = some 10 := by
  cases hpost : gap ++ rest with
  | nil => exact Or.inl rfl
  | cons c post =>
    have hstop := h.stop
    rw [hpost, List.head?_cons, Option.getD_some] at hstop
    rcases end_of_inLine hstop with rfl | rfl
    · exact absurd (by rw [h.eq, hpost]; simp) hzero
    · exact Or.inr rfl

theorem isspace_of_isGap {c : UInt8} (h : isGap c = true) : isspace c = true := by
  simp only [isGap, isblank, decide_eq_true_eq, Bool.decide_or, Bool.or_eq_true] at h
  rcases h with (rfl | rfl) | rfl <;> rfl

theorem Pieces.newline_not_mem {text lead line gap rest : Bytes} (h : Pieces text lead line gap rest) : 10 ∉ line :=
  fun hm => Bool.false_ne_true (h.inside 10 hm)

theorem layout_items {text left : Bytes} {lines : List Bytes} (h : Layout text lines left) (hzero : 0 ∉ text) :
    lines.map written = items text := by
  induction h with
  | done h => rw [items_of_isBlank h, List.map_nil]
  | @rule text lead line gap rest left lines h hrest ih =>
    have hgap : IsBlank gap := fun x hx => isspace_of_isGap (h.isGap x hx)
    rw [h.eq, items_append h.isBlank, items_line h.head h.ne h.newline_not_mem (h.post hzero), items_append hgap,
      List.map_cons, ih fun hm => hzero (by simp [h.eq, hm])]

theorem rtakeWhile_append_of_isBlank (text : Bytes) {post : Bytes} (h : IsBlank post) :
    (text ++ post).rtakeWhile isspace = text.rtakeWhile isspace ++ post := by
  unfold List.rtakeWhile
  rw [List.reverse_append, List.takeWhile_append_of_pos fun x hx => h x (List.mem_reverse.mp hx), List.reverse_append,
    List.reverse_reverse]

theorem rtakeWhile_append_of_not_isBlank (text : Bytes) {post : Bytes} (h : ¬ IsBlank post) :
    (text ++ post).rtakeWhile isspace = post.rtakeWhile isspace := by
  unfold List.rtakeWhile
  rw [List.reverse_append, List.takeWhile_append, if_neg]
  intro hlength
  apply h
  intro x hx
  have he : post.reverse.takeWhile isspace = post.reverse :=
    (List.takeWhile_prefix isspace).eq_of_length hlength
  exact List.takeWhile_eq_self_iff.mp he x (List.mem_reverse.mpr hx)

theorem dropWhile_newline {line post : Bytes} (hline : 10 ∉ line) (hpost : post = [] ∨ post.head? = some 10) :
    (line ++ post).dropWhile (· ≠ 10) = post := by
  have hne : ∀ x ∈ line, decide (x ≠ 10) = true := by
    intro x hx
    simpa using fun he : x = 10 => hline (he ▸ hx)
  rw [List.dropWhile_append_of_pos hne]
  rcases hpost with rfl | hpost
  · rfl
  · cases post with
    | nil => rfl
    | cons c post =>
      obtain rfl := Option.some.inj hpost
      exact List.dropWhile_cons_of_neg (by simp)

theorem Pieces.not_isBlank {text lead line gap rest : Bytes} (h : Pieces text lead line gap rest) :
    ¬ IsBlank (lead ++ line) := by
  intro hblank
  have hne := h.ne
  have hhead := h.head
  cases line with
  | nil => exact hne rfl
  | cons c line =>
    rw [List.head?_cons, Option.getD_some, hblank c (by simp)] at hhead
    cases hhead

theorem Pieces.stragglers {text lead line gap rest : Bytes} (h : Pieces text lead line gap rest) (hzero : 0 ∉ text)
    (hrest : IsBlank rest) : stragglers text = gap ++ rest := by
  have hpost : IsBlank (gap ++ rest) := isBlank_append.mpr ⟨fun x hx => isspace_of_isGap (h.isGap x hx), hrest⟩
  have htrailing : 10 ∉ (lead ++ line).rtakeWhile isspace := by
    rw [rtakeWhile_append_of_not_isBlank lead fun hblank => h.not_isBlank (isBlank_append.mpr ⟨h.isBlank, hblank⟩)]
    exact fun hm => h.newline_not_mem ((List.rtakeWhile_suffix isspace line).subset hm)
  unfold WeightRules.stragglers
  rw [h.eq, ← List.append_assoc lead, rtakeWhile_append_of_isBlank _ hpost, dropWhile_newline htrailing (h.post hzero)]

theorem Layout.not_isBlank {text line left : Bytes} {lines : List Bytes} (h : Layout text (line :: lines) left) :
    ¬ IsBlank text := by
  cases h with
  | rule h hrest =>
    intro hblank
    rw [h.eq, ← List.append_assoc] at hblank
    exact h.not_isBlank (isBlank_append.mp hblank).1

theorem layout_left {text left : Bytes} {lines : List Bytes} (h : Layout text lines left) (hzero : 0 ∉ text)
    (hne : lines ≠ []) : left = [] ↔ ∀ x ∈ stragglers text, isGap x = true := by
  induction h with
  | done h => exact absurd rfl hne
  | @rule text lead line gap rest left lines h hrest ih =>
    have hzero' : 0 ∉ rest := fun hm => hzero (by simp [h.eq, hm])
    cases hlines : lines with
    | nil =>
      rw [hlines] at hrest
      cases hrest with
      | done hblank =>
        rw [h.stragglers hzero hblank]
        constructor
        · rintro rfl x hx
          rw [List.append_nil] at hx
          exact h.isGap x hx
        · intro hall
          have hnext := h.next
          cases rest with
          | nil => rfl
          | cons c rest =>
            rw [List.head?_cons, Option.getD_some, hall c (by simp)] at hnext
            cases hnext
    | cons line' lines' =>
      rw [ih hzero' (by rw [hlines]; exact List.cons_ne_nil _ _)]
      rw [hlines] at hrest
      have hsame : stragglers text = stragglers rest := by
        unfold stragglers
        rw [h.eq, ← List.append_assoc, ← List.append_assoc, rtakeWhile_append_of_not_isBlank _ hrest.not_isBlank]
      rw [hsame]

def lastError (text : Bytes) : ℕ :=
  if items text = [] then if text = [] then 0 else 10
  else if (stragglers text).all isGap then 0 else 10

theorem unsafeSetWeightRules_eq (compiles : Bytes → Bool) (rules : Bytes) {fuel : ℕ}
    (hfuel : (cstr rules).length < fuel) : unsafeSetWeightRules compiles fuel [] rules =
      .ok (outcome compiles (lastError (cstr rules)) (items (cstr rules))) := by
  have hzero := zero_not_mem_cstr rules
  obtain ⟨lines, left, h⟩ := exists_layout (cstr rules) hzero
  have hitems := layout_items h hzero
  rw [unsafeSetWeightRules_layout h hfuel, hitems]
  have herror : (if left = [] then 0 else 10) = lastError (cstr rules) := by
    unfold lastError
    by_cases hlines : lines = []
    · have hnone : items (cstr rules) = [] := by rw [← hitems, hlines, List.map_nil]
      rw [if_pos hnone]
      rw [hlines] at h
      cases h with
      | done h => rfl
    · have hsome : items (cstr rules) ≠ [] := by
        rw [← hitems]
        exact fun he => hlines (List.map_eq_nil_iff.mp he)
      have hleft : left = [] ↔ (stragglers (cstr rules)).all isGap = true := by
        rw [layout_left h hzero hlines, List.all_eq_true]
      rw [if_neg hsome]
      exact if_congr hleft rfl rfl
  rw [herror]

section

variable (compiles : Bytes → Bool)

def Faulty : Option Written → Prop
  | none => True
  | some ⟨n, regexp⟩ => ¬ (0 ≤ n ∧ n < nredisServerWeights) ∨ regexp = [] ∨ compiles regexp = false

def Passes : Option Written → Prop
  | none => False
  | some ⟨n, regexp⟩ => (0 ≤ narrowed n ∧ narrowed n < nredisServerWeights) ∧ regexp ≠ [] ∧ compiles regexp = true

def AllOrNothing (text : Bytes) (rules : List Rule) : Prop :=
  ((∀ item ∈ items text, ¬ Faulty compiles item) ∧
      items text = rules.map fun rule => some ⟨(rule.weight : ℕ), rule.regexp⟩) ∨
    (∃ item ∈ items text, Faulty compiles item) ∧ rules = []

def InRange (item : Option Written) : Prop := ∀ w ∈ item, 0 ≤ w.number ∧ w.number < nredisServerWeights

/-- The code does not mistake a number for a weight, nor white space that follows the last rule for a rule. -/
def Unmistaken (text : Bytes) : Prop :=
  items text ≠ [] → (∀ item ∈ items text, Passes compiles item) →
    ((∀ item ∈ items text, InRange item) ↔ ∀ x ∈ stragglers text, isGap x = true)

end

theorem toWeight_eq_some {n : ℤ} {weight : Weight} : toWeight n = some weight ↔ n = (weight : ℕ) := by
  unfold toWeight
  by_cases h : n < 0 ∨ nredisServerWeights ≤ n
  · rw [dif_pos h]
    refine iff_of_false nofun ?_
    have hlt := weight.isLt
    omega
  · rw [dif_neg h, Option.some.injEq, Fin.ext_iff]
    dsimp only
    omega

theorem toWeight_eq_none {n : ℤ} : toWeight n = none ↔ ¬ (0 ≤ n ∧ n < nredisServerWeights) := by
  unfold toWeight
  by_cases h : n < 0 ∨ nredisServerWeights ≤ n
  · rw [dif_pos h]
    exact iff_of_true rfl (by omega)
  · rw [dif_neg h]
    exact iff_of_false nofun (by omega)

theorem narrowed_of_lt {n : ℤ} (h : 0 ≤ n ∧ n < nredisServerWeights) : narrowed n = n := by
  have hlt : n < 4 := h.2
  unfold narrowed
  rw [Int.bmod_def]
  split <;> omega

section

variable {compiles : Bytes → Bool}

theorem lineResult_error {item : Option Written} (h : ¬ Passes compiles item) :
    ∃ error, error ≠ 0 ∧ lineResult compiles item = .error error := by
  unfold lineResult
  split
  · exact ⟨10, by decide, rfl⟩
  · next n regexp =>
    split
    · exact ⟨10, by decide, rfl⟩
    · next weight hweight =>
      rw [toWeight_eq_some] at hweight
      have hlt := weight.isLt
      by_cases hempty : regexp = []
      · exact ⟨20, by decide, if_pos hempty⟩
      · rw [if_neg hempty]
        by_cases hcompiles : compiles regexp = true
        · exact absurd ⟨by omega, hempty, hcompiles⟩ h
        · exact ⟨30, by decide, if_pos hcompiles⟩

theorem lineResult_ok {item : Option Written} (h : Passes compiles item) :
    ∃ w rule, item = some w ∧ lineResult compiles item = .ok rule ∧ narrowed w.number = (rule.weight : ℕ) ∧
      w.regexp = rule.regexp := by
  cases item with
  | none => exact absurd h id
  | some w =>
    obtain ⟨n, regexp⟩ := w
    obtain ⟨hrange, hempty, hcompiles⟩ := h
    cases hweight : toWeight (narrowed n) with
    | none => exact absurd hrange (toWeight_eq_none.mp hweight)
    | some weight =>
      refine ⟨⟨n, regexp⟩, ⟨weight, regexp⟩, rfl, ?_, toWeight_eq_some.mp hweight, rfl⟩
      unfold lineResult
      simp only [hweight, if_neg hempty, if_neg (not_not.mpr hcompiles)]

theorem linesResult_error {items : List (Option Written)} (h : ¬ ∀ item ∈ items, Passes compiles item) (error : ℕ) :
    (linesResult compiles error items).1 ≠ 0 := by
  induction items with
  | nil => exact absurd (by simp) h
  | cons item items ih =>
    by_cases hitem : Passes compiles item
    · obtain ⟨w, rule, -, hok, -⟩ := lineResult_ok hitem
      rw [linesResult, hok]
      exact ih fun hrest => h (List.forall_mem_cons.mpr ⟨hitem, hrest⟩)
    · obtain ⟨e, he, herror⟩ := lineResult_error hitem
      rw [linesResult, herror]
      exact he

theorem linesResult_ok {items : List (Option Written)} (h : ∀ item ∈ items, Passes compiles item) (error : ℕ) :
    ∃ found, linesResult compiles error items = (error, found) ∧
      List.Forall₂ (fun item rule => ∃ w, item = some w ∧ narrowed w.number = ((rule : Rule).weight : ℕ) ∧
        w.regexp = rule.regexp) items found := by
  induction items with
  | nil => exact ⟨[], rfl, .nil⟩
  | cons item items ih =>
    obtain ⟨hitem, hrest⟩ := List.forall_mem_cons.mp h
    obtain ⟨w, rule, hw, hok, hweight, hregexp⟩ := lineResult_ok hitem
    obtain ⟨found, hfound, hall⟩ := ih hrest
    refine ⟨rule :: found, ?_, .cons ⟨w, hw, hweight, hregexp⟩ hall⟩
    rw [linesResult, hok, hfound]

theorem outcome_error {items : List (Option Written)} (h : ¬ ∀ item ∈ items, Passes compiles item) (error : ℕ) :
    (outcome compiles error items).2 = [] := if_neg (linesResult_error h error)

theorem passes_of_not_faulty {item : Option Written} (h : ¬ Faulty compiles item) : Passes compiles item := by
  cases item with
  | none => exact absurd trivial h
  | some w =>
    obtain ⟨n, regexp⟩ := w
    simp only [Faulty, not_or, not_not, Bool.not_eq_false] at h
    obtain ⟨hrange, hempty, hcompiles⟩ := h
    exact ⟨by rwa [narrowed_of_lt hrange], hempty, hcompiles⟩

theorem Passes.faulty_iff {item : Option Written} (h : Passes compiles item) :
    ¬ Faulty compiles item ↔ InRange item := by
  cases item with
  | none => exact absurd h id
  | some w =>
    obtain ⟨n, regexp⟩ := w
    obtain ⟨-, hempty, hcompiles⟩ := h
    simp [Faulty, InRange, hempty, hcompiles]

theorem items_eq_map {items : List (Option Written)} {found : List Rule}
    (h : List.Forall₂ (fun item rule => ∃ w, item = some w ∧ narrowed w.number = ((rule : Rule).weight : ℕ) ∧
      w.regexp = rule.regexp) items found) (hrange : ∀ item ∈ items, InRange item) :
    items = found.map fun rule => some ⟨(rule.weight : ℕ), rule.regexp⟩ := by
  induction h with
  | nil => rfl
  | @cons item rule items found hitem h ih =>
    obtain ⟨w, rfl, hweight, hregexp⟩ := hitem
    obtain ⟨hw, hrest⟩ := List.forall_mem_cons.mp hrange
    rw [narrowed_of_lt (hw w rfl)] at hweight
    rw [List.map_cons, ← ih hrest, ← hweight, ← hregexp]

theorem outcome_allOrNothing (text : Bytes) :
    AllOrNothing compiles text (outcome compiles (lastError text) (items text)).2 ↔ Unmistaken compiles text := by
  unfold Unmistaken
  by_cases hempty : items text = []
  · refine iff_of_true (Or.inl ?_) fun hne => absurd hempty hne
    rw [hempty]
    refine ⟨by simp, ?_⟩
    unfold outcome linesResult
    dsimp only
    split_ifs <;> rfl
  by_cases hpasses : ∀ item ∈ items text, Passes compiles item
  case neg =>
    refine iff_of_true (Or.inr ⟨?_, outcome_error hpasses _⟩) fun _ h => absurd h hpasses
    by_contra hnone
    exact hpasses fun item hitem => passes_of_not_faulty fun hf => hnone ⟨item, hitem, hf⟩
  have hfaulty : (∀ item ∈ items text, ¬ Faulty compiles item) ↔ ∀ item ∈ items text, InRange item :=
    forall₂_congr fun item hitem => (hpasses item hitem).faulty_iff
  obtain ⟨found, hfound, hall⟩ := linesResult_ok hpasses (lastError text)
  have hne : found ≠ [] := by
    rintro rfl
    exact hempty (List.forall₂_nil_right_iff.mp hall)
  have hlast : lastError text = if (stragglers text).all isGap then 0 else 10 := if_neg hempty
  unfold AllOrNothing outcome
  dsimp only
  rw [hfound, hlast, forall_prop_of_true hempty, forall_prop_of_true hpasses, ← List.all_eq_true]
  by_cases hclean : (stragglers text).all isGap = true
  · rw [if_pos hclean, if_pos rfl, hfaulty]
    constructor
    · rintro (⟨hrange, -⟩ | ⟨-, hnil⟩)
      · exact iff_of_true hrange hclean
      · exact absurd hnil hne
    · intro h
      exact Or.inl ⟨h.mpr hclean, items_eq_map hall (h.mpr hclean)⟩
  · have hten : ¬ (10, found).1 = 0 := Nat.succ_ne_zero 9
    rw [if_neg hclean, if_neg hten, hfaulty]
    constructor
    · rintro (⟨-, hnil⟩ | ⟨⟨item, hitem, hf⟩, -⟩)
      · exact absurd hnil hempty
      · exact iff_of_false (fun hrange => (hfaulty.mpr hrange) item hitem hf) hclean
    · intro h
      refine Or.inr ⟨?_, rfl⟩
      by_contra hnone
      exact hclean (h.mp (hfaulty.mp fun item hitem hf => hnone ⟨item, hitem, hf⟩))

/-- The parsing comes to an end, and it is whole or nothing if and only if no number becomes a weight by being
narrowed and no other white space than blanks and line ends follows the last rule. -/
theorem unsafeSetWeightRules_allOrNothing_iff (compiles : Bytes → Bool) (rules : Bytes) :
    ∃ error found, (∀ fuel, (cstr rules).length < fuel →
        unsafeSetWeightRules compiles fuel [] rules = .ok (error, found)) ∧
      (AllOrNothing compiles (cstr rules) found ↔ Unmistaken compiles (cstr rules)) :=
  ⟨_, _, fun _ hfuel => unsafeSetWeightRules_eq compiles rules hfuel, outcome_allOrNothing (cstr rules)⟩

theorem unsafeSetWeightRules_mistakes :
    (unsafeSetWeightRules (fun _ => true) 20 [] (bytes "4294967297 a") = .ok (0, [⟨1, bytes "a"⟩]) ∧
      ¬ AllOrNothing (fun _ => true) (bytes "4294967297 a") [⟨1, bytes "a"⟩]) ∧
    unsafeSetWeightRules (fun _ => true) 20 [] (bytes "1 a\r\n\r\n") = .ok (10, []) ∧
      ¬ AllOrNothing (fun _ => true) (bytes "1 a\r\n\r\n") [] := by
  have hfirst : items (bytes "4294967297 a") = [some ⟨4294967297, bytes "a"⟩] := by decide +kernel
  have hsecond : items (bytes "1 a\r\n\r\n") = [some ⟨1, bytes "a"⟩] := by decide +kernel
  refine ⟨⟨by decide +kernel, ?_⟩, by decide +kernel, ?_⟩
  · unfold AllOrNothing
    rw [hfirst]
    simp [Faulty]
  · unfold AllOrNothing
    rw [hsecond]
    simp [Faulty, bytes]

end

def crlf (text : Bytes) : Bytes := text.flatMap fun c => if c = 10 then [13, 10] else [c]

theorem crlf_append (s t : Bytes) : crlf (s ++ t) = crlf s ++ crlf t := List.flatMap_append

theorem crlf_of_not_mem {s : Bytes} (h : 10 ∉ s) : crlf s = s := by
  induction s with
  | nil => rfl
  | cons c s ih =>
    rw [List.mem_cons, not_or] at h
    unfold crlf at ih ⊢
    rw [List.flatMap_cons, if_neg fun hc => h.1 hc.symm, ih h.2]
    rfl

theorem cstr_crlf (text : Bytes) : cstr (crlf text) = crlf (cstr text) := by
  induction text with
  | nil => rfl
  | cons c text ih =>
    have hcons : crlf (c :: text) = crlf [c] ++ crlf text := crlf_append [c] text
    by_cases hzero : c = 0
    · subst hzero
      rfl
    · have hfree : 0 ∉ crlf [c] := by
        unfold crlf
        by_cases hline : c = 10
        · simp [hline]
        · simpa [hline] using fun he : 0 = c => hzero he.symm
      rw [hcons, cstr_append_of_not_mem hfree, ih, cstr_cons_of_ne hzero, ← crlf_append, List.singleton_append]

theorem trim_cr (s : Bytes) : trim (s ++ [13]) = trim s := by
  unfold trim
  have hdrop : (s ++ [13]).dropWhile isblank = s.dropWhile isblank ++ [13] := (takeWhile_append_stop (z := 0) s rfl).2
  rw [hdrop, List.rdropWhile_concat_pos _ _ _ rfl]

theorem written_cr (line : Bytes) : written (line ++ [13]) = written line := by
  by_cases hblank : IsBlank line
  · have hcr : IsBlank (line ++ [13]) := isBlank_append.mpr ⟨hblank, List.forall_mem_singleton.mpr rfl⟩
    unfold written
    rw [List.dropWhile_eq_nil_iff.mpr hblank, List.dropWhile_eq_nil_iff.mpr hcr]
  · have hdrop : (line ++ [13]).dropWhile isspace = line.dropWhile isspace ++ [13] := by
      rw [List.dropWhile_append, if_neg]
      rw [List.isEmpty_iff, List.dropWhile_eq_nil_iff]
      exact hblank
    have hne : line.dropWhile isspace ≠ [] := fun he => hblank (List.dropWhile_eq_nil_iff.mp he)
    obtain ⟨text, htext⟩ : ∃ text, line.dropWhile isspace = text := ⟨_, rfl⟩
    rw [htext] at hdrop hne
    have htake : (unsigned text ++ [13]).takeWhile isdigit = (unsigned text).takeWhile isdigit :=
      (takeWhile_append_stop (z := 0) (unsigned text) rfl).1
    have hrest : (unsigned text ++ [13]).dropWhile isdigit = (unsigned text).dropWhile isdigit ++ [13] :=
      (takeWhile_append_stop (z := 0) (unsigned text) rfl).2
    unfold written signed
    dsimp only
    rw [hdrop, htext, unsigned_append hne, htake, hrest, trim_cr, List.head?_append_of_ne_nil text hne]

theorem lines_crlf (text : Bytes) :
    List.Forall₂ (fun line line' => line' = line ∨ line' = line ++ [13]) (text.splitOn 10) ((crlf text).splitOn 10) := by
  induction text with
  | nil => exact .cons (Or.inl rfl) .nil
  | cons c text ih =>
    have hcons : crlf (c :: text) = crlf [c] ++ crlf text := crlf_append [c] text
    rw [List.splitOn_cons_eq_if_modifyHead, hcons]
    by_cases hline : c = 10
    · subst hline
      have hsplit : (crlf [10] ++ crlf text).splitOn 10 = [13] :: (crlf text).splitOn 10 :=
        List.splitOnP_append_cons_of_forall_mem (show ∀ x ∈ [13], (x == (10 : UInt8)) = false by simp) 10 rfl _
      rw [if_pos (beq_self_eq_true _), hsplit]
      exact .cons (Or.inr rfl) ih
    · have hsplit : (crlf [c] ++ crlf text).splitOn 10 = ((crlf text).splitOn 10).modifyHead (List.cons c) := by
        rw [crlf_of_not_mem (by simpa using fun he : 10 = c => hline he.symm), List.singleton_append,
          List.splitOn_cons_eq_if_modifyHead, if_neg (by simpa using hline)]
      rw [if_neg (by simpa using hline), hsplit]
      generalize text.splitOn 10 = lines at ih
      generalize (crlf text).splitOn 10 = lines' at ih
      cases ih with
      | nil => exact .nil
      | cons hhead htail => exact .cons (hhead.imp (congrArg _) (congrArg _)) htail

theorem items_crlf (text : Bytes) : items (crlf text) = items text := by
  unfold items ruleLines
  have h := lines_crlf text
  generalize text.splitOn 10 = lines at h
  generalize (crlf text).splitOn 10 = lines' at h
  induction h with
  | nil => rfl
  | @cons line line' lines lines' hline h ih =>
    have hblank : line'.all isspace = line.all isspace := by
      rcases hline with rfl | rfl
      · rfl
      · rw [List.all_append]
        exact Bool.and_true _
    have hwritten : written line' = written line := by
      rcases hline with rfl | rfl
      · rfl
      · exact written_cr line
    rw [List.filter_cons, List.filter_cons, hblank]
    split_ifs
    · rw [List.map_cons, List.map_cons, hwritten, ih]
    · exact ih

theorem crlf_nil_iff (text : Bytes) : crlf text = [] ↔ text = [] := by
  cases text with
  | nil => exact iff_of_true rfl rfl
  | cons c text =>
    refine iff_of_false ?_ (List.cons_ne_nil c text)
    unfold crlf
    rw [List.flatMap_cons]
    split_ifs <;> exact List.cons_ne_nil _ _

theorem isBlank_crlf {s : Bytes} (h : IsBlank s) : IsBlank (crlf s) := by
  intro x hx
  obtain ⟨c, hc, hx⟩ := List.mem_flatMap.mp hx
  split_ifs at hx
  · rcases List.mem_cons.mp hx with rfl | hx
    · rfl
    · rw [List.mem_singleton.mp hx]
      rfl
  · rw [List.mem_singleton.mp hx]
    exact h c hc

theorem rtakeWhile_crlf (text : Bytes) : (crlf text).rtakeWhile isspace = crlf (text.rtakeWhile isspace) := by
  obtain ⟨u, hu⟩ : ∃ u, text.rdropWhile isspace = u := ⟨_, rfl⟩
  have htext : text = u ++ text.rtakeWhile isspace := by rw [← hu, List.rdropWhile_append_rtakeWhile]
  have hblank : IsBlank (text.rtakeWhile isspace) := fun x hx => List.mem_rtakeWhile_imp hx
  have hnone : (crlf u).rtakeWhile isspace = [] := by
    rcases List.eq_nil_or_concat' u with rfl | ⟨v, c, rfl⟩
    · rfl
    · have hc : ¬ isspace c = true := by
        have hlast := List.rdropWhile_last_not isspace text (by rw [hu]; simp)
        simpa only [hu, List.getLast_concat] using hlast
      have hline : 10 ∉ [c] := by
        rintro hm
        obtain rfl := List.mem_singleton.mp hm
        exact hc rfl
      rw [crlf_append, crlf_of_not_mem hline, List.rtakeWhile_concat_neg _ _ _ hc]
  conv_lhs => rw [htext]
  rw [crlf_append, rtakeWhile_append_of_isBlank _ (isBlank_crlf hblank), hnone, List.nil_append]

theorem isGap_crlf (s : Bytes) : (∀ x ∈ crlf s, isGap x = true) ↔ (∀ x ∈ s, isGap x = true) ∧ 10 ∉ s := by
  by_cases hline : 10 ∈ s
  · refine iff_of_false (fun h => ?_) fun h => h.2 hline
    have hcr : 13 ∈ crlf s := List.mem_flatMap.mpr ⟨10, hline, by simp⟩
    exact absurd (h 13 hcr) (by decide)
  · rw [crlf_of_not_mem hline]
    exact ⟨fun h => ⟨h, hline⟩, fun h => h.1⟩

theorem stragglers_cases (text : Bytes) : stragglers text = [] ∨ ∃ rest, stragglers text = 10 :: rest := by
  have hhead := List.head?_dropWhile_not (· ≠ (10 : UInt8)) (text.rtakeWhile isspace)
  unfold stragglers
  cases hs : (text.rtakeWhile isspace).dropWhile (· ≠ 10) with
  | nil => exact Or.inl rfl
  | cons c rest =>
    rw [hs] at hhead
    have hc : c = 10 := by simpa using hhead
    exact Or.inr ⟨rest, by rw [hc]⟩

theorem stragglers_crlf (text : Bytes) : (∀ x ∈ stragglers (crlf text), isGap x = true) ↔
    (∀ x ∈ stragglers text, isGap x = true) ∧ (stragglers text).count 10 ≤ 1 := by
  have hsplit : text.rtakeWhile isspace = (text.rtakeWhile isspace).takeWhile (· ≠ 10) ++ stragglers text :=
    List.takeWhile_append_dropWhile.symm
  have hfree : 10 ∉ (text.rtakeWhile isspace).takeWhile (· ≠ 10) := by
    intro h
    simpa using List.mem_takeWhile_imp h
  have hcrlf : stragglers (crlf text) = (crlf (text.rtakeWhile isspace)).dropWhile (· ≠ 10) := by
    unfold stragglers
    rw [rtakeWhile_crlf]
  rw [hcrlf, hsplit, crlf_append, crlf_of_not_mem hfree]
  rcases stragglers_cases text with hs | ⟨rest, hs⟩
  · have hnil : crlf [] = [] := rfl
    rw [hs, hnil, dropWhile_newline hfree (Or.inl rfl)]
    simp
  · have hfree' : 10 ∉ (text.rtakeWhile isspace).takeWhile (· ≠ 10) ++ [13] := by
      rw [List.mem_append, not_or]
      exact ⟨hfree, by decide⟩
    have hlines : (text.rtakeWhile isspace).takeWhile (· ≠ 10) ++ crlf (10 :: rest) =
        (text.rtakeWhile isspace).takeWhile (· ≠ 10) ++ [13] ++ 10 :: crlf rest := by
      rw [List.append_assoc]
      rfl
    rw [hs, hlines, dropWhile_newline hfree' (Or.inr rfl), List.forall_mem_cons, isGap_crlf, List.forall_mem_cons,
      List.count_cons_self]
    have hcount : rest.count 10 + 1 ≤ 1 ↔ 10 ∉ rest := by
      rw [← List.count_eq_zero]
      omega
    rw [hcount, and_assoc]

theorem linesResult_error_eq {compiles : Bytes → Bool} {items : List (Option Written)}
    (h : ¬ ∀ item ∈ items, Passes compiles item) (error error' : ℕ) :
    linesResult compiles error items = linesResult compiles error' items := by
  induction items with
  | nil => exact absurd (by simp) h
  | cons item items ih =>
    by_cases hitem : Passes compiles item
    · obtain ⟨w, rule, -, hok, -⟩ := lineResult_ok hitem
      rw [linesResult, linesResult, hok, ih fun hrest => h (List.forall_mem_cons.mpr ⟨hitem, hrest⟩)]
    · obtain ⟨e, -, herror⟩ := lineResult_error hitem
      rw [linesResult, linesResult, herror]

def EndsOnce (compiles : Bytes → Bool) (text : Bytes) : Prop :=
  items text ≠ [] → (∀ item ∈ items text, Passes compiles item) → (∀ x ∈ stragglers text, isGap x = true) →
    (stragglers text).count 10 ≤ 1

theorem outcome_crlf (compiles : Bytes → Bool) (text : Bytes) :
    outcome compiles (lastError text) (items text) =
        outcome compiles (lastError (crlf text)) (items (crlf text)) ↔ EndsOnce compiles text := by
  unfold EndsOnce
  rw [items_crlf]
  by_cases hempty : items text = []
  · refine iff_of_true ?_ fun hne => absurd hempty hne
    have hsame : lastError (crlf text) = lastError text := by
      unfold lastError
      rw [items_crlf, if_pos hempty, if_pos hempty]
      exact if_congr (crlf_nil_iff text) rfl rfl
    rw [hsame]
  rw [forall_prop_of_true hempty]
  by_cases hpasses : ∀ item ∈ items text, Passes compiles item
  case neg =>
    refine iff_of_true ?_ fun h => absurd h hpasses
    unfold outcome
    rw [linesResult_error_eq hpasses (lastError text) (lastError (crlf text))]
  rw [forall_prop_of_true hpasses]
  have hlast : lastError text = if (stragglers text).all isGap then 0 else 10 := if_neg hempty
  have hlast' : lastError (crlf text) = if (stragglers (crlf text)).all isGap then 0 else 10 := by
    unfold lastError
    rw [items_crlf, if_neg hempty]
  have houtcome : ∀ error error', outcome compiles error (items text) = outcome compiles error' (items text) ↔
      error = error' := by
    intro error error'
    refine ⟨fun h => ?_, fun h => by rw [h]⟩
    obtain ⟨found, hfound, -⟩ := linesResult_ok hpasses error
    obtain ⟨found', hfound', -⟩ := linesResult_ok hpasses error'
    have hfirst := congrArg Prod.fst h
    unfold outcome at hfirst
    dsimp only at hfirst
    rwa [hfound, hfound'] at hfirst
  have hends := stragglers_crlf text
  rw [houtcome, hlast, hlast']
  simp only [← List.all_eq_true] at hends ⊢
  by_cases hclean : (stragglers text).all isGap = true
  · rw [if_pos hclean, forall_prop_of_true hclean]
    by_cases honce : (stragglers text).count 10 ≤ 1
    · rw [if_pos (hends.mpr ⟨hclean, honce⟩)]
      exact iff_of_true rfl honce
    · rw [if_neg fun h => honce (hends.mp h).2]
      exact iff_of_false (by decide) honce
  · rw [if_neg hclean, if_neg fun h => hclean (hends.mp h).1]
    exact iff_of_true rfl fun h => absurd h hclean

/-- Line ends of two bytes change nothing, unless line ends follow the one of the last rule. -/
theorem unsafeSetWeightRules_crlf_iff (compiles : Bytes → Bool) (rules : Bytes) :
    ∃ result result', (∀ fuel, (cstr rules).length < fuel →
        unsafeSetWeightRules compiles fuel [] rules = .ok result) ∧
      (∀ fuel, (cstr (crlf rules)).length < fuel →
        unsafeSetWeightRules compiles fuel [] (crlf rules) = .ok result') ∧
      (result = result' ↔ EndsOnce compiles (cstr rules)) := by
  refine ⟨_, _, fun _ hfuel => unsafeSetWeightRules_eq compiles rules hfuel,
    fun _ hfuel => unsafeSetWeightRules_eq compiles (crlf rules) hfuel, ?_⟩
  rw [cstr_crlf]
  exact outcome_crlf compiles (cstr rules)

theorem unsafeSetWeightRules_crlf_differs :
    13 ∉ bytes "1 a\n\n" ∧ crlf (bytes "1 a\n\n") = bytes "1 a\r\n\r\n" ∧
      unsafeSetWeightRules (fun _ => true) 20 [] (bytes "1 a\n\n") = .ok (0, [⟨1, bytes "a"⟩]) ∧
      unsafeSetWeightRules (fun _ => true) 20 [] (crlf (bytes "1 a\n\n")) = .ok (10, []) := by
  decide +kernel

end VmodRedis.WeightRules
