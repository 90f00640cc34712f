import VmodRedis.SentinelLocations

namespace VmodRedis.SentinelLocations

open CStrings Scanning

structure Proper (host : Bytes) : Prop where
  ne : host ≠ []
  zero_not_mem : 0 ∉ host
  comma_not_mem : comma ∉ host
  head_not_space : isspace (host.head?.getD 0) = false

@[ext] structure Item where
  host : Bytes
  digits : Bytes
  proper : Proper host
  isDigits : IsDigits digits

namespace Item

def text (item : Item) : Bytes := item.host ++ colon :: item.digits

def port (item : Item) : ℕ := digitsValue item.digits

def location (item : Item) : Location := ⟨item.host, item.port⟩

end Item

inductive Separated : Bytes → List Item → Prop where
  | last (item : Item) {gap : Bytes} (hgap : IsGap gap) : Separated (item.text ++ gap) [item]
  | cons (item : Item) {gap rest : Bytes} {items : List Item} (hgap : IsGap gap) (hcomma : comma ∈ gap)
      (hrest : Separated rest items) : Separated (item.text ++ (gap ++ rest)) (item :: items)

def Listed (text : Bytes) (items : List Item) : Prop :=
  (text = [] ∧ items = []) ∨ ∃ lead body, text = lead ++ body ∧ IsBlank lead ∧ Separated body items

theorem notSeparator_of_isspace {c : UInt8} (h : isspace c = true) : notSeparator c = true := by
  by_contra hc
  rw [Bool.not_eq_true] at hc
  rcases end_of_notSeparator hc with rfl | rfl <;> cases h

theorem comma_not_mem_of_isBlank {s : Bytes} (h : IsBlank s) : comma ∉ s := fun hm => nomatch h comma hm

namespace Item

variable (item : Item) {sp : Bytes}

theorem splits (hsp : IsBlank sp) : Splits (item.text ++ sp) item.host colon item.digits sp :=
  ⟨by simp [text], hsp, item.isDigits.2, Or.inr rfl, fun _ => rfl⟩

theorem inside (hsp : IsBlank sp) : ∀ x ∈ item.text ++ sp, notSeparator x = true := by
  intro x hx
  by_contra hn
  rw [Bool.not_eq_true] at hn
  simp only [text, List.append_assoc, List.mem_append, List.mem_cons, List.cons_append] at hx
  rcases hx with hx | rfl | hx | hx
  · rcases end_of_notSeparator hn with rfl | rfl
    · exact item.proper.zero_not_mem hx
    · exact item.proper.comma_not_mem hx
  · cases hn
  · rcases end_of_notSeparator hn with rfl | rfl
    · exact item.isDigits.not_mem rfl hx
    · exact item.isDigits.not_mem rfl hx
  · rw [notSeparator_of_isspace (hsp x hx)] at hn
    cases hn

theorem head_text (rest : Bytes) : (item.text ++ rest).head?.getD 0 = item.host.head?.getD 0 := by
  rw [text, List.append_assoc, List.head?_append_of_ne_nil _ item.proper.ne]

theorem head_not_separator (rest : Bytes) : isSeparator ((item.text ++ rest).head?.getD 0) = false := by
  rw [head_text]
  have hcomma : item.host.head?.getD 0 ≠ comma := by
    rw [List.head?_eq_some_head item.proper.ne, Option.getD_some]
    exact fun h => item.proper.comma_not_mem (h ▸ List.head_mem item.proper.ne)
  simp [isSeparator, item.proper.head_not_space, hcomma]

theorem result_of_accepted (h : Accepted item.port) :
    itemResult item.host colon item.digits = .ok (stored item.host item.port) := by
  rw [port] at h
  rw [itemResult, if_neg (not_not.mpr rfl), if_neg item.isDigits.1, if_neg (not_not.mpr h), if_neg item.proper.ne]
  rfl

theorem pieces {lead gap : Bytes} (rest : Bytes) (hlead : IsBlank lead) (hgap : IsGap gap)
    (hrest : isSeparator (rest.head?.getD 0) = false) (hcomma : rest = [] ∨ comma ∈ gap) :
    ∃ sp gap', Pieces (lead ++ (item.text ++ (gap ++ rest))) lead (item.text ++ sp) gap' rest ∧ IsBlank sp := by
  obtain ⟨sp, gap', rfl, hsp, hstop⟩ := exists_skip (z := 0) (f := isspace) rfl gap
  refine ⟨sp, gap', ⟨by simp, hlead, item.inside hsp, ?_, ?_, ?_, hrest⟩, hsp⟩
  · rw [List.append_assoc, head_text]
    exact item.proper.head_not_space
  · cases gap' with
    | nil =>
      have hnil : rest = [] := by
        apply hcomma.resolve_right
        rw [List.append_nil]
        exact comma_not_mem_of_isBlank hsp
      rw [hnil]
      rfl
    | cons c gap' =>
      have hc : isSeparator c = true := hgap c (List.mem_append_right sp List.mem_cons_self)
      rw [List.head?_cons, Option.getD_some] at hstop
      simp only [isSeparator, hstop, Bool.false_eq_true, false_or, decide_eq_true_eq] at hc
      rw [List.cons_append, List.head?_cons, Option.getD_some, hc]
      rfl
  · exact fun c hc => hgap c (List.mem_append_right sp hc)

end Item

theorem Separated.head {body : Bytes} {items : List Item} (h : Separated body items) :
    body ≠ [] ∧ isSeparator (body.head?.getD 0) = false := by
  cases h with
  | last item => exact ⟨by simp [Item.text], item.head_not_separator _⟩
  | cons item => exact ⟨by simp [Item.text], item.head_not_separator _⟩

theorem listed_nil {items : List Item} (h : Listed [] items) : items = [] := by
  rcases h with ⟨-, h⟩ | ⟨lead, body, heq, -, hbody⟩
  · exact h
  · exact absurd (List.append_eq_nil_iff.mp heq.symm).2 hbody.head.1

theorem Listed.text_eq_nil {text : Bytes} (h : Listed text []) : text = [] := by
  rcases h with ⟨h, -⟩ | ⟨lead, body, -, -, hbody⟩
  · exact h
  · cases hbody

theorem Listed.separated {text : Bytes} {items : List Item} (h : Listed text items) (hne : text ≠ [])
    (hhead : isSeparator (text.head?.getD 0) = false) : Separated text items := by
  obtain ⟨lead, body, rfl, hlead, hbody⟩ := h.resolve_left fun h => hne h.1
  cases lead with
  | nil => exact hbody
  | cons c lead =>
    have hc : isspace c = true := hlead c List.mem_cons_self
    rw [List.cons_append, List.head?_cons, Option.getD_some, isSeparator, hc] at hhead
    simp at hhead

theorem Listed.pieces {text : Bytes} {item : Item} {items : List Item} (h : Listed text (item :: items)) :
    ∃ lead sp gap rest, Pieces text lead (item.text ++ sp) gap rest ∧ IsBlank sp ∧ Listed rest items := by
  obtain ⟨lead, body, rfl, hlead, hbody⟩ := h.resolve_left fun h => List.cons_ne_nil _ _ h.2
  cases hbody with
  | @last _ gap hgap =>
    obtain ⟨sp, gap', hpieces, hsp⟩ := item.pieces [] hlead hgap rfl (Or.inl rfl)
    rw [List.append_nil] at hpieces
    exact ⟨lead, sp, gap', [], hpieces, hsp, Or.inl ⟨rfl, rfl⟩⟩
  | @cons _ gap rest _ hgap hcomma hrest =>
    obtain ⟨sp, gap', hpieces, hsp⟩ := item.pieces rest hlead hgap hrest.head.2 (Or.inr hcomma)
    exact ⟨lead, sp, gap', rest, hpieces, hsp, Or.inr ⟨[], rest, rfl, by simp [IsBlank], hrest⟩⟩

theorem Item.text_unique {item item' : Item} {sp sp' : Bytes} (hsp : IsBlank sp) (hsp' : IsBlank sp')
    (h : item.text ++ sp = item'.text ++ sp') : item = item' := by
  have hlast : ∀ {item : Item} {sp : Bytes}, IsBlank sp →
      strrchr (item.text ++ sp) colon = some (item.host, item.digits ++ sp) := by
    intro item sp hsp
    have hcolon : colon ∉ item.digits ++ sp := by
      rw [List.mem_append, not_or]
      exact ⟨item.isDigits.not_mem rfl, fun hm => Bool.false_ne_true (hsp colon hm)⟩
    have hzero : 0 ∉ item.text ++ sp := fun hm => Bool.false_ne_true (item.inside hsp 0 hm)
    rw [text, List.append_assoc, List.cons_append] at hzero ⊢
    exact strrchr_append hcolon hzero
  have hsplit := (hlast hsp).symm.trans ((congrArg (strrchr · colon) h).trans (hlast hsp'))
  rw [Option.some.injEq, Prod.mk.injEq] at hsplit
  have hend : ∀ {sp : Bytes}, IsBlank sp → isdigit (sp.head?.getD 0) = false := by
    intro sp hsp
    have hdigit := (head_after_digits [] hsp rfl).1
    rwa [List.append_nil] at hdigit
  exact Item.ext hsplit.1 (skip_unique item.isDigits.2 (hend hsp) item'.isDigits.2 (hend hsp') hsplit.2).1

theorem Listed.unique {text : Bytes} {items items' : List Item} (h : Listed text items) (h' : Listed text items') :
    items = items' := by
  induction items generalizing text items' with
  | nil =>
    obtain rfl := h.text_eq_nil
    exact (listed_nil h').symm
  | cons item items ih =>
    cases items' with
    | nil =>
      obtain rfl := h'.text_eq_nil
      exact listed_nil h
    | cons item' items' =>
      obtain ⟨lead, sp, gap, rest, hpieces, hsp, hrest⟩ := h.pieces
      obtain ⟨lead', sp', gap', rest', hpieces', hsp', hrest'⟩ := h'.pieces
      obtain ⟨hitem, rfl⟩ := hpieces.unique hpieces'
      rw [Item.text_unique hsp hsp' hitem, ih hrest hrest']

section

variable {pre text : Bytes} {items : List Item} {fuel : ℕ} {sentinels : List Location}

theorem Pieces.comma_mem {lead v gap rest : Bytes} (h : Pieces text lead v gap rest) (hzero : 0 ∉ text)
    (hne : rest ≠ []) : comma ∈ gap := by
  have hstop := h.stop
  cases gap with
  | nil =>
    have hrest : rest.head?.getD 0 ≠ 0 := head_ne_zero hne fun hm => hzero (by simp [h.eq, hm])
    have hnext := h.next
    rw [List.nil_append] at hstop
    rw [(end_of_notSeparator hstop).resolve_left hrest] at hnext
    cases hnext
  | cons d gap =>
    have hd : d ≠ 0 := fun he => hzero (by simp [h.eq, he])
    rw [List.cons_append, List.head?_cons, Option.getD_some] at hstop
    rw [(end_of_notSeparator hstop).resolve_left hd]
    exact List.mem_cons_self

theorem listed_cons {lead v gap rest host digits sp : Bytes} (h : Pieces text lead v gap rest)
    (hs : Splits v host colon digits sp) (hzero : 0 ∉ text) (hdigits : digits ≠ []) (hhost : host ≠ [])
    (hrest : Listed rest items) : ∃ item : Item, item.digits = digits ∧ Listed text (item :: items) := by
  have hinside : ∀ x ∈ host, notSeparator x = true := fun x hx => h.inside x (by simp [hs.eq, hx])
  have hhead : isspace (host.head?.getD 0) = false := by
    rw [← h.head_item (by simp [hs.eq]), hs.eq, List.head?_append_of_ne_nil host hhost]
  have hproper : Proper host := ⟨hhost, fun hm => Bool.false_ne_true (hinside 0 hm),
    fun hm => Bool.false_ne_true (hinside comma hm), hhead⟩
  let item : Item := ⟨host, digits, hproper, hdigits, hs.allDigits⟩
  refine ⟨item, rfl, Or.inr ⟨lead, item.text ++ (sp ++ gap ++ rest), ?_, h.isBlank, ?_⟩⟩
  · rw [h.eq, hs.eq]
    simp [item, Item.text]
  have hgap : IsGap (sp ++ gap) := by
    intro x hx
    rcases List.mem_append.mp hx with hx | hx
    · simp [isSeparator, hs.blank x hx]
    · exact h.isGap x hx
  by_cases hnil : rest = []
  · rw [hnil] at hrest ⊢
    rw [listed_nil hrest, List.append_nil]
    exact .last item hgap
  · exact .cons item hgap (List.mem_append_right sp (h.comma_mem hzero hnil)) (hrest.separated hnil h.next)

theorem parseItems_complete (h : Listed text items) (hzero : 0 ∉ text) (hfuel : text.length < fuel)
    (haccepted : ∀ item ∈ items, Accepted item.port) :
    parseItems (pre ++ text) fuel pre.length sentinels =
      .ok (0, sentinels ++ items.map fun item => stored item.host item.port) := by
  induction items generalizing pre text fuel sentinels with
  | nil =>
    obtain ⟨n, rfl⟩ := Nat.exists_eq_add_one_of_ne_zero (by omega : fuel ≠ 0)
    rw [h.text_eq_nil, List.append_nil, parseItems_nil, List.map_nil, List.append_nil]
  | cons item items ih =>
    obtain ⟨n, rfl⟩ := Nat.exists_eq_add_one_of_ne_zero (by omega : fuel ≠ 0)
    obtain ⟨lead, sp, gap, rest, hpieces, hsp, hrest⟩ := h.pieces
    have hlength := hpieces.length_eq
    have htext : 0 < item.text.length := List.length_pos_iff.mpr (by simp [Item.text])
    rw [List.length_append] at hlength
    have hitem := item.result_of_accepted (haccepted item List.mem_cons_self)
    have heq : pre ++ text = pre ++ lead ++ (item.text ++ sp) ++ gap ++ rest := by
      rw [hpieces.eq]
      simp only [List.append_assoc]
    rw [parseItems_ok hpieces (item.splits hsp) hzero (by omega) hitem, heq,
      ih hrest (fun hm => hzero (by simp [hpieces.eq, hm])) (by omega)
        (fun i hi => haccepted i (List.mem_cons_of_mem item hi)),
      List.map_cons, List.append_assoc, List.singleton_append]

theorem parseItems_sound (pre : Bytes) (sentinels : List Location) (hzero : 0 ∉ text) :
    ∃ error found, (∀ fuel, text.length < fuel → parseItems (pre ++ text) fuel pre.length sentinels = .ok (error, found)) ∧
      (error = 0 → ∃ items, Listed text items ∧ ∀ item ∈ items, Accepted item.port) := by
  induction hn : text.length using Nat.strong_induction_on generalizing pre text sentinels with
  | _ n ih =>
    rw [← hn]
    have hsucc : ∀ fuel, text.length < fuel → ∃ m, fuel = m + 1 ∧ text.length ≤ m :=
      fun fuel h => ⟨fuel - 1, by omega, by omega⟩
    by_cases hne : text = []
    · refine ⟨0, sentinels, fun fuel hfuel => ?_, fun _ => ⟨[], Or.inl ⟨hne, rfl⟩, by simp⟩⟩
      obtain ⟨m, rfl, -⟩ := hsucc fuel hfuel
      rw [hne, List.append_nil, parseItems_nil]
    obtain ⟨lead, v, gap, rest, hpieces⟩ := exists_pieces text
    by_cases hv : v = []
    · rw [hv] at hpieces
      refine ⟨10, sentinels, fun fuel hfuel => ?_, nofun⟩
      obtain ⟨m, rfl, hm⟩ := hsucc fuel hfuel
      exact parseItems_empty hpieces hne hzero hm
    obtain ⟨host, c, digits, sp, hsplits⟩ := exists_splits hv (hpieces.head_item hv)
    rcases itemResult_cases host c digits with ⟨error, herror, hitem⟩ | ⟨⟨rfl, hdigits, haccepted, hhost⟩, hitem⟩
    · refine ⟨error, sentinels, fun fuel hfuel => ?_, fun h => absurd h herror⟩
      obtain ⟨m, rfl, hm⟩ := hsucc fuel hfuel
      exact parseItems_error hpieces hsplits hzero hm hitem
    · have hlength := hpieces.length_eq
      have hpos := List.length_pos_iff.mpr hv
      obtain ⟨error, found, hrun, hfound⟩ := ih rest.length (by omega) (pre ++ lead ++ v ++ gap)
        (sentinels ++ [stored host (digitsValue digits)]) (fun hm => hzero (by simp [hpieces.eq, hm])) rfl
      refine ⟨error, found, fun fuel hfuel => ?_, fun herror => ?_⟩
      · obtain ⟨m, rfl, hm⟩ := hsucc fuel hfuel
        have heq : pre ++ text = pre ++ lead ++ v ++ gap ++ rest := by
          rw [hpieces.eq]
          simp only [List.append_assoc]
        rw [parseItems_ok hpieces hsplits hzero hm hitem, heq, hrun m (by omega)]
      · obtain ⟨items, hrest, hitems⟩ := hfound herror
        obtain ⟨item, rfl, hlisted⟩ := listed_cons hpieces hsplits hzero hdigits hhost hrest
        exact ⟨item :: items, hlisted, List.forall_mem_cons.mpr ⟨haccepted, hitems⟩⟩

end

def InRange (items : List Item) : Prop := ∀ item ∈ items, item.port ≤ 65535

structure AllOrNothing (text : Bytes) (error : ℕ) (sentinels : List Location) : Prop where
  accepts : ∀ items, Listed text items → InRange items → error = 0 ∧ sentinels = items.map Item.location
  rejects : (∀ items, Listed text items → ¬ InRange items) → error ≠ 0 ∧ sentinels = []

/-- Every port the code lets through is in its range, and no host is as long as what an `unsigned` counts. -/
def Unmistaken (text : Bytes) : Prop :=
  ∀ items, Listed text items → (∀ item ∈ items, Accepted item.port) →
    ∀ item ∈ items, item.port ≤ 65535 ∧ item.host.length < 2 ^ 32

theorem accepted_of_le {port : ℕ} (h : port ≤ 65535) : Accepted port := ⟨by omega, by omega⟩

theorem stored_eq_location {item : Item} (hport : item.port ≤ 65535) :
    stored item.host item.port = item.location ↔ item.host.length < 2 ^ 32 := by
  have hmod : item.port % 2 ^ 32 = item.port := Nat.mod_eq_of_lt (by omega)
  rw [stored, hmod, Item.location, Location.mk.injEq, List.take_eq_self_iff]
  constructor
  · intro h
    have := Nat.mod_lt item.host.length (show 0 < 2 ^ 32 by decide)
    omega
  · intro h
    exact ⟨(Nat.mod_eq_of_lt h).ge, rfl⟩

theorem map_stored {items : List Item} (h : InRange items) :
    (items.map fun item => stored item.host item.port) = items.map Item.location ↔
      ∀ item ∈ items, item.host.length < 2 ^ 32 := by
  rw [List.map_inj_left]
  exact forall₂_congr fun item hitem => stored_eq_location (h item hitem)

theorem unsafeSetLocations_eq (locations : Bytes) :
    ∃ error found, (∀ fuel, (cstr locations).length < fuel → unsafeSetLocations fuel [] locations = .ok (error, found)) ∧
      (∀ items, Listed (cstr locations) items → (∀ item ∈ items, Accepted item.port) →
        error = 0 ∧ found = items.map fun item => stored item.host item.port) ∧
      ((∀ items, Listed (cstr locations) items → ¬ ∀ item ∈ items, Accepted item.port) → error ≠ 0 ∧ found = []) := by
  have hzero := zero_not_mem_cstr locations
  obtain ⟨error, found, hrun, hsound⟩ := parseItems_sound [] [] hzero
  refine ⟨error, if error = 0 then found else [], fun fuel hfuel => ?_, fun items hitems haccepted => ?_, fun hnone => ?_⟩
  · have h := hrun fuel hfuel
    rw [List.nil_append] at h
    rw [unsafeSetLocations]
    change (parseItems (cstr locations) fuel ([] : Bytes).length [] >>= _) = _
    rw [h]
    rfl
  · have h := (hrun _ (Nat.lt_succ_self _)).symm.trans (parseItems_complete hitems hzero (Nat.lt_succ_self _) haccepted)
    rw [Except.ok.injEq, Prod.mk.injEq, List.nil_append] at h
    rw [if_pos h.1]
    exact h
  · have herror : error ≠ 0 := by
      intro herror
      obtain ⟨items, hitems, haccepted⟩ := hsound herror
      exact hnone items hitems haccepted
    exact ⟨herror, if_neg herror⟩

theorem allOrNothing_iff {text : Bytes} {error : ℕ} {found : List Location}
    (hok : ∀ items, Listed text items → (∀ item ∈ items, Accepted item.port) →
      error = 0 ∧ found = items.map fun item => stored item.host item.port)
    (hno : (∀ items, Listed text items → ¬ ∀ item ∈ items, Accepted item.port) → error ≠ 0 ∧ found = []) :
    AllOrNothing text error found ↔ Unmistaken text := by
  constructor
  · intro h items hitems haccepted
    obtain ⟨herror, hfound⟩ := hok items hitems haccepted
    have hrange : InRange items := by
      by_contra hrange
      refine (h.rejects fun items' hitems' => ?_).1 herror
      rwa [hitems'.unique hitems]
    have hhosts := (map_stored hrange).mp (hfound.symm.trans (h.accepts items hitems hrange).2)
    exact fun item hitem => ⟨hrange item hitem, hhosts item hitem⟩
  · intro h
    constructor
    · intro items hitems hrange
      have haccepted : ∀ item ∈ items, Accepted item.port := fun item hitem => accepted_of_le (hrange item hitem)
      obtain ⟨herror, hfound⟩ := hok items hitems haccepted
      have hhosts := fun item hitem => (h items hitems haccepted item hitem).2
      exact ⟨herror, hfound.trans ((map_stored hrange).mpr hhosts)⟩
    · intro hnone
      apply hno
      intro items hitems haccepted
      exact hnone items hitems fun item hitem => (h items hitems haccepted item hitem).1

def joined : List Location → Bytes
  | [] => []
  | [l] => l.host ++ colon :: decimal l.port
  | l :: l' :: locations => l.host ++ colon :: decimal l.port ++ ([comma] ++ joined (l' :: locations))

theorem exists_item {l : Location} (h : Proper l.host) :
    ∃ item : Item, item.location = l ∧ item.text = l.host ++ colon :: decimal l.port :=
  ⟨⟨l.host, decimal l.port, h, isDigits_decimal l.port⟩,
    by simp [Item.location, Item.port, digitsValue_decimal], rfl⟩

theorem separated_joined {l : Location} {locations : List Location} (h : ∀ l' ∈ l :: locations, Proper l'.host) :
    ∃ items, Separated (joined (l :: locations)) items ∧ items.map Item.location = l :: locations := by
  induction locations generalizing l with
  | nil =>
    obtain ⟨item, hlocation, htext⟩ := exists_item (h l List.mem_cons_self)
    refine ⟨[item], ?_, by rw [List.map_singleton, hlocation]⟩
    rw [joined, ← htext, ← List.append_nil item.text]
    exact .last item (by simp [IsGap])
  | cons l' locations ih =>
    obtain ⟨item, hlocation, htext⟩ := exists_item (h l List.mem_cons_self)
    obtain ⟨items, hitems, hmap⟩ := ih fun l'' hl => h l'' (List.mem_cons_of_mem l hl)
    refine ⟨item :: items, ?_, by rw [List.map_cons, hlocation, hmap]⟩
    rw [joined, ← htext]
    exact .cons item (by simp [IsGap, isSeparator]) List.mem_cons_self hitems

theorem listed_joined {locations : List Location} (h : ∀ l ∈ locations, Proper l.host) :
    ∃ items, Listed (joined locations) items ∧ items.map Item.location = locations := by
  cases locations with
  | nil => exact ⟨[], Or.inl ⟨rfl, rfl⟩, rfl⟩
  | cons l locations =>
    obtain ⟨items, hitems, hmap⟩ := separated_joined h
    exact ⟨items, Or.inr ⟨[], joined (l :: locations), rfl, by simp [IsBlank], hitems⟩, hmap⟩

theorem zero_not_mem_joined {locations : List Location} (h : ∀ l ∈ locations, Proper l.host) : 0 ∉ joined locations := by
  induction locations with
  | nil => exact List.not_mem_nil
  | cons l locations ih =>
    have hrest := ih fun l' hl => h l' (List.mem_cons_of_mem l hl)
    have hl : 0 ∉ l.host ++ colon :: decimal l.port := by
      rw [List.mem_append, List.mem_cons, not_or, not_or]
      exact ⟨(h l List.mem_cons_self).zero_not_mem, by decide, zero_not_mem_decimal l.port⟩
    cases locations with
    | nil => exact hl
    | cons l' locations =>
      intro hm
      rcases List.mem_append.mp hm with hm | hm
      · exact hl hm
      · rcases List.mem_append.mp hm with hm | hm
        · exact absurd hm (by decide)
        · exact hrest hm

theorem not_allOrNothing {locations found : List Location} (h : ∀ l ∈ locations, Proper l.host)
    (hport : ∃ l ∈ locations, 65535 < l.port) : ¬ AllOrNothing (joined locations) 0 found := by
  intro hall
  obtain ⟨items, hitems, hmap⟩ := listed_joined h
  refine (hall.rejects fun items' hitems' hrange => ?_).1 rfl
  obtain ⟨l, hl, hlt⟩ := hport
  rw [← hmap, ← hitems'.unique hitems] at hl
  obtain ⟨item, hitem, rfl⟩ := List.mem_map.mp hl
  exact absurd (hrange item hitem) (Nat.not_le.mpr hlt)

/-- A string is taken whole or not at all, and one that was joined from Sentinels gives them back, where no port
and no host is lost in a conversion. -/
theorem unsafeSetLocations_allOrNothing_iff (locations : Bytes) :
    (∃ error found,
      (∀ fuel, (cstr locations).length < fuel → unsafeSetLocations fuel [] locations = .ok (error, found)) ∧
        (AllOrNothing (cstr locations) error found ↔ Unmistaken (cstr locations))) ∧
      ∀ sentinels, joined sentinels = locations → (∀ l ∈ sentinels, Proper l.host ∧ l.port ≤ 65535) →
        ∀ fuel, locations.length < fuel →
          (unsafeSetLocations fuel [] locations = .ok (0, sentinels) ↔ ∀ l ∈ sentinels, l.host.length < 2 ^ 32) := by
  obtain ⟨error, found, hrun, hok, hno⟩ := unsafeSetLocations_eq locations
  refine ⟨⟨error, found, hrun, allOrNothing_iff hok hno⟩, fun sentinels hjoined hsentinels fuel hfuel => ?_⟩
  have hproper : ∀ l ∈ sentinels, Proper l.host := fun l hl => (hsentinels l hl).1
  have hcstr : cstr locations = locations := cstr_of_not_mem (hjoined ▸ zero_not_mem_joined hproper)
  obtain ⟨items, hitems, hmap⟩ := listed_joined hproper
  have hrange : InRange items := by
    intro item hitem
    exact (hsentinels item.location (hmap ▸ List.mem_map_of_mem hitem)).2
  rw [hcstr] at hrun hok
  rw [hjoined] at hitems
  obtain ⟨rfl, rfl⟩ := hok items hitems fun item hitem => accepted_of_le (hrange item hitem)
  have hhosts : (∀ l ∈ sentinels, l.host.length < 2 ^ 32) ↔ ∀ item ∈ items, item.host.length < 2 ^ 32 := by
    rw [← hmap, List.forall_mem_map]
    rfl
  rw [hrun fuel hfuel, hhosts, ← map_stored hrange, hmap]
  simp

theorem unsafeSetLocations_lets_ports_through :
    (unsafeSetLocations 20 [] (bytes "h:65536") = .ok (0, [⟨bytes "h", 65536⟩]) ∧
      ¬ AllOrNothing (bytes "h:65536") 0 [⟨bytes "h", 65536⟩]) ∧
      unsafeSetLocations 20 [] (bytes "h:4294967376") = .ok (0, [⟨bytes "h", 80⟩]) ∧
      ¬ AllOrNothing (bytes "h:4294967376") 0 [⟨bytes "h", 80⟩] := by
  have hproper : Proper (bytes "h") := ⟨by decide, by decide, by decide, by decide⟩
  have hfirst : bytes "h:65536" = joined [⟨bytes "h", 65536⟩] := by decide +kernel
  have hsecond : bytes "h:4294967376" = joined [⟨bytes "h", 4294967376⟩] := by decide +kernel
  refine ⟨⟨by decide +kernel, ?_⟩, by decide +kernel, ?_⟩
  · rw [hfirst]
    exact not_allOrNothing (by simpa using hproper) ⟨_, List.mem_cons_self, by decide⟩
  · rw [hsecond]
    exact not_allOrNothing (by simpa using hproper) ⟨_, List.mem_cons_self, by decide⟩

end VmodRedis.SentinelLocations
