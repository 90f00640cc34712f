import VmodRedis.TaskReplies

namespace VmodRedis.TaskCommands

open CStrings Replies Database

inductive OutOfBounds where
  | element (index : ℤ)

/-- `index < reply->elements` and then `reply->element[index]`: the signed index is compared as an unsigned
number, but it is the signed one that is used. -/
def readElement (index : BitVec 64) (r : Reply) : Except OutOfBounds (Option Reply) :=
  if index.toNat < (replyElements r).length then
    if 0 ≤ index.toInt then
      match (replyElements r)[index.toInt.toNat]? with
      | some e => .ok (some e)
      | none => .error (.element index.toInt)
    else .error (.element index.toInt)
  else .ok none

def arrayReplyIsFoo (condition : Reply → Bool) (db : DbId) (s : Session Reply) (index : BitVec 64) :
    Except OutOfBounds Bool :=
  access db s (replyType · = .array) (fun r => (readElement index r).map fun e => e.any condition) (.ok false)

def arrayReplyValue (db : DbId) (s : Session Reply) (index : BitVec 64) (copied : Bool) :
    Except OutOfBounds (Option Bytes) :=
  access db s isArrayReply (fun r => (readElement index r).map fun e => e.bind (getReply copied)) (.ok none)

inductive ElementTest where
  | error
  | nil
  | status
  | integer
  | boolean
  | double
  | string
  | array

def ElementTest.condition : ElementTest → Reply → Bool
  | .error => (replyType · = .error)
  | .nil => (replyType · = .nil)
  | .status => (replyType · = .status)
  | .integer => (replyType · = .integer)
  | .boolean => (replyType · = .bool)
  | .double => (replyType · = .double)
  | .string => isStringReply
  | .array => isArrayReply

def ElementTest.accessor (test : ElementTest) (db : DbId) (s : Session Reply) (index : ℤ) : Bool :=
  match test with
  | .error => vmodDbArrayReplyIsError db s index
  | .nil => vmodDbArrayReplyIsNil db s index
  | .status => vmodDbArrayReplyIsStatus db s index
  | .integer => vmodDbArrayReplyIsInteger db s index
  | .boolean => vmodDbArrayReplyIsBoolean db s index
  | .double => vmodDbArrayReplyIsDouble db s index
  | .string => vmodDbArrayReplyIsString db s index
  | .array => vmodDbArrayReplyIsArray db s index

def held (db : DbId) (s : Session Reply) : Option Reply :=
  if s.state.command.db = some db then s.state.command.reply else none

def Allocated (s : Session Reply) : Prop :=
  ∀ r, s.state.command.reply = some r → (replyElements r).length ≤ 2 ^ 61

inductive TextOf : Reply → Bytes → Prop
  | string (str : Bytes) : TextOf (.string str) str
  | status (str : Bytes) : TextOf (.status str) str
  | error (str : Bytes) : TextOf (.error str) str
  | verb (vtype str : Bytes) : TextOf (.verb vtype str) str
  | double (str : Bytes) : TextOf (.double str) str
  | integer (n : ℕ) : TextOf (.integer n) (decimal n)
  | negative (n : ℕ) (h : 0 < n) : TextOf (.integer (-n)) (45 :: decimal n)
  | no : TextOf (.bool false) (bytes "0")
  | yes : TextOf (.bool true) (bytes "1")

theorem signedDecimal_natCast (n : ℕ) : signedDecimal n = decimal n := if_neg (by omega)

theorem signedDecimal_neg {n : ℕ} (h : 0 < n) : signedDecimal (-n) = 45 :: decimal n := by
  have hneg : -(n : ℤ) < 0 := by omega
  rw [signedDecimal, if_pos hneg, Int.natAbs_neg, Int.natAbs_natCast]

theorem getReply_eq_some_iff (r : Reply) (text : Bytes) : getReply true r = some text ↔ TextOf r text := by
  constructor
  · intro h
    cases r with
    | string str => cases h; exact .string str
    | status str => cases h; exact .status str
    | error str => cases h; exact .error str
    | verb vtype str => cases h; exact .verb vtype str
    | double str => cases h; exact .double str
    | bool b =>
      cases h
      cases b with
      | true => exact .yes
      | false => exact .no
    | integer n =>
      obtain rfl : signedDecimal n = text := Option.some.inj h
      obtain ⟨m, rfl | rfl⟩ := n.eq_nat_or_neg
      · rw [signedDecimal_natCast]
        exact .integer m
      obtain rfl | hm := m.eq_zero_or_pos
      · exact .integer 0
      · rw [signedDecimal_neg hm]
        exact .negative m hm
    | _ => cases h
  · intro h
    cases h with
    | integer n => exact congrArg some (signedDecimal_natCast n)
    | negative n h => exact congrArg some (signedDecimal_neg h)
    | _ => rfl

theorem getReply_false (r : Reply) : getReply false r = none := by
  cases r <;> rfl

/-- What the methods on the elements of a reply are documented to return, with no read outside of the elements. -/
structure DocumentedView (db : DbId) (s : Session Reply) (index : BitVec 64) : Prop where
  bounded : (∀ test : ElementTest, arrayReplyIsFoo test.condition db s index = .ok (test.accessor db s index.toInt)) ∧
    ∀ copied, arrayReplyValue db s index copied = .ok (vmodDbGetArrayReplyValue db s index.toInt copied)
  inside : ∀ r, held db s = some r → isArrayReply r = true → 0 ≤ index.toInt →
    index.toInt < vmodDbGetArrayReplyLength db s → ∃ e, (replyElements r)[index.toInt.toNat]? = some e ∧
      (∀ test : ElementTest, test.accessor db s index.toInt = test.condition e) ∧
      (∀ text, vmodDbGetArrayReplyValue db s index.toInt true = some text ↔ TextOf e text) ∧
      vmodDbGetArrayReplyValue db s index.toInt false = none
  outside : (∀ r, held db s = some r → isArrayReply r = true → index.toInt < 0 ∨
    vmodDbGetArrayReplyLength db s ≤ index.toInt) →
      (∀ test : ElementTest, test.accessor db s index.toInt = false) ∧
      ∀ copied, vmodDbGetArrayReplyValue db s index.toInt copied = none

theorem access_eq {α : Type} (db : DbId) (s : Session Reply) (condition : Reply → Bool) (value : Reply → α)
    (fallback : α) : access db s condition value fallback =
      (held db s).elim fallback fun r => if condition r then value r else fallback := by
  unfold access held
  dsimp only
  rw [(getTaskState_keep s).1]
  by_cases hdb : s.state.command.db = some db
  · rw [if_pos hdb, if_pos hdb]
    cases s.state.command.reply <;> rfl
  · rw [if_neg hdb, if_neg hdb]
    rfl

theorem readElement_eq {r : Reply} (h : (replyElements r).length ≤ 2 ^ 61) (index : BitVec 64) :
    readElement index r = .ok (elementAt index.toInt r) := by
  have hint := BitVec.toInt_eq_toNat_cond index
  unfold readElement elementAt
  by_cases hlt : index.toNat < (replyElements r).length
  · rw [if_pos (by omega)] at hint
    have hindex : index.toInt.toNat = index.toNat := by omega
    rw [if_pos hlt, if_pos (by omega), if_pos (by omega), hindex, List.getElem?_eq_getElem hlt]
  · rw [if_neg hlt]
    by_cases hsign : 0 ≤ index.toInt
    · have hindex : index.toInt.toNat = index.toNat := by omega
      rw [if_pos hsign, hindex, List.getElem?_eq_none (by omega)]
    · rw [if_neg hsign]

theorem held_allocated {db : DbId} {s : Session Reply} (h : Allocated s) {r : Reply} (hr : held db s = some r) :
    (replyElements r).length ≤ 2 ^ 61 := by
  unfold held at hr
  by_cases hdb : s.state.command.db = some db
  · rw [if_pos hdb] at hr
    exact h r hr
  · rw [if_neg hdb] at hr
    cases hr

theorem access_element {α : Type} {db : DbId} {s : Session Reply} (h : Allocated s) (condition : Reply → Bool)
    (index : BitVec 64) (value : Option Reply → α) (fallback : α) :
    access db s condition (fun r => (readElement index r).map value) (.ok fallback) =
      .ok (access db s condition (fun r => value (elementAt index.toInt r)) fallback) := by
  rw [access_eq, access_eq]
  cases hr : held db s with
  | none => rfl
  | some r =>
    simp only [Option.elim_some, readElement_eq (held_allocated h hr)]
    by_cases hc : condition r = true
    · rw [if_pos hc, if_pos hc]
      rfl
    · rw [if_neg hc, if_neg hc]

theorem ElementTest.accessor_eq (test : ElementTest) (db : DbId) (s : Session Reply) (index : ℤ) :
    test.accessor db s index = (held db s).elim false fun r =>
      if replyType r = .array then (elementAt index r).any test.condition else false := by
  have he : ∀ condition, access db s (elementIs index condition) (fun _ => true) false =
      (held db s).elim false fun r =>
        if replyType r = .array then (elementAt index r).any condition else false := by
    intro condition
    rw [access_eq]
    cases held db s with
    | none => rfl
    | some r =>
      unfold elementIs
      by_cases hr : replyType r = .array <;> simp [hr]
  cases test <;> exact he _

theorem arrayReplyIsFoo_eq {db : DbId} {s : Session Reply} (h : Allocated s) (test : ElementTest)
    (index : BitVec 64) :
    arrayReplyIsFoo test.condition db s index = .ok (test.accessor db s index.toInt) := by
  unfold arrayReplyIsFoo
  rw [access_element h, access_eq, test.accessor_eq]
  simp only [decide_eq_true_eq]

theorem arrayReplyValue_eq {db : DbId} {s : Session Reply} (h : Allocated s) (index : BitVec 64) (copied : Bool) :
    arrayReplyValue db s index copied = .ok (vmodDbGetArrayReplyValue db s index.toInt copied) :=
  access_element h isArrayReply index (fun e => e.bind (getReply copied)) none

theorem vmodDbGetArrayReplyValue_eq (db : DbId) (s : Session Reply) (index : ℤ) (copied : Bool) :
    vmodDbGetArrayReplyValue db s index copied = (held db s).elim none fun r =>
      if isArrayReply r then (elementAt index r).bind (getReply copied) else none :=
  access_eq db s _ _ _

theorem vmodDbGetArrayReplyLength_of_held {db : DbId} {s : Session Reply} {r : Reply} (hr : held db s = some r)
    (ha : isArrayReply r = true) : vmodDbGetArrayReplyLength db s = (replyElements r).length := by
  unfold vmodDbGetArrayReplyLength
  rw [access_eq, hr, Option.elim_some, if_pos ha]

theorem elementAt_none_iff (index : ℤ) (r : Reply) :
    elementAt index r = none ↔ index < 0 ∨ (replyElements r).length ≤ index := by
  unfold elementAt
  by_cases h : 0 ≤ index
  · rw [if_pos h, List.getElem?_eq_none_iff]
    omega
  · rw [if_neg h]
    exact iff_of_true rfl (Or.inl (by omega))

theorem conditions_false_iff (e : Reply) : (∀ test : ElementTest, test.condition e = false) ↔
    replyType e = .bignum ∨ replyType e = .push ∨ replyType e = .attr := by
  constructor
  · intro h
    have hpasses : ∀ test : ElementTest, ¬ test.condition e = true := fun test => by simp [h test]
    cases hk : replyType e with
    | bignum => exact Or.inl rfl
    | push => exact Or.inr (Or.inl rfl)
    | attr => exact Or.inr (Or.inr rfl)
    | error => exact absurd (decide_eq_true hk) (hpasses .error)
    | nil => exact absurd (decide_eq_true hk) (hpasses .nil)
    | status => exact absurd (decide_eq_true hk) (hpasses .status)
    | integer => exact absurd (decide_eq_true hk) (hpasses .integer)
    | bool => exact absurd (decide_eq_true hk) (hpasses .boolean)
    | double => exact absurd (decide_eq_true hk) (hpasses .double)
    | string | verb =>
      have hstring : isStringReply e = true := by rw [isStringReply, hk]; rfl
      exact absurd hstring (hpasses .string)
    | array | map | set =>
      have harray : isArrayReply e = true := by rw [isArrayReply, hk]; rfl
      exact absurd harray (hpasses .array)
  · intro h test
    rcases h with h | h | h <;> cases test <;> simp only [ElementTest.condition, isStringReply, isArrayReply, h] <;> rfl

theorem exists_elementAt {index : ℤ} {r : Reply} (hsign : 0 ≤ index) (hlt : index < (replyElements r).length) :
    ∃ e, (replyElements r)[index.toNat]? = some e ∧ elementAt index r = some e := by
  have hindex : index.toNat < (replyElements r).length := by omega
  unfold elementAt
  rw [if_pos hsign, List.getElem?_eq_getElem hindex]
  exact ⟨_, rfl, rfl⟩

def Untested (db : DbId) (s : Session Reply) (index : ℤ) : Prop :=
  ∀ r e, held db s = some r → replyType r = .map ∨ replyType r = .set → 0 ≤ index →
    (replyElements r)[index.toNat]? = some e → replyType e = .bignum ∨ replyType e = .push ∨ replyType e = .attr

section

variable {db : DbId} {s : Session Reply} {index : ℤ}

theorem inside_spec (hcond : Untested db s index) {r : Reply} (hr : held db s = some r) (ha : isArrayReply r = true)
    (hsign : 0 ≤ index) (hlength : index < vmodDbGetArrayReplyLength db s) :
    ∃ e, (replyElements r)[index.toNat]? = some e ∧
      (∀ test : ElementTest, test.accessor db s index = test.condition e) ∧
      (∀ text, vmodDbGetArrayReplyValue db s index true = some text ↔ TextOf e text) ∧
      vmodDbGetArrayReplyValue db s index false = none := by
  rw [vmodDbGetArrayReplyLength_of_held hr ha] at hlength
  obtain ⟨e, he, helement⟩ := exists_elementAt hsign hlength
  have hvalue : ∀ copied, vmodDbGetArrayReplyValue db s index copied = getReply copied e := by
    intro copied
    rw [vmodDbGetArrayReplyValue_eq, hr, Option.elim_some, if_pos ha, helement, Option.bind_some]
  refine ⟨e, he, fun test => ?_, fun text => ?_, ?_⟩
  · rw [test.accessor_eq, hr, Option.elim_some, helement, Option.any_some]
    by_cases harray : replyType r = .array
    · rw [if_pos harray]
    · rw [if_neg harray]
      have hkind : replyType r = .map ∨ replyType r = .set := by
        simpa [isArrayReply, harray] using ha
      rw [(conditions_false_iff e).mpr (hcond r e hr hkind hsign he) test]
  · rw [hvalue, getReply_eq_some_iff]
  · rw [hvalue, getReply_false]

theorem outside_spec (hout : ∀ r, held db s = some r → isArrayReply r = true →
      index < 0 ∨ vmodDbGetArrayReplyLength db s ≤ index) :
    (∀ test : ElementTest, test.accessor db s index = false) ∧
      ∀ copied, vmodDbGetArrayReplyValue db s index copied = none := by
  have hnone : ∀ r, held db s = some r → isArrayReply r = true → elementAt index r = none := by
    intro r hr ha
    have hr' := hout r hr ha
    rw [vmodDbGetArrayReplyLength_of_held hr ha] at hr'
    exact (elementAt_none_iff _ _).mpr hr'
  constructor
  · intro test
    rw [test.accessor_eq]
    cases hr : held db s with
    | none => rfl
    | some r =>
      rw [Option.elim_some]
      by_cases harray : replyType r = .array
      · rw [if_pos harray, hnone r hr (by simp [isArrayReply, harray])]
        rfl
      · rw [if_neg harray]
  · intro copied
    rw [vmodDbGetArrayReplyValue_eq]
    cases hr : held db s with
    | none => rfl
    | some r =>
      rw [Option.elim_some]
      by_cases ha : isArrayReply r = true
      · rw [if_pos ha, hnone r hr ha]
        rfl
      · rw [if_neg ha]

end

/-- The tests on the elements of a map or of a set are not those that are documented: the methods agree
otherwise, and where none of the tests would be true. -/
theorem arrayReplies_documented {db : DbId} {s : Session Reply} (h : Allocated s) (index : BitVec 64) :
    DocumentedView db s index ↔
      ∀ r e, held db s = some r → replyType r = .map ∨ replyType r = .set → 0 ≤ index.toInt →
        (replyElements r)[index.toInt.toNat]? = some e →
          replyType e = .bignum ∨ replyType e = .push ∨ replyType e = .attr := by
  constructor
  · intro hview r e hr hkind hsign he
    have ha : isArrayReply r = true := by
      rcases hkind with hk | hk <;> simp [isArrayReply, hk]
    have hlt := (List.getElem?_eq_some_iff.mp he).1
    obtain ⟨e', he', htests, -⟩ := hview.inside r hr ha hsign (by
      rw [vmodDbGetArrayReplyLength_of_held hr ha]
      omega)
    obtain rfl : e = e' := Option.some.inj (he.symm.trans he')
    rw [← conditions_false_iff]
    intro test
    have htest := htests test
    rw [test.accessor_eq, hr, Option.elim_some, if_neg (by rcases hkind with hk | hk <;> simp [hk])] at htest
    exact htest.symm
  · intro hcond
    constructor
    case bounded => exact ⟨fun test => arrayReplyIsFoo_eq h test index, fun copied => arrayReplyValue_eq h index copied⟩
    case inside => exact fun r hr ha hsign hlength => inside_spec hcond hr ha hsign hlength
    case outside => exact outside_spec

def holding (r : Reply) : Session Reply where
  priv := some ⟨none, ⟨some 0, ⟨0, 0⟩, 0, 0, fun _ => none, some r⟩⟩
  log := []
  commandsError _ := 0
  trace := []

def lengths : Reply := .array [.string (bytes "a"), .nil]

theorem lengths_allocated : Allocated (holding lengths) := by
  intro r hr
  obtain rfl : lengths = r := Option.some.inj hr
  decide

theorem arrayReplies_documented_lengths : DocumentedView 0 (holding lengths) (BitVec.ofInt 64 (-1)) ∧
    DocumentedView 0 (holding lengths) 0 ∧ vmodDbGetArrayReplyValue 0 (holding lengths) 0 true = some (bytes "a") ∧
    vmodDbArrayReplyIsString 0 (holding lengths) 0 = true ∧ vmodDbArrayReplyIsNil 0 (holding lengths) 1 = true := by
  have hkind : ∀ r, held 0 (holding lengths) = some r → ¬ (replyType r = .map ∨ replyType r = .set) := by
    intro r hr
    obtain rfl : lengths = r := Option.some.inj hr
    decide
  refine ⟨(arrayReplies_documented lengths_allocated _).mpr ?_, (arrayReplies_documented lengths_allocated _).mpr ?_,
    by decide, by decide, by decide⟩
  · exact fun r e hr hk _ _ => absurd hk (hkind r hr)
  · exact fun r e hr hk _ _ => absurd hk (hkind r hr)

theorem map_elements_untested : ¬ ∀ (db : DbId) (s : Session Reply) (index : BitVec 64), Allocated s →
    DocumentedView db s index := by
  intro h
  have hview := h 0 (holding (.map [.string (bytes "field"), .string (bytes "value")])) 0 (by
    intro r hr
    obtain rfl : Reply.map [.string (bytes "field"), .string (bytes "value")] = r := Option.some.inj hr
    decide)
  obtain ⟨e, he, htests, -⟩ := hview.inside _ rfl rfl (by decide) (by decide)
  obtain rfl : Reply.string (bytes "field") = e := Option.some.inj he
  exact Bool.false_ne_true (htests .string)

end VmodRedis.TaskCommands
