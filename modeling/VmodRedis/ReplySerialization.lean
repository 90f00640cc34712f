import VmodRedis.Lib.Json
import VmodRedis.TaskReplies

namespace VmodRedis.ReplySerialization

open CStrings Json
open TaskCommands (signedDecimal)

/-- A `redisReply *`: no reply at all, or the fields of it that are printed; `len` is the length of `str`. -/
inductive RedisReply where
  | null
  | status (str : Bytes)
  | error (str : Bytes)
  | integer (integer : ℤ)
  | nil
  | string (str : Bytes)
  | double (str : Bytes) (dval : Float)
  | bool (integer : ℤ)
  | verb (vtype str : Bytes)
  | bignum (str : Bytes)
  | array (element : List RedisReply)
  | set (element : List RedisReply)
  | push (element : List RedisReply)
  | map (element : List RedisReply)
  | attr (element : List RedisReply)
  | unknown (type : ℤ)

def printedVtype (vtype : Bytes) : Bytes := (cstr vtype).take 3

def annotated (label : String) (text : Bytes) : Bytes := quoted (bytes label ++ text)

def wrapped (key : String) (text : Bytes) : Bytes := 123 :: (quoted (bytes key) ++ (bytes ": " ++ (text ++ [125])))

def arraySeparator (_ : ℕ) : Bytes := bytes ", "

def mapSeparator (i : ℕ) : Bytes := if i % 2 = 1 then bytes ": " else bytes ", "

section

variable (quote : Bytes → Bytes) (format : Float → Bytes)

mutual

/-- `serialize_redis_reply`: `quote` is `VSB_quote` with `VSB_QUOTE_JSON`, and `format` is `%.17g`. -/
def serializeRedisReply : RedisReply → Bytes
  | .null => annotated "(null)" []
  | .status str => annotated "(status) " (quote str)
  | .error str => annotated "(error) " (quote str)
  | .integer integer => annotated "(integer) " (signedDecimal integer)
  | .nil => annotated "(nil)" []
  | .string str => annotated "" (quote str)
  | .double str dval => annotated "(double) " (if 0 < str.length then cstr str else format dval)
  | .bool integer => annotated (if integer ≠ 0 then "(bool) true" else "(bool) false") []
  | .verb vtype str => annotated "(verbatim " (printedVtype vtype ++ (bytes ") " ++ quote str))
  | .bignum str => annotated "(bignum) " (cstr str)
  | .array element => 91 :: (serializeElements arraySeparator 0 element ++ [93])
  | .set element => wrapped "(set)" (91 :: (serializeElements arraySeparator 0 element ++ [93]))
  | .push element => wrapped "(push)" (91 :: (serializeElements arraySeparator 0 element ++ [93]))
  | .map element => 123 :: (serializeElements mapSeparator 0 element ++ [125])
  | .attr element => wrapped "(attr)" (123 :: (serializeElements mapSeparator 0 element ++ [125]))
  | .unknown type => annotated "(unknown type " (signedDecimal type ++ bytes ")")

def serializeElements (separator : ℕ → Bytes) : ℕ → List RedisReply → Bytes
  | _, [] => []
  | i, e :: element =>
    (if 0 < i then separator i else []) ++ (serializeRedisReply e ++ serializeElements separator (i + 1) element)

end

end

mutual

def Built : RedisReply → Prop
  | .double str _ | .bignum str => Plain str
  | .array element | .set element | .push element => BuiltElements element
  | .map element | .attr element => element.length % 2 = 0 ∧ BuiltElements element
  | _ => True

def BuiltElements : List RedisReply → Prop
  | [] => True
  | e :: element => Built e ∧ BuiltElements element

end

inductive Position where
  | whole
  | element
  | key
  | value
  deriving DecidableEq

def arrayPosition (_ : ℕ) : Position := .element

def mapPosition (i : ℕ) : Position := if i % 2 = 1 then .value else .key

mutual

/-- No aggregate is a key, and the type of a verbatim string does not end the string that it is printed in, save
where the two strings that it makes of it are two elements of an array. -/
def Serializable : Position → RedisReply → Prop
  | p, .verb vtype _ => StringBody (printedVtype vtype) ∨ p = .element ∧ printedVtype vtype = [34, 44, 34]
  | p, .array element | p, .set element | p, .push element => p ≠ .key ∧ SerializableElements arrayPosition 0 element
  | p, .map element | p, .attr element => p ≠ .key ∧ SerializableElements mapPosition 0 element
  | _, _ => True

def SerializableElements (position : ℕ → Position) : ℕ → List RedisReply → Prop
  | _, [] => True
  | i, e :: element => Serializable (position i) e ∧ SerializableElements position (i + 1) element

end

def RedisReply.element : RedisReply → List RedisReply
  | .array element | .set element | .push element | .map element | .attr element => element
  | _ => []

theorem sizeOf_lt_of_mem {t e : RedisReply} (he : e ∈ t.element) : sizeOf e < sizeOf t := by
  cases t with
  | array element | set element | push element | map element | attr element =>
    rw [RedisReply.element] at he
    have := List.sizeOf_lt_of_mem he
    simp only [RedisReply.array.sizeOf_spec, RedisReply.set.sizeOf_spec, RedisReply.push.sizeOf_spec,
      RedisReply.map.sizeOf_spec, RedisReply.attr.sizeOf_spec]
    omega
  | _ => exact absurd he List.not_mem_nil

theorem RedisReply.induction {P : RedisReply → Prop} (h : ∀ t, (∀ e ∈ t.element, P e) → P t) (t : RedisReply) : P t := by
  induction hn : sizeOf t using Nat.strongRecOn generalizing t with
  | ind n ih => exact h t fun e he => ih (sizeOf e) (hn ▸ sizeOf_lt_of_mem he) e rfl

theorem builtElements_iff {element : List RedisReply} : BuiltElements element ↔ ∀ e ∈ element, Built e := by
  induction element with
  | nil => simp [BuiltElements]
  | cons e element ih => rw [BuiltElements, ih, List.forall_mem_cons]

theorem Built.element {t : RedisReply} (h : Built t) : ∀ e ∈ t.element, Built e := by
  cases t with
  | array element | set element | push element => exact builtElements_iff.mp h
  | map element | attr element => exact builtElements_iff.mp h.2
  | _ => exact fun e he => absurd he List.not_mem_nil

def flattened (pairs : List (RedisReply × RedisReply)) : List RedisReply := pairs.flatMap fun x => [x.1, x.2]

theorem exists_pairs {element : List RedisReply} (h : element.length % 2 = 0) :
    ∃ pairs, element = flattened pairs := by
  induction hn : element.length using Nat.strongRecOn generalizing element with
  | ind n ih =>
    match element with
    | [] => exact ⟨[], rfl⟩
    | [_] => cases h
    | k :: v :: rest =>
      simp only [List.length_cons] at h hn
      obtain ⟨pairs, rfl⟩ := ih rest.length (by omega) (by omega) rfl
      exact ⟨(k, v) :: pairs, rfl⟩

section

variable (quote : Bytes → Bytes) (format : Float → Bytes)

def serializePair (pair : RedisReply × RedisReply) : Bytes :=
  serializeRedisReply quote format pair.1 ++ (bytes ": " ++ serializeRedisReply quote format pair.2)

theorem serializeElements_array (element : List RedisReply) :
    serializeElements quote format arraySeparator 0 element =
      [44, 32].intercalate (element.map (serializeRedisReply quote format)) :=
  eq_intercalate (fun _ => rfl) (fun _ _ _ => rfl) element

theorem serializeElements_map (pairs : List (RedisReply × RedisReply)) :
    serializeElements quote format mapSeparator 0 (flattened pairs) =
      [44, 32].intercalate (pairs.map (serializePair quote format)) := by
  refine eq_intercalate (g := fun j pairs => serializeElements quote format mapSeparator (2 * j) (flattened pairs))
    (fun _ => rfl) (fun j pair pairs => ?_) pairs
  have hflattened : flattened (pair :: pairs) = pair.1 :: pair.2 :: flattened pairs := rfl
  have hfirst : (if 0 < 2 * j then mapSeparator (2 * j) else []) = if 0 < j then [44, 32] else [] :=
    if_congr (by omega) (if_neg (by omega)) rfl
  have hsecond : mapSeparator (2 * j + 1) = bytes ": " := if_pos (by omega)
  rw [hflattened, serializeElements, serializeElements, if_pos (Nat.succ_pos (2 * j)), hfirst, hsecond, serializePair]
  simp only [List.append_assoc]
  rfl

end

theorem serializableElements_array (i : ℕ) (element : List RedisReply) :
    SerializableElements arrayPosition i element ↔ ∀ e ∈ element, Serializable .element e := by
  induction element generalizing i with
  | nil => simp [SerializableElements]
  | cons e element ih => rw [SerializableElements, ih, List.forall_mem_cons, arrayPosition]

theorem serializableElements_map (j : ℕ) (pairs : List (RedisReply × RedisReply)) :
    SerializableElements mapPosition (2 * j) (flattened pairs) ↔
      ∀ pair ∈ pairs, Serializable .key pair.1 ∧ Serializable .value pair.2 := by
  induction pairs generalizing j with
  | nil => simp [flattened, SerializableElements]
  | cons pair pairs ih =>
    have hflattened : flattened (pair :: pairs) = pair.1 :: pair.2 :: flattened pairs := rfl
    have hkey : mapPosition (2 * j) = .key := if_neg (by omega)
    have hvalue : mapPosition (2 * j + 1) = .value := if_pos (by omega)
    have hrest := ih (j + 1)
    rw [hflattened, SerializableElements, SerializableElements, hkey, hvalue, List.forall_mem_cons, ← hrest, and_assoc]
    rfl

def Placed : Position → Bytes → Prop
  | .whole, text | .value, text => Value text
  | .element, text => Derives .elements text
  | .key, text => ∃ body, StringBody body ∧ text = quoted body

theorem placed_quoted (p : Position) {body : Bytes} (h : StringBody body) : Placed p (quoted body) := by
  have hvalue : Value (quoted body) := .string h
  cases p with
  | whole | value => exact hvalue
  | element => exact hvalue.one
  | key => exact ⟨body, h, rfl⟩

theorem placed_value {p : Position} (hp : p ≠ .key) {text : Bytes} (h : Value text) : Placed p text := by
  cases p with
  | whole | value => exact h
  | element => exact h.one
  | key => exact absurd rfl hp

theorem placed_annotated (p : Position) {label : String} {text : Bytes} (hlabel : Plain (bytes label))
    (h : StringBody text) : Placed p (annotated label text) :=
  placed_quoted p ((StringBody.of_plain hlabel).append h)

theorem value_wrapped {key : String} {text : Bytes} (hkey : Plain (bytes key)) (h : Value text) :
    Value (wrapped key text) := by
  have hmember : Derives .member (quoted (bytes key) ++ (58 :: 32 :: text)) :=
    .member blank_nil (.of_plain hkey) blank_nil (h.bare.element_cons rfl)
  have hobject : Value _ := .object (.lastMember hmember)
  rw [List.append_assoc] at hobject
  exact hobject

theorem value_joined_array {texts : List Bytes} (h : ∀ text ∈ texts, Placed .element text) :
    Value (91 :: ([44, 32].intercalate texts ++ [93])) := by
  by_cases hne : texts = []
  · rw [hne, List.intercalate_nil]
    exact .emptyArray blank_nil
  · exact .array (elements_intercalate hne h)

theorem value_joined_map {texts : List Bytes} (h : ∀ text ∈ texts, Derives .member text) :
    Value (123 :: ([44, 32].intercalate texts ++ [125])) := by
  by_cases hne : texts = []
  · rw [hne, List.intercalate_nil]
    exact .emptyObject blank_nil
  · exact .object (members_intercalate hne h)

theorem member_of_placed {key value : Bytes} (hkey : Placed .key key) (hvalue : Placed .value value) :
    Derives .member (key ++ (bytes ": " ++ value)) := by
  obtain ⟨body, hbody, rfl⟩ := hkey
  have h : Derives .value value := hvalue
  exact .member blank_nil hbody blank_nil (h.bare.element_cons rfl)

theorem isPlain_of_isdigit {c : UInt8} (h : isdigit c = true) : isPlain c = true := by
  rw [isdigit_iff] at h
  simp only [isPlain, decide_eq_true_eq, UInt8.le_iff_toNat_le, ne_eq, ← UInt8.toNat_inj, UInt8.toNat_ofNat]
  omega

theorem plain_signedDecimal (n : ℤ) : Plain (signedDecimal n) := by
  have hdecimal : Plain (decimal n.natAbs) := fun c hc => isPlain_of_isdigit ((isDigits_decimal _).2 c hc)
  unfold signedDecimal
  split_ifs
  · exact List.forall_mem_cons.mpr ⟨rfl, hdecimal⟩
  · exact hdecimal

theorem cstr_of_plain {s : Bytes} (h : Plain s) : cstr s = s :=
  cstr_of_not_mem fun hm => absurd (h 0 hm) (by decide)

section

variable {quote : Bytes → Bytes} {format : Float → Bytes}

theorem value_array {element : List RedisReply}
    (hplaced : ∀ e ∈ element, ∀ p, Serializable p e → Placed p (serializeRedisReply quote format e))
    (h : SerializableElements arrayPosition 0 element) :
    Value (91 :: (serializeElements quote format arraySeparator 0 element ++ [93])) := by
  rw [serializableElements_array] at h
  rw [serializeElements_array]
  exact value_joined_array (List.forall_mem_map.mpr fun e he => hplaced e he .element (h e he))

theorem mem_flattened {pairs : List (RedisReply × RedisReply)} {pair : RedisReply × RedisReply} (h : pair ∈ pairs) :
    pair.1 ∈ flattened pairs ∧ pair.2 ∈ flattened pairs :=
  ⟨List.mem_flatMap.mpr ⟨pair, h, by simp⟩, List.mem_flatMap.mpr ⟨pair, h, by simp⟩⟩

theorem value_map {element : List RedisReply} (heven : element.length % 2 = 0)
    (hplaced : ∀ e ∈ element, ∀ p, Serializable p e → Placed p (serializeRedisReply quote format e))
    (h : SerializableElements mapPosition 0 element) :
    Value (123 :: (serializeElements quote format mapSeparator 0 element ++ [125])) := by
  obtain ⟨pairs, rfl⟩ := exists_pairs heven
  have hpairs := (serializableElements_map 0 pairs).mp h
  rw [serializeElements_map]
  refine value_joined_map (List.forall_mem_map.mpr fun pair hpair => member_of_placed ?_ ?_)
  · exact hplaced pair.1 (mem_flattened hpair).1 .key (hpairs pair hpair).1
  · exact hplaced pair.2 (mem_flattened hpair).2 .value (hpairs pair hpair).2

variable (hquote : ∀ s, StringBody (quote s)) (hformat : ∀ x, Plain (format x))

include hquote hformat

theorem placed_of_serializable (t : RedisReply) : ∀ p, Built t → Serializable p t →
    Placed p (serializeRedisReply quote format t) := by
  induction t using RedisReply.induction with
  | h t ih =>
    intro p hbuilt h
    have hplaced : ∀ e ∈ t.element, ∀ p, Serializable p e → Placed p (serializeRedisReply quote format e) :=
      fun e he p => ih e he p (hbuilt.element e he)
    cases t with
    | null => exact placed_annotated p (by decide) .nil
    | status str => exact placed_annotated p (by decide) (hquote str)
    | error str => exact placed_annotated p (by decide) (hquote str)
    | integer integer => exact placed_annotated p (by decide) (.of_plain (plain_signedDecimal integer))
    | nil => exact placed_annotated p (by decide) .nil
    | string str => exact placed_annotated p (by decide) (hquote str)
    | double str dval =>
      have hstr : Plain str := hbuilt
      refine placed_annotated p (by decide) (.of_plain ?_)
      split_ifs
      · rwa [cstr_of_plain hstr]
      · exact hformat dval
    | bool integer =>
      rw [serializeRedisReply]
      split_ifs
      · exact placed_annotated p (by decide) .nil
      · exact placed_annotated p (by decide) .nil
    | verb vtype str =>
      have hrest : StringBody (bytes ") " ++ quote str) := (StringBody.of_plain (by decide)).append (hquote str)
      rcases h with h | ⟨rfl, h⟩
      · exact placed_annotated p (by decide) (h.append hrest)
      · have hfirst : Derives .elements (quoted (bytes "(verbatim ")) := (Derives.string (.of_plain (by decide))).one
        have hsecond : Derives .elements (quoted (bytes ") " ++ quote str)) := (Derives.string hrest).one
        rw [serializeRedisReply, h]
        exact hfirst.elements_append hsecond
    | bignum str =>
      have hstr : Plain str := hbuilt
      exact placed_annotated p (by decide) (.of_plain (by rwa [cstr_of_plain hstr]))
    | array element => exact placed_value h.1 (value_array hplaced h.2)
    | set element => exact placed_value h.1 (value_wrapped (by decide) (value_array hplaced h.2))
    | push element => exact placed_value h.1 (value_wrapped (by decide) (value_array hplaced h.2))
    | map element => exact placed_value h.1 (value_map hbuilt.1 hplaced h.2)
    | attr element => exact placed_value h.1 (value_wrapped (by decide) (value_map hbuilt.1 hplaced h.2))
    | unknown type =>
      have hbracket : Plain (bytes ")") := by decide
      have hrest : Plain (signedDecimal type ++ bytes ")") :=
        List.forall_mem_append.mpr ⟨plain_signedDecimal type, hbracket⟩
      exact placed_annotated p (by decide) (.of_plain hrest)

end

end VmodRedis.ReplySerialization
