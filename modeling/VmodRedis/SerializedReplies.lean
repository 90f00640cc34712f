import VmodRedis.ReplySerialization

namespace VmodRedis.ReplySerialization

open CStrings Json

def Position.stack (st : List Context) : Position → List Context
  | .whole => []
  | .element => .array :: st
  | .key | .value => .object :: st

def Position.start (st : List Context) (p : Position) : State := ⟨if p = .key then .key else .value, p.stack st⟩

def Position.finish (st : List Context) (p : Position) : State := ⟨closing (p = .key), p.stack st⟩

def Astray (p : Position) (σ : State) : Prop := p = .key ∧ σ.mode = .after ∨ p = .value ∧ σ.mode = .colon

theorem run_of_placed {p : Position} {text : Bytes} (h : Placed p text) (st : List Context) :
    run (p.start st) text = some (p.finish st) := by
  cases p with
  | whole => exact Value.run_eq h
  | element => exact run_of_derives h st
  | key =>
    obtain ⟨body, hbody, rfl⟩ := h
    exact run_quoted_key hbody
  | value => exact run_of_derives h (.object :: st)

theorem Astray.stuck {σ : State} (h : Astray .value σ) : step σ 44 = none ∧ step σ 125 = none := by
  rcases h with ⟨he, -⟩ | ⟨-, h⟩
  · cases he
  · simp [step, h, isSpace]

theorem Astray.no_colon {σ : State} (h : Astray .key σ) : step σ 58 = none := by
  rcases h with ⟨-, h⟩ | ⟨he, -⟩
  · simp [step, h, isSpace, isWord, isDigit]
  · cases he

theorem not_key_of_run {p : Position} {st : List Context} {c : UInt8} {s : Bytes} {τ : State} (hc : c = 91 ∨ c = 123)
    (h : run (p.start st) (c :: s) = some τ) : p ≠ .key ∧ run ⟨.value, p.stack st⟩ (c :: s) = some τ := by
  have hp : p ≠ .key := by
    rintro rfl
    rcases hc with rfl | rfl <;> cases h
  rw [Position.start, if_neg hp] at h
  exact ⟨hp, h⟩

theorem run_wrapped {key : String} {text : Bytes} {st : List Context} {τ : State} (hkey : Plain (bytes key))
    (h : run ⟨.value, st⟩ (wrapped key text) = some τ) : ∃ ρ, run ⟨.value, .object :: st⟩ text = some ρ := by
  rw [wrapped, run_cons_of_step rfl, run_append_of_run (run_quoted_key (.of_plain hkey)), run_append_of_run rfl,
    run_append, Option.bind_eq_some_iff] at h
  obtain ⟨ρ, hρ, -⟩ := h
  exact ⟨ρ, hρ⟩

theorem body_of_step_bracket {σ τ : State} (h : step σ 41 = some τ) : ∃ j, σ.mode = .body j := by
  cases hmode : σ.mode with
  | body j => exact ⟨j, rfl⟩
  | _ => simp [step, hmode, isSpace, isWord, isDigit, isEscape, isHex] at h

theorem run_start_quoted (p : Position) (st : List Context) (s : Bytes) :
    run (p.start st) (quoted s) = run ⟨.body (p = .key), p.stack st⟩ (s ++ [34]) := by
  cases p <;> rfl

section

variable {quote : Bytes → Bytes} {format : Float → Bytes}

theorem serializable_of_run_array {element : List RedisReply} {st : List Context} {τ : State}
    (hpieces : ∀ e ∈ element, ∀ p st ρ, run (p.start st) (serializeRedisReply quote format e) = some ρ →
      Serializable p e ∧ ρ = p.finish st ∨ Astray p ρ)
    (h : run ⟨.value, st⟩ (91 :: (serializeElements quote format arraySeparator 0 element ++ [93])) = some τ) :
    SerializableElements arrayPosition 0 element := by
  rw [serializableElements_array]
  rw [run_cons_of_step rfl, serializeElements_array] at h
  have hcomma : run (Position.finish st .element) [44, 32] = some ⟨.value, .array :: st⟩ := rfl
  refine good_of_run_intercalate hcomma (fun e he ρ hρ => ?_) h
  rcases hpieces e he .element st ρ hρ with hgood | ⟨hp, -⟩ | ⟨hp, -⟩
  · exact Or.inl hgood
  · cases hp
  · cases hp

theorem serializable_of_run_map {element : List RedisReply} (heven : element.length % 2 = 0) {st : List Context} {τ : State}
    (hpieces : ∀ e ∈ element, ∀ p st ρ, run (p.start st) (serializeRedisReply quote format e) = some ρ →
      Serializable p e ∧ ρ = p.finish st ∨ Astray p ρ)
    (h : run ⟨.value, st⟩ (123 :: (serializeElements quote format mapSeparator 0 element ++ [125])) = some τ) :
    SerializableElements mapPosition 0 element := by
  obtain ⟨pairs, rfl⟩ := exists_pairs heven
  have hpairs := serializableElements_map 0 pairs
  rw [Nat.mul_zero] at hpairs
  rw [hpairs]
  rw [run_cons_of_step rfl, serializeElements_map] at h
  have hcomma : run (Position.finish st .value) [44, 32] = some ⟨.key, .object :: st⟩ := rfl
  refine good_of_run_intercalate hcomma (fun pair hpair ρ hρ => ?_) h
  rw [serializePair, run_append, Option.bind_eq_some_iff] at hρ
  obtain ⟨ρ', hkey, hρ⟩ := hρ
  rcases hpieces pair.1 (mem_flattened hpair).1 .key st ρ' hkey with ⟨hfirst, rfl⟩ | hastray
  · rw [run_append_of_run (τ := Position.start st .value) rfl] at hρ
    rcases hpieces pair.2 (mem_flattened hpair).2 .value st ρ hρ with ⟨hsecond, hfinish⟩ | hastray
    · exact Or.inl ⟨⟨hfirst, hsecond⟩, hfinish⟩
    · exact Or.inr hastray.stuck
  · obtain ⟨ρ'', hcolon, -⟩ := run_cons_eq_some.mp hρ
    cases hastray.no_colon.symm.trans hcolon

variable (hquote : ∀ s, StringBody (quote s))

include hquote

/-- The type of a verbatim string is a piece of the string, or it makes two strings of it. -/
theorem serializable_or_astray_verb {vtype str : Bytes} {p : Position} {st : List Context} {τ : State}
    (h : run (p.start st) (serializeRedisReply quote format (.verb vtype str)) = some τ) :
    Serializable p (.verb vtype str) ∨ Astray p τ := by
  have hrest : StringBody (bytes ") " ++ quote str) := (StringBody.of_plain (by decide)).append (hquote str)
  have hend : ∀ {j : Bool} {st : List Context}, run ⟨.body j, st⟩ ((bytes ") " ++ quote str) ++ [34]) =
      some ⟨closing j, st⟩ := fun {j st} => run_append_of_run (run_stringBody hrest)
  rw [serializeRedisReply, annotated, run_start_quoted, List.append_assoc,
    run_append_of_run (run_stringBody (.of_plain (by decide))), List.append_assoc, run_append,
    Option.bind_eq_some_iff] at h
  obtain ⟨⟨mode, stack⟩, hvtype, hafter⟩ := h
  -- The byte after the type is accepted within a string only.
  obtain ⟨ρ, hbracket, -⟩ := run_cons_eq_some.mp hafter
  obtain ⟨j, rfl⟩ : ∃ j, mode = .body j := body_of_step_bracket hbracket
  obtain rfl := Option.some.inj (hend.symm.trans hafter)
  have hlength : (printedVtype vtype).length ≤ 3 := List.length_take_le 3 (cstr vtype)
  rcases run_short_inv hlength hvtype rfl with hbody | htwo | htwo
  · exact Or.inl (Or.inl hbody)
  · rw [htwo] at hvtype
    cases p with
    | whole => cases hvtype
    | element => exact Or.inl (Or.inr ⟨rfl, htwo⟩)
    | key => cases hvtype
    | value =>
      cases hvtype
      exact Or.inr (Or.inr ⟨rfl, rfl⟩)
  · rw [htwo] at hvtype
    cases p with
    | whole | element | value => cases hvtype
    | key =>
      cases hvtype
      exact Or.inr (Or.inl ⟨rfl, rfl⟩)

variable (hformat : ∀ x, Plain (format x))

include hformat

theorem serializable_or_astray (t : RedisReply) : ∀ p st τ, Built t →
    run (p.start st) (serializeRedisReply quote format t) = some τ → Serializable p t ∨ Astray p τ := by
  induction t using RedisReply.induction with
  | h t ih =>
    intro p st τ hbuilt h
    have hpieces : ∀ e ∈ t.element, ∀ p st ρ, run (p.start st) (serializeRedisReply quote format e) = some ρ →
        Serializable p e ∧ ρ = p.finish st ∨ Astray p ρ := by
      intro e he p st ρ hρ
      have hbuilt := hbuilt.element e he
      rcases ih e he p st ρ hbuilt hρ with hgood | hastray
      · have hplaced := placed_of_serializable hquote hformat e p hbuilt hgood
        exact Or.inl ⟨hgood, Option.some.inj (hρ.symm.trans (run_of_placed hplaced st))⟩
      · exact Or.inr hastray
    cases t with
    | verb vtype str => exact serializable_or_astray_verb hquote h
    | array element =>
      obtain ⟨hp, h⟩ := not_key_of_run (Or.inl rfl) h
      exact Or.inl ⟨hp, serializable_of_run_array hpieces h⟩
    | set element | push element =>
      obtain ⟨hp, h⟩ := not_key_of_run (Or.inr rfl) h
      obtain ⟨ρ, hρ⟩ := run_wrapped (by decide) h
      exact Or.inl ⟨hp, serializable_of_run_array hpieces hρ⟩
    | map element =>
      obtain ⟨hp, h⟩ := not_key_of_run (Or.inr rfl) h
      exact Or.inl ⟨hp, serializable_of_run_map hbuilt.1 hpieces h⟩
    | attr element =>
      obtain ⟨hp, h⟩ := not_key_of_run (Or.inr rfl) h
      obtain ⟨ρ, hρ⟩ := run_wrapped (by decide) h
      exact Or.inl ⟨hp, serializable_of_run_map hbuilt.1 hpieces hρ⟩
    | _ => exact Or.inl trivial

end

theorem serializeRedisReply_value_iff (quote : Bytes → Bytes) (format : Float → Bytes)
    (hquote : ∀ s, StringBody (quote s)) (hformat : ∀ x, Plain (format x)) (t : RedisReply) (ht : Built t) :
    Value (serializeRedisReply quote format t) ↔ Serializable .whole t := by
  constructor
  · intro h
    rcases serializable_or_astray hquote hformat t .whole [] _ ht h.run_eq with hgood | ⟨hp, -⟩ | ⟨hp, -⟩
    · exact hgood
    · cases hp
    · cases hp
  · exact placed_of_serializable hquote hformat t .whole ht

def nested : RedisReply :=
  .map [.string (bytes "a\"b"), .array [.verb (bytes "txt") (bytes "text"), .null, .double [] 0.5]]

theorem serializeRedisReply_value_nested :
    Value (serializeRedisReply escaped (fun _ => bytes "0.5") nested) ∧ Serializable .whole nested := by
  have hvtype : Serializable .element (.verb (bytes "txt") (bytes "text")) := Or.inl (.of_plain (by decide))
  have hnested : Serializable .whole nested :=
    ⟨by decide, trivial, ⟨by decide, hvtype, trivial, trivial, trivial⟩, trivial⟩
  have hstr : Plain [] := by decide
  have hbuilt : Built nested := ⟨rfl, trivial, ⟨trivial, trivial, hstr, trivial⟩, trivial⟩
  have hiff := serializeRedisReply_value_iff escaped (fun _ => bytes "0.5") stringBody_escaped (fun _ => by decide) nested
    hbuilt
  exact ⟨hiff.mpr hnested, hnested⟩

theorem serializeRedisReply_malformed :
    (Built (.verb (bytes "\"ab") (bytes "text")) ∧
      ¬ Value (serializeRedisReply escaped (fun _ => bytes "0.5") (.verb (bytes "\"ab") (bytes "text")))) ∧
    Built (.map [.array [], .nil]) ∧
      ¬ Value (serializeRedisReply escaped (fun _ => bytes "0.5") (.map [.array [], .nil])) := by
  refine ⟨⟨trivial, fun h => ?_⟩, ⟨rfl, trivial, trivial, trivial⟩, fun h => ?_⟩
  · exact absurd h.run_eq (by decide +kernel)
  · exact absurd h.run_eq (by decide +kernel)

end VmodRedis.ReplySerialization
