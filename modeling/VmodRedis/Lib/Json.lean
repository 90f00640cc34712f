import Mathlib.Data.List.Basic

/-!
JSON texts as bytes: their grammar, and a pushdown recognizer that accepts every well-formed text, which shows that
a text is not one.
-/

namespace VmodRedis.Json

def isSpace (c : UInt8) : Bool := c = 32 ∨ c = 9 ∨ c = 10 ∨ c = 13

def isDigit (c : UInt8) : Bool := 48 ≤ c ∧ c ≤ 57

def isHex (c : UInt8) : Bool := isDigit c ∨ (65 ≤ c ∧ c ≤ 70) ∨ (97 ≤ c ∧ c ≤ 102)

def isPlain (c : UInt8) : Bool := 32 ≤ c ∧ c ≠ 34 ∧ c ≠ 92

def isEscape (c : UInt8) : Bool := c ∈ [34, 92, 47, 98, 102, 110, 114, 116]

def Blank (s : List UInt8) : Prop := ∀ c ∈ s, isSpace c = true

def Plain (s : List UInt8) : Prop := ∀ c ∈ s, isPlain c = true

instance (s : List UInt8) : Decidable (Plain s) := List.decidableBAll (isPlain · = true) s

inductive StringBody : List UInt8 → Prop where
  | nil : StringBody []
  | plain {c : UInt8} {s : List UInt8} (hc : isPlain c = true) (hs : StringBody s) : StringBody (c :: s)
  | escape {c : UInt8} {s : List UInt8} (hc : isEscape c = true) (hs : StringBody s) : StringBody (92 :: c :: s)
  | unicode {u s : List UInt8} (hu : u.length = 4) (hex : ∀ c ∈ u, isHex c = true) (hs : StringBody s) :
      StringBody (92 :: 117 :: (u ++ s))

def Digits (s : List UInt8) : Prop := s ≠ [] ∧ ∀ c ∈ s, isDigit c = true

def Fraction (s : List UInt8) : Prop := s = [] ∨ ∃ t, Digits t ∧ s = 46 :: t

def Exponent (s : List UInt8) : Prop :=
  s = [] ∨ ∃ e ∈ [69, 101], ∃ sign ∈ [[], [43], [45]], ∃ t, Digits t ∧ s = e :: (sign ++ t)

def Number (s : List UInt8) : Prop :=
  ∃ sign ∈ [[], [45]], ∃ i f e, Digits i ∧ (i.head? = some 48 → i = [48]) ∧ Fraction f ∧ Exponent e ∧
    s = sign ++ (i ++ (f ++ e))

inductive Symbol where
  | value
  | element
  | elements
  | member
  | members

def quoted (s : List UInt8) : List UInt8 := 34 :: (s ++ [34])

inductive Derives : Symbol → List UInt8 → Prop where
  | word {s : List UInt8} (hs : s ∈ [[110, 117, 108, 108], [116, 114, 117, 101], [102, 97, 108, 115, 101]]) :
      Derives .value s
  | number {s : List UInt8} (hs : Number s) : Derives .value s
  | string {s : List UInt8} (hs : StringBody s) : Derives .value (quoted s)
  | emptyArray {s : List UInt8} (hs : Blank s) : Derives .value (91 :: (s ++ [93]))
  | array {s : List UInt8} (hs : Derives .elements s) : Derives .value (91 :: (s ++ [93]))
  | emptyObject {s : List UInt8} (hs : Blank s) : Derives .value (123 :: (s ++ [125]))
  | object {s : List UInt8} (hs : Derives .members s) : Derives .value (123 :: (s ++ [125]))
  | element {u s v : List UInt8} (hu : Blank u) (hs : Derives .value s) (hv : Blank v) : Derives .element (u ++ (s ++ v))
  | lastElement {s : List UInt8} (hs : Derives .element s) : Derives .elements s
  | nextElement {s t : List UInt8} (hs : Derives .element s) (ht : Derives .elements t) :
      Derives .elements (s ++ 44 :: t)
  | member {u s v t : List UInt8} (hu : Blank u) (hs : StringBody s) (hv : Blank v) (ht : Derives .element t) :
      Derives .member (u ++ (quoted s ++ (v ++ 58 :: t)))
  | lastMember {s : List UInt8} (hs : Derives .member s) : Derives .members s
  | nextMember {s t : List UInt8} (hs : Derives .member s) (ht : Derives .members t) : Derives .members (s ++ 44 :: t)

def Value : List UInt8 → Prop := Derives .value

variable {s t : List UInt8} {c : UInt8}

theorem StringBody.append (hs : StringBody s) (ht : StringBody t) : StringBody (s ++ t) := by
  induction hs with
  | nil => exact ht
  | plain hc _ ih => exact .plain hc ih
  | escape hc _ ih => exact .escape hc ih
  | @unicode u s hu hex _ ih =>
    rw [List.cons_append, List.cons_append, List.append_assoc]
    exact .unicode hu hex ih

theorem StringBody.of_plain (hs : Plain s) : StringBody s := by
  induction s with
  | nil => exact .nil
  | cons c s ih => exact .plain (hs c List.mem_cons_self) (ih fun x hx => hs x (List.mem_cons_of_mem c hx))

def hexDigit (n : ℕ) : UInt8 := UInt8.ofNat (if n < 10 then 48 + n else 87 + n)

def escapedByte (c : UInt8) : List UInt8 :=
  if isPlain c then [c]
  else if isEscape c then [92, c]
  else 92 :: 117 :: [48, 48, hexDigit (c.toNat / 16), hexDigit (c.toNat % 16)]

def escaped (s : List UInt8) : List UInt8 := s.flatMap escapedByte

theorem isHex_hexDigit {n : ℕ} (h : n < 16) : isHex (hexDigit n) = true := by
  have hall : ∀ d < 16, isHex (hexDigit d) = true := by decide
  exact hall n h

theorem stringBody_escaped (s : List UInt8) : StringBody (escaped s) := by
  induction s with
  | nil => exact .nil
  | cons c s ih =>
    rw [escaped, List.flatMap_cons, escapedByte]
    split_ifs with hplain hescape
    · exact .plain hplain ih
    · exact .escape hescape ih
    · have hlt := c.toNat_lt
      have hhex : ∀ x ∈ [48, 48, hexDigit (c.toNat / 16), hexDigit (c.toNat % 16)], isHex x = true := by
        have hhigh := isHex_hexDigit (n := c.toNat / 16) (by omega)
        have hlow := isHex_hexDigit (n := c.toNat % 16) (by omega)
        simp [hhigh, hlow, show isHex 48 = true from rfl]
      exact .unicode rfl hhex ih

theorem blank_nil : Blank [] := fun _ h => absurd h List.not_mem_nil

theorem Derives.bare (hs : Derives .value s) : Derives .element s := by
  simpa using Derives.element blank_nil hs blank_nil

theorem Derives.one (hs : Derives .value s) : Derives .elements s := .lastElement hs.bare

theorem blank_cons (hc : isSpace c = true) (hs : Blank s) : Blank (c :: s) := List.forall_mem_cons.mpr ⟨hc, hs⟩

theorem Derives.element_cons (hc : isSpace c = true) (hs : Derives .element s) : Derives .element (c :: s) := by
  cases hs with
  | element hu hs hv => exact .element (blank_cons hc hu) hs hv

theorem Derives.elements_cons (hc : isSpace c = true) (hs : Derives .elements s) : Derives .elements (c :: s) := by
  cases hs with
  | lastElement hs => exact .lastElement (hs.element_cons hc)
  | nextElement hs ht => exact .nextElement (hs.element_cons hc) ht

theorem Derives.elements_append (hs : Derives .elements s) (ht : Derives .elements t) :
    Derives .elements (s ++ 44 :: t) := by
  generalize hk : Symbol.elements = k at hs
  induction hs with
  | lastElement hs => exact .nextElement hs ht
  | nextElement hs _ _ ih =>
    rw [List.append_assoc, List.cons_append]
    exact .nextElement hs (ih hk)
  | _ => cases hk

theorem Derives.member_cons (hc : isSpace c = true) (hs : Derives .member s) : Derives .member (c :: s) := by
  cases hs with
  | member hu hs hv ht => exact .member (blank_cons hc hu) hs hv ht

theorem Derives.members_cons (hc : isSpace c = true) (hs : Derives .members s) : Derives .members (c :: s) := by
  cases hs with
  | lastMember hs => exact .lastMember (hs.member_cons hc)
  | nextMember hs ht => exact .nextMember (hs.member_cons hc) ht

theorem joined_intercalate {Piece Joined : List UInt8 → Prop} (hlast : ∀ {s}, Piece s → Joined s)
    (hnext : ∀ {s t}, Piece s → Joined t → Joined (s ++ 44 :: 32 :: t)) {ss : List (List UInt8)} (hne : ss ≠ [])
    (h : ∀ s ∈ ss, Piece s) : Joined ([44, 32].intercalate ss) := by
  induction ss with
  | nil => exact absurd rfl hne
  | cons s ss ih =>
    obtain ⟨hs, hrest⟩ := List.forall_mem_cons.mp h
    cases ss with
    | nil =>
      rw [List.intercalate_singleton]
      exact hlast hs
    | cons s' ss =>
      rw [List.intercalate_cons_cons, List.append_assoc]
      exact hnext hs (ih (List.cons_ne_nil s' ss) hrest)

theorem elements_intercalate {ss : List (List UInt8)} (hne : ss ≠ []) (h : ∀ s ∈ ss, Derives .elements s) :
    Derives .elements ([44, 32].intercalate ss) :=
  joined_intercalate id (fun hs ht => hs.elements_append (ht.elements_cons rfl)) hne h

theorem members_intercalate {ss : List (List UInt8)} (hne : ss ≠ []) (h : ∀ s ∈ ss, Derives .member s) :
    Derives .members ([44, 32].intercalate ss) :=
  joined_intercalate .lastMember (fun hs ht => .nextMember hs (ht.members_cons rfl)) hne h

theorem eq_intercalate {α : Type} {f : α → List UInt8} {g : ℕ → List α → List UInt8} (hnil : ∀ i, g i [] = [])
    (hcons : ∀ i x xs, g i (x :: xs) = (if 0 < i then [44, 32] else []) ++ (f x ++ g (i + 1) xs)) (xs : List α) :
    g 0 xs = [44, 32].intercalate (xs.map f) := by
  have hlater : ∀ i {x xs}, g (i + 1) (x :: xs) = [44, 32] ++ [44, 32].intercalate ((x :: xs).map f) := by
    intro i x xs
    induction xs generalizing i x with
    | nil =>
      rw [hcons, if_pos (Nat.succ_pos i), hnil, List.append_nil, List.map_singleton, List.intercalate_singleton]
    | cons y xs ih =>
      rw [hcons, if_pos (Nat.succ_pos i), ih]
      simp only [List.map_cons, List.intercalate_cons_cons, List.append_assoc]
  rcases xs with _ | ⟨x, _ | ⟨y, xs⟩⟩
  · exact hnil 0
  · rw [hcons, if_neg (Nat.lt_irrefl 0), hnil, List.append_nil, List.map_singleton, List.intercalate_singleton]
    rfl
  · rw [hcons, if_neg (Nat.lt_irrefl 0), hlater]
    simp only [List.map_cons, List.intercalate_cons_cons, List.append_assoc, List.nil_append]

inductive Context where
  | array
  | object
  deriving DecidableEq

/-- What the recognizer reads next; for a string, whether it is a key. -/
inductive Mode where
  | value
  | key
  | body (k : Bool)
  | escape (k : Bool)
  | hex (left : ℕ) (k : Bool)
  | colon
  | after
  deriving DecidableEq

structure State where
  mode : Mode
  stack : List Context
  deriving DecidableEq

def isWord (c : UInt8) : Bool := isDigit c ∨ (97 ≤ c ∧ c ≤ 122) ∨ c = 69 ∨ c ∈ [43, 45, 46]

def closing (k : Bool) : Mode := if k then .colon else .after

def opening : Context → Mode
  | .array => .value
  | .object => .key

def next : List Context → Option State
  | [] => none
  | x :: stack => some ⟨opening x, x :: stack⟩

def leave (x : Context) : List Context → Option State
  | [] => none
  | y :: stack => if x = y then some ⟨.after, stack⟩ else none

def step (σ : State) (c : UInt8) : Option State :=
  match σ.mode with
  | .value =>
    if isWord c then some ⟨.after, σ.stack⟩
    else if isSpace c then some σ
    else if c = 34 then some ⟨.body false, σ.stack⟩
    else if c = 91 then some ⟨.value, .array :: σ.stack⟩
    else if c = 123 then some ⟨.key, .object :: σ.stack⟩
    else if c = 93 then leave .array σ.stack
    else none
  | .key =>
    if isSpace c then some σ
    else if c = 34 then some ⟨.body true, σ.stack⟩
    else if c = 125 then leave .object σ.stack
    else none
  | .body k =>
    if c = 34 then some ⟨closing k, σ.stack⟩
    else if c = 92 then some ⟨.escape k, σ.stack⟩
    else if isPlain c then some σ
    else none
  | .escape k =>
    if isEscape c then some ⟨.body k, σ.stack⟩
    else if c = 117 then some ⟨.hex 3 k, σ.stack⟩
    else none
  | .hex left k =>
    if isHex c then some ⟨if left = 0 then .body k else .hex (left - 1) k, σ.stack⟩
    else none
  | .colon =>
    if isSpace c then some σ
    else if c = 58 then some ⟨.value, σ.stack⟩
    else none
  | .after =>
    if isSpace c ∨ isWord c then some σ
    else if c = 44 then next σ.stack
    else if c = 93 then leave .array σ.stack
    else if c = 125 then leave .object σ.stack
    else none

def run (σ : State) : List UInt8 → Option State
  | [] => some σ
  | c :: s => (step σ c).bind fun τ => run τ s

variable {σ τ : State} {st : List Context} {k : Bool}

theorem run_cons_of_step (h : step σ c = some τ) : run σ (c :: s) = run τ s := by rw [run, h, Option.bind_some]

theorem run_cons_eq_some {τ : State} : run σ (c :: s) = some τ ↔ ∃ ρ, step σ c = some ρ ∧ run ρ s = some τ :=
  Option.bind_eq_some_iff

theorem run_append (σ : State) (s t : List UInt8) : run σ (s ++ t) = (run σ s).bind fun τ => run τ t := by
  induction s generalizing σ with
  | nil => rfl
  | cons c s ih =>
    rw [List.cons_append, run, run, Option.bind_assoc]
    exact congrArg _ (funext fun τ => ih τ)

theorem run_append_of_run (h : run σ s = some τ) : run σ (s ++ t) = run τ t := by
  rw [run_append, h, Option.bind_some]

theorem run_of_stays (h : ∀ c ∈ s, step σ c = some σ) : run σ s = some σ := by
  induction s with
  | nil => rfl
  | cons c s ih =>
    rw [run_cons_of_step (h c List.mem_cons_self)]
    exact ih fun x hx => h x (List.mem_cons_of_mem c hx)

theorem run_blank (hs : Blank s) (hmode : σ.mode = .value ∨ σ.mode = .key ∨ σ.mode = .colon ∨ σ.mode = .after) :
    run σ s = some σ := by
  apply run_of_stays
  intro c hc
  have hspace := hs c hc
  have hword : isWord c = false := by
    simp only [isSpace, decide_eq_true_eq] at hspace
    rcases hspace with rfl | rfl | rfl | rfl <;> rfl
  rcases hmode with h | h | h | h <;> simp [step, h, hspace, hword]

theorem run_hex {u : List UInt8} (hex : ∀ c ∈ u, isHex c = true) {n : ℕ} (hu : u.length = n + 1) :
    run ⟨.hex n k, st⟩ u = some ⟨.body k, st⟩ := by
  induction n generalizing u with
  | zero =>
    obtain ⟨c, rfl⟩ := List.length_eq_one_iff.mp hu
    simp [run, step, hex c List.mem_cons_self]
  | succ n ih =>
    obtain ⟨c, u, rfl⟩ := List.exists_cons_of_length_eq_add_one hu
    have hrest := ih (fun x hx => hex x (List.mem_cons_of_mem c hx)) (Nat.succ.inj hu)
    have hstep : step ⟨.hex (n + 1) k, st⟩ c = some ⟨.hex n k, st⟩ := by simp [step, hex c List.mem_cons_self]
    rw [run_cons_of_step hstep, hrest]

theorem step_plain (hc : isPlain c = true) : step ⟨.body k, st⟩ c = some ⟨.body k, st⟩ := by
  have h := hc
  simp only [isPlain, decide_eq_true_eq] at h
  simp [step, hc, h]

theorem run_stringBody (hs : StringBody s) : run ⟨.body k, st⟩ s = some ⟨.body k, st⟩ := by
  induction hs with
  | nil => rfl
  | plain hc _ ih => rw [run_cons_of_step (step_plain hc), ih]
  | @escape c s hc _ ih =>
    have hstep : step ⟨.escape k, st⟩ c = some ⟨.body k, st⟩ := by simp [step, hc]
    rw [run_cons_of_step rfl, run_cons_of_step hstep, ih]
  | unicode hu hex _ ih => rw [run_cons_of_step rfl, run_cons_of_step rfl, run_append_of_run (run_hex hex hu), ih]

theorem run_quoted_value (hs : StringBody s) : run ⟨.value, st⟩ (quoted s) = some ⟨.after, st⟩ := by
  rw [quoted, run_cons_of_step rfl, run_append_of_run (run_stringBody hs)]
  rfl

theorem run_quoted_key (hs : StringBody s) : run ⟨.key, st⟩ (quoted s) = some ⟨.colon, st⟩ := by
  rw [quoted, run_cons_of_step rfl, run_append_of_run (run_stringBody hs)]
  rfl

theorem run_word (hne : s ≠ []) (hs : ∀ c ∈ s, isWord c = true) : run ⟨.value, st⟩ s = some ⟨.after, st⟩ := by
  obtain ⟨c, s, rfl⟩ := List.exists_cons_of_ne_nil hne
  have hstep : step ⟨.value, st⟩ c = some ⟨.after, st⟩ := by simp [step, hs c List.mem_cons_self]
  rw [run_cons_of_step hstep]
  apply run_of_stays
  intro x hx
  simp [step, hs x (List.mem_cons_of_mem c hx)]

theorem isWord_of_isDigit (hc : isDigit c = true) : isWord c = true := by simp [isWord, hc]

theorem Digits.isWord (hs : Digits s) : ∀ c ∈ s, isWord c = true := fun c hc => isWord_of_isDigit (hs.2 c hc)

theorem Number.isWord (hs : Number s) : s ≠ [] ∧ ∀ c ∈ s, isWord c = true := by
  obtain ⟨sign, hsign, i, f, e, hi, -, hf, he, rfl⟩ := hs
  have hsignWord : ∀ c ∈ sign, Json.isWord c = true := by
    simp only [List.mem_cons, List.not_mem_nil, or_false] at hsign
    rcases hsign with rfl | rfl <;> exact List.all_eq_true.mp rfl
  have hfWord : ∀ c ∈ f, Json.isWord c = true := by
    rcases hf with rfl | ⟨t, ht, rfl⟩
    · exact fun c hc => absurd hc List.not_mem_nil
    · exact List.forall_mem_cons.mpr ⟨rfl, ht.isWord⟩
  have heWord : ∀ c ∈ e, Json.isWord c = true := by
    rcases he with rfl | ⟨x, hx, sign, hsign, t, ht, rfl⟩
    · exact fun c hc => absurd hc List.not_mem_nil
    · have hxWord : Json.isWord x = true := by
        simp only [List.mem_cons, List.not_mem_nil, or_false] at hx
        rcases hx with rfl | rfl <;> rfl
      have hsignWord : ∀ c ∈ sign, Json.isWord c = true := by
        simp only [List.mem_cons, List.not_mem_nil, or_false] at hsign
        rcases hsign with rfl | rfl | rfl <;> exact List.all_eq_true.mp rfl
      exact List.forall_mem_cons.mpr ⟨hxWord, List.forall_mem_append.mpr ⟨hsignWord, ht.isWord⟩⟩
  refine ⟨by simp [hi.1], ?_⟩
  exact List.forall_mem_append.mpr
    ⟨hsignWord, List.forall_mem_append.mpr ⟨hi.isWord, List.forall_mem_append.mpr ⟨hfWord, heWord⟩⟩⟩

def Symbol.start (st : List Context) : Symbol → State
  | .value | .element => ⟨.value, st⟩
  | .elements => ⟨.value, .array :: st⟩
  | .member | .members => ⟨.key, .object :: st⟩

def Symbol.finish (st : List Context) (symbol : Symbol) : State := ⟨.after, (symbol.start st).stack⟩

theorem run_of_derives {symbol : Symbol} (h : Derives symbol s) (st : List Context) :
    run (symbol.start st) s = some (symbol.finish st) := by
  induction h generalizing st with
  | word hs =>
    simp only [List.mem_cons, List.not_mem_nil, or_false] at hs
    rcases hs with rfl | rfl | rfl <;> exact run_word (List.cons_ne_nil _ _) (List.all_eq_true.mp rfl)
  | number hs => exact run_word hs.isWord.1 hs.isWord.2
  | string hs => exact run_quoted_value hs
  | emptyArray hs =>
    rw [Symbol.start, run_cons_of_step rfl, run_append_of_run (run_blank hs (Or.inl rfl))]
    rfl
  | array _ ih =>
    calc run ⟨.value, st⟩ _ = run (Symbol.elements.start st) (_ ++ [93]) := run_cons_of_step rfl
      _ = run (Symbol.elements.finish st) [93] := run_append_of_run (ih st)
      _ = some ⟨.after, st⟩ := rfl
  | emptyObject hs =>
    rw [Symbol.start, run_cons_of_step rfl, run_append_of_run (run_blank hs (Or.inr (Or.inl rfl)))]
    rfl
  | object _ ih =>
    calc run ⟨.value, st⟩ _ = run (Symbol.members.start st) (_ ++ [125]) := run_cons_of_step rfl
      _ = run (Symbol.members.finish st) [125] := run_append_of_run (ih st)
      _ = some ⟨.after, st⟩ := rfl
  | element hu _ hv ih =>
    calc run ⟨.value, st⟩ _ = run (Symbol.value.start st) (_ ++ _) := run_append_of_run (run_blank hu (Or.inl rfl))
      _ = run (Symbol.value.finish st) _ := run_append_of_run (ih st)
      _ = some ⟨.after, st⟩ := run_blank hv (Or.inr (Or.inr (Or.inr rfl)))
  | lastElement _ ih => exact ih (.array :: st)
  | nextElement _ _ ihs iht =>
    calc run ⟨.value, .array :: st⟩ _ = run ⟨.after, .array :: st⟩ (44 :: _) := run_append_of_run (ihs (.array :: st))
      _ = run (Symbol.elements.start st) _ := run_cons_of_step rfl
      _ = some ⟨.after, .array :: st⟩ := iht st
  | member hu hs hv _ ih =>
    calc run ⟨.key, .object :: st⟩ _ = run ⟨.key, .object :: st⟩ (quoted _ ++ (_ ++ 58 :: _)) :=
          run_append_of_run (run_blank hu (Or.inr (Or.inl rfl)))
      _ = run ⟨.colon, .object :: st⟩ (_ ++ 58 :: _) := run_append_of_run (run_quoted_key hs)
      _ = run ⟨.colon, .object :: st⟩ (58 :: _) := run_append_of_run (run_blank hv (Or.inr (Or.inr (Or.inl rfl))))
      _ = run (Symbol.element.start (.object :: st)) _ := run_cons_of_step rfl
      _ = some ⟨.after, .object :: st⟩ := ih (.object :: st)
  | lastMember _ ih => exact ih st
  | nextMember _ _ ihs iht =>
    calc run ⟨.key, .object :: st⟩ _ = run ⟨.after, .object :: st⟩ (44 :: _) := run_append_of_run (ihs st)
      _ = run (Symbol.members.start st) _ := run_cons_of_step rfl
      _ = some ⟨.after, .object :: st⟩ := iht st

theorem Value.run_eq (h : Value s) : run ⟨.value, []⟩ s = some ⟨.after, []⟩ := run_of_derives h []

/-- Pieces with commas between them, read up to the bracket that closes them, when a piece that is not good leaves the
recognizer where neither can follow. -/
theorem good_of_run_intercalate {α : Type} {f : α → List UInt8} {Good : α → Prop} {start finish : State}
    {bracket : UInt8} (hcomma : run finish [44, 32] = some start) {xs : List α}
    (hpieces : ∀ x ∈ xs, ∀ ρ, run start (f x) = some ρ → Good x ∧ ρ = finish ∨ step ρ 44 = none ∧ step ρ bracket = none)
    (hrun : run start ([44, 32].intercalate (xs.map f) ++ [bracket]) = some τ) : ∀ x ∈ xs, Good x := by
  induction xs with
  | nil => exact fun x hx => absurd hx List.not_mem_nil
  | cons x xs ih =>
    have hpiece := hpieces x List.mem_cons_self
    cases xs with
    | nil =>
      rw [List.map_singleton, List.intercalate_singleton, run_append, Option.bind_eq_some_iff] at hrun
      obtain ⟨ρ, hρ, hend⟩ := hrun
      rcases hpiece ρ hρ with hgood | hstuck
      · exact List.forall_mem_singleton.mpr hgood.1
      · rw [run, hstuck.2] at hend
        cases hend
    | cons x' xs =>
      rw [List.map_cons, List.map_cons, List.intercalate_cons_cons, List.append_assoc, List.append_assoc, run_append,
        Option.bind_eq_some_iff] at hrun
      obtain ⟨ρ, hρ, hrest⟩ := hrun
      rcases hpiece ρ hρ with ⟨hgood, rfl⟩ | hstuck
      · rw [run_append_of_run hcomma] at hrest
        exact List.forall_mem_cons.mpr ⟨hgood, ih (fun y hy => hpieces y (List.mem_cons_of_mem x hy)) hrest⟩
      · rw [List.cons_append, run, hstuck.1] at hrest
        cases hrest

def Escaping (k : Bool) (mode : Mode) : Prop := mode = .escape k ∨ ∃ left, mode = .hex left k

theorem run_hex_inv {n : ℕ} (h : run ⟨.hex n k, st⟩ s = some τ) : Escaping k τ.mode ∨
    ∃ u t, s = u ++ t ∧ u.length = n + 1 ∧ (∀ c ∈ u, isHex c = true) ∧ run ⟨.body k, st⟩ t = some τ := by
  induction s generalizing n with
  | nil =>
    obtain rfl := Option.some.inj h
    exact Or.inl (Or.inr ⟨n, rfl⟩)
  | cons c s ih =>
    by_cases hc : isHex c = true
    · cases n with
      | zero =>
        have hstep : step ⟨.hex 0 k, st⟩ c = some ⟨.body k, st⟩ := by simp [step, hc]
        rw [run_cons_of_step hstep] at h
        exact Or.inr ⟨[c], s, rfl, rfl, List.forall_mem_singleton.mpr hc, h⟩
      | succ n =>
        have hstep : step ⟨.hex (n + 1) k, st⟩ c = some ⟨.hex n k, st⟩ := by simp [step, hc]
        rw [run_cons_of_step hstep] at h
        rcases ih h with h | ⟨u, t, rfl, hu, hex, ht⟩
        · exact Or.inl h
        · exact Or.inr ⟨c :: u, t, rfl, by rw [List.length_cons, hu], List.forall_mem_cons.mpr ⟨hc, hex⟩, ht⟩
    · simp [run, step, hc] at h

theorem run_escape_inv (h : run ⟨.escape k, st⟩ s = some τ) : Escaping k τ.mode ∨
    ∃ u t, s = u ++ t ∧ (∀ v, StringBody v → StringBody (92 :: (u ++ v))) ∧ run ⟨.body k, st⟩ t = some τ := by
  cases s with
  | nil =>
    obtain rfl := Option.some.inj h
    exact Or.inl (Or.inl rfl)
  | cons c s =>
    by_cases hc : isEscape c = true
    · have hstep : step ⟨.escape k, st⟩ c = some ⟨.body k, st⟩ := by simp [step, hc]
      rw [run_cons_of_step hstep] at h
      exact Or.inr ⟨[c], s, rfl, fun v hv => .escape hc hv, h⟩
    · by_cases hu : c = 117
      · subst hu
        rw [run_cons_of_step rfl] at h
        rcases run_hex_inv h with h | ⟨u, t, rfl, hu, hex, ht⟩
        · exact Or.inl h
        · exact Or.inr ⟨117 :: u, t, rfl, fun v hv => .unicode hu hex hv, ht⟩
      · simp [run, step, hc, hu] at h

theorem run_body_inv (h : run ⟨.body k, st⟩ s = some τ) : StringBody s ∧ τ = ⟨.body k, st⟩ ∨ Escaping k τ.mode ∨
    ∃ u t, s = u ++ 34 :: t ∧ StringBody u ∧ run ⟨closing k, st⟩ t = some τ := by
  -- On the length, since an escape sequence takes several bytes at once.
  induction hn : s.length using Nat.strongRecOn generalizing s with
  | ind n ih =>
    have hlonger : ∀ {u t : List UInt8}, s = u ++ t → u ≠ [] → (∀ v, StringBody v → StringBody (u ++ v)) →
        run ⟨.body k, st⟩ t = some τ → StringBody s ∧ τ = ⟨.body k, st⟩ ∨ Escaping k τ.mode ∨
          ∃ u t, s = u ++ 34 :: t ∧ StringBody u ∧ run ⟨closing k, st⟩ t = some τ := by
      rintro u t rfl hne hu ht
      have hlt : t.length < n := by
        have := List.length_pos_iff.mpr hne
        rw [List.length_append] at hn
        omega
      rcases ih t.length hlt ht rfl with ⟨hbody, hτ⟩ | hescaping | ⟨v, w, rfl, hv, hw⟩
      · exact Or.inl ⟨hu t hbody, hτ⟩
      · exact Or.inr (Or.inl hescaping)
      · exact Or.inr (Or.inr ⟨u ++ v, w, (List.append_assoc u v (34 :: w)).symm, hu v hv, hw⟩)
    cases s with
    | nil => exact Or.inl ⟨.nil, (Option.some.inj h).symm⟩
    | cons c s =>
      by_cases hquote : c = 34
      · subst hquote
        exact Or.inr (Or.inr ⟨[], s, rfl, .nil, h⟩)
      · by_cases hescape : c = 92
        · subst hescape
          rw [run_cons_of_step rfl] at h
          rcases run_escape_inv h with h | ⟨u, t, rfl, hu, ht⟩
          · exact Or.inr (Or.inl h)
          · exact hlonger (u := 92 :: u) rfl (List.cons_ne_nil 92 u) hu ht
        · by_cases hc : isPlain c = true
          · rw [run_cons_of_step (step_plain hc)] at h
            exact hlonger (u := [c]) rfl (List.cons_ne_nil c []) (fun v hv => .plain hc hv) h
          · simp [run, step, hquote, hescape, hc] at h

theorem leave_eq_some {x : Context} (h : leave x st = some τ) : τ.mode = .after := by
  cases st with
  | nil => cases h
  | cons y st =>
    rw [leave] at h
    split_ifs at h
    exact Option.some.inj h ▸ rfl

theorem next_eq_some (h : next st = some τ) : τ.mode = .value ∨ τ.mode = .key := by
  rcases st with _ | ⟨_ | _, st⟩
  · cases h
  · exact Or.inl (Option.some.inj h ▸ rfl)
  · exact Or.inr (Option.some.inj h ▸ rfl)

theorem step_closing (h : step ⟨closing k, st⟩ c = some τ) :
    (τ.mode = .colon ∨ τ.mode = .after) ∨ (c = 44 ∨ c = 58) ∧ (τ.mode = .value ∨ τ.mode = .key) := by
  cases k with
  | false =>
    simp only [step, closing, Bool.false_eq_true, if_false] at h
    split_ifs at h with _ hcomma
    · exact Or.inl (Or.inr (Option.some.inj h ▸ rfl))
    · exact Or.inr ⟨Or.inl hcomma, next_eq_some h⟩
    · exact Or.inl (Or.inr (leave_eq_some h))
    · exact Or.inl (Or.inr (leave_eq_some h))
  | true =>
    simp only [step, closing, if_true] at h
    split_ifs at h with _ hcolon
    · exact Or.inl (Or.inl (Option.some.inj h ▸ rfl))
    · exact Or.inr ⟨Or.inr hcolon, Or.inl (Option.some.inj h ▸ rfl)⟩

theorem step_opening {j : Bool} (h : step σ c = some τ) (hσ : ∀ i, σ.mode ≠ .body i ∧ ¬ Escaping i σ.mode)
    (hτ : τ.mode = .body j) : c = 34 := by
  have hafter : τ.mode ≠ .after := fun he => by cases hτ.symm.trans he
  cases hmode : σ.mode with
  | value =>
    simp only [step, hmode] at h
    split_ifs at h with _ _ hquote
    · exact absurd (Option.some.inj h ▸ rfl) hafter
    · rw [← Option.some.inj h, hmode] at hτ
      cases hτ
    · exact hquote
    · cases Option.some.inj h ▸ hτ
    · cases Option.some.inj h ▸ hτ
    · exact absurd (leave_eq_some h) hafter
  | key =>
    simp only [step, hmode] at h
    split_ifs at h with _ hquote
    · rw [← Option.some.inj h, hmode] at hτ
      cases hτ
    · exact hquote
    · exact absurd (leave_eq_some h) hafter
  | body i => exact absurd hmode (hσ i).1
  | escape i => exact absurd (Or.inl hmode) (hσ i).2
  | hex left i => exact absurd (Or.inr ⟨left, hmode⟩) (hσ i).2
  | colon =>
    simp only [step, hmode] at h
    split_ifs at h
    · rw [← Option.some.inj h, hmode] at hτ
      cases hτ
    · cases Option.some.inj h ▸ hτ
  | after =>
    simp only [step, hmode] at h
    split_ifs at h
    · rw [← Option.some.inj h, hmode] at hτ
      cases hτ
    · rcases next_eq_some h with hτ' | hτ' <;> cases hτ.symm.trans hτ'
    · exact absurd (leave_eq_some h) hafter
    · exact absurd (leave_eq_some h) hafter

/-- A text of three bytes between two of a string is a piece of it, unless it ends the string and starts another. -/
theorem run_short_inv {j : Bool} (hlength : s.length ≤ 3) (h : run ⟨.body k, st⟩ s = some τ) (hτ : τ.mode = .body j) :
    StringBody s ∨ s = [34, 44, 34] ∨ s = [34, 58, 34] := by
  rcases run_body_inv h with ⟨hs, -⟩ | hescaping | ⟨u, t, rfl, -, ht⟩
  · exact Or.inl hs
  · rcases hescaping with he | ⟨left, he⟩ <;> cases hτ.symm.trans he
  · have hclosing : ∀ i, closing k ≠ .body i := by cases k <;> exact fun i h => by cases h
    rw [List.length_append, List.length_cons] at hlength
    match t, ht with
    | [], ht =>
      obtain rfl := Option.some.inj ht
      exact absurd hτ (hclosing j)
    | [a], ht =>
      obtain ⟨ρ, hρ, hend⟩ := run_cons_eq_some.mp ht
      obtain rfl := Option.some.inj hend
      rcases step_closing hρ with (he | he) | ⟨-, he | he⟩ <;> cases hτ.symm.trans he
    | [a, b], ht =>
      obtain rfl : u = [] := List.length_eq_zero_iff.mp (by simpa using hlength)
      obtain ⟨ρ, hρ, ht⟩ := run_cons_eq_some.mp ht
      obtain ⟨ρ', hρ', hend⟩ := run_cons_eq_some.mp ht
      obtain rfl := Option.some.inj hend
      have hstep := step_closing hρ
      have hb : b = 34 := by
        refine step_opening hρ' (fun i => ?_) hτ
        rcases hstep with (he | he) | ⟨-, he | he⟩ <;> simp [Escaping, he]
      subst hb
      rcases hstep with (he | he) | ⟨rfl | rfl, -⟩
      · simp [step, he, isSpace] at hρ'
      · simp [step, he, isSpace, isWord, isDigit] at hρ'
      · exact Or.inr (Or.inl rfl)
      · exact Or.inr (Or.inr rfl)
    | _ :: _ :: _ :: t, _ =>
      simp only [List.length_cons] at hlength
      omega

end VmodRedis.Json
