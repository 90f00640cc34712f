import VmodRedis.Lib.Json

/-!
JSON objects of numbers, nested to any depth: how they are written, read back and looked into, by the path to a
number or by a name that joins the path.
-/

namespace VmodRedis.Json

mutual

inductive Item where
  | leaf (n : ℕ)
  | node (members : Members)

inductive Members where
  | nil
  | cons (key : List UInt8) (value : Item) (rest : Members)

end

mutual

def Item.find : Item → List (List UInt8) → Option ℕ
  | .leaf n, [] => some n
  | .leaf _, _ :: _ => none
  | .node _, [] => none
  | .node members, key :: path => members.find key path

def Members.find : Members → List UInt8 → List (List UInt8) → Option ℕ
  | .nil, _, _ => none
  | .cons k value rest, key, path => if k = key then value.find path else rest.find key path

end

section

variable (sep : UInt8)

mutual

def Item.named (key : List UInt8) : Item → List (List UInt8 × ℕ)
  | .leaf n => [(key, n)]
  | .node members => members.named.map fun entry => (key ++ sep :: entry.1, entry.2)

def Members.named : Members → List (List UInt8 × ℕ)
  | .nil => []
  | .cons key value rest => value.named key ++ rest.named

end

end

def Members.keys : Members → List (List UInt8)
  | .nil => []
  | .cons key _ rest => key :: rest.keys

mutual

def Item.Keyed (P : List UInt8 → Prop) : Item → Prop
  | .leaf _ => True
  | .node members => members.keys ≠ [] ∧ members.Keyed P

def Members.Keyed (P : List UInt8 → Prop) : Members → Prop
  | .nil => True
  | .cons key value rest => P key ∧ key ∉ rest.keys ∧ value.Keyed P ∧ rest.Keyed P

end

section

variable {P Q : List UInt8 → Prop}

mutual

theorem Item.Keyed.mono (hPQ : ∀ key, P key → Q key) : ∀ {t : Item}, t.Keyed P → t.Keyed Q
  | .leaf _, _ => trivial
  | .node _, h => ⟨h.1, Members.Keyed.mono hPQ h.2⟩

theorem Members.Keyed.mono (hPQ : ∀ key, P key → Q key) : ∀ {members : Members}, members.Keyed P → members.Keyed Q
  | .nil, _ => trivial
  | .cons key _ _, h => ⟨hPQ key h.1, h.2.1, Item.Keyed.mono hPQ h.2.2.1, Members.Keyed.mono hPQ h.2.2.2⟩

end

end

section

variable (decimal : ℕ → List UInt8)

mutual

def Item.text : Item → List UInt8
  | .leaf n => decimal n
  | .node members => 123 :: (members.text ++ [125])

def Members.text : Members → List UInt8
  | .nil => []
  | .cons key value .nil => quoted key ++ 58 :: 32 :: value.text
  | .cons key value (.cons key' value' rest) =>
    quoted key ++ (58 :: 32 :: value.text ++ 44 :: (Members.cons key' value' rest).text)

end

end

def readKey (s : List UInt8) : Option (List UInt8 × List UInt8) :=
  match s with
  | 34 :: s =>
    match s.dropWhile isPlain with
    | 34 :: 58 :: 32 :: rest => some (s.takeWhile isPlain, rest)
    | _ => none
  | _ => none

section

variable (value : List UInt8 → ℕ)

mutual

def readItem : ℕ → List UInt8 → Option (Item × List UInt8)
  | 0, _ => none
  | fuel + 1, s =>
    match s with
    | 123 :: s => (readMembers fuel s).map fun r => (.node r.1, r.2)
    | s => if s.takeWhile isDigit = [] then none else some (.leaf (value (s.takeWhile isDigit)), s.dropWhile isDigit)

def readMembers : ℕ → List UInt8 → Option (Members × List UInt8)
  | 0, _ => none
  | fuel + 1, s =>
    (readKey s).bind fun (key, s) =>
      (readItem fuel s).bind fun (t, s) =>
        match s with
        | 44 :: s => (readMembers fuel s).map fun r => (.cons key t r.1, r.2)
        | 125 :: s => some (.cons key t .nil, s)
        | _ => none

end

end

def joined (sep : UInt8) (key : List UInt8) : List (List UInt8) → List UInt8
  | [] => key
  | k :: path => key ++ sep :: joined sep k path

theorem exists_joined (sep : UInt8) (name : List UInt8) :
    ∃ key path, (∀ k ∈ key :: path, sep ∉ k) ∧ name = joined sep key path := by
  induction name with
  | nil => exact ⟨[], [], by simp, rfl⟩
  | cons c name ih =>
    obtain ⟨key, path, hfree, rfl⟩ := ih
    by_cases hc : c = sep
    · subst hc
      exact ⟨[], key :: path, List.forall_mem_cons.mpr ⟨List.not_mem_nil, hfree⟩, rfl⟩
    · obtain ⟨hkey, hpath⟩ := List.forall_mem_cons.mp hfree
      refine ⟨c :: key, path, List.forall_mem_cons.mpr ⟨?_, hpath⟩, ?_⟩
      · simp [hkey, Ne.symm hc]
      · cases path <;> rfl

theorem Members.find_of_not_mem (path : List (List UInt8)) {key : List UInt8} :
    ∀ {members : Members}, key ∉ members.keys → members.find key path = none
  | .nil, _ => rfl
  | .cons k value rest, h => by
    simp only [Members.keys, List.mem_cons, not_or] at h
    rw [Members.find, if_neg (Ne.symm h.1)]
    exact find_of_not_mem path h.2

theorem append_sep_inj {sep : UInt8} {k k' s s' : List UInt8} (hk : sep ∉ k) (hk' : sep ∉ k')
    (h : k ++ sep :: s = k' ++ sep :: s') : k = k' ∧ s = s' := by
  induction k generalizing k' with
  | nil =>
    cases k' with
    | nil => exact ⟨rfl, (List.cons.inj h).2⟩
    | cons c k' => exact absurd (List.mem_cons.mpr (Or.inl (List.cons.inj h).1)) hk'
  | cons c k ih =>
    simp only [List.mem_cons, not_or] at hk
    cases k' with
    | nil => exact absurd (List.cons.inj h).1.symm hk.1
    | cons c' k' =>
      simp only [List.mem_cons, not_or] at hk'
      obtain ⟨rfl, htail⟩ := List.cons.inj h
      obtain ⟨rfl, rfl⟩ := ih hk.2 hk'.2 htail
      exact ⟨rfl, rfl⟩

theorem lookup_map_append {sep : UInt8} (key s : List UInt8) (l : List (List UInt8 × ℕ)) :
    (l.map fun entry => (key ++ sep :: entry.1, entry.2)).lookup (key ++ sep :: s) = l.lookup s := by
  induction l with
  | nil => rfl
  | cons entry l ih =>
    have hsame : (key ++ sep :: s == key ++ sep :: entry.1) = (s == entry.1) := by
      rw [Bool.eq_iff_iff, beq_iff_eq, beq_iff_eq, List.append_cancel_left_eq, List.cons.injEq]
      exact and_iff_right rfl
    rw [List.map_cons, List.lookup_cons, List.lookup_cons, ih, hsame]

theorem lookup_map_eq_none {sep : UInt8} {key name : List UInt8} (h : ∀ s, name ≠ key ++ sep :: s)
    (l : List (List UInt8 × ℕ)) : (l.map fun entry => (key ++ sep :: entry.1, entry.2)).lookup name = none := by
  apply List.lookup_eq_none_iff.mpr
  intro entry hentry
  obtain ⟨e, -, rfl⟩ := List.mem_map.mp hentry
  exact bne_iff_ne.mpr (h e.1)

section

variable {sep : UInt8}

mutual

theorem Item.named_lookup {key k : List UInt8} {path : List (List UInt8)} (hkey : sep ∉ key) (hk : sep ∉ k)
    (hpath : ∀ q ∈ path, sep ∉ q) : ∀ {t : Item}, t.Keyed (sep ∉ ·) →
      (t.named sep key).lookup (joined sep k path) = if key = k then t.find path else none
  | .leaf n, _ => by
    cases path with
    | nil =>
      rw [joined, Item.named, List.lookup_cons, Item.find]
      by_cases he : key = k
      · simp [he]
      · rw [beq_eq_false_iff_ne.mpr (Ne.symm he), if_neg he]
        rfl
    | cons q path =>
      have hne : joined sep k (q :: path) ≠ key := by
        rintro rfl
        simp [joined] at hkey
      rw [Item.named, Item.find, List.lookup_cons, ite_self, beq_eq_false_iff_ne.mpr hne]
      rfl
  | .node members, h => by
    rw [Item.named]
    cases path with
    | nil =>
      rw [joined, Item.find, ite_self]
      apply lookup_map_eq_none
      rintro s rfl
      simp at hk
    | cons q path =>
      obtain ⟨hq, hpath⟩ := List.forall_mem_cons.mp hpath
      rw [joined, Item.find]
      by_cases he : key = k
      · subst he
        rw [if_pos rfl, lookup_map_append]
        exact Members.named_lookup hq hpath h.2
      · rw [if_neg he]
        apply lookup_map_eq_none
        exact fun s hs => he (append_sep_inj hk hkey hs).1.symm

theorem Members.named_lookup {k : List UInt8} {path : List (List UInt8)} (hk : sep ∉ k) (hpath : ∀ q ∈ path, sep ∉ q) :
    ∀ {members : Members}, members.Keyed (sep ∉ ·) → (members.named sep).lookup (joined sep k path) = members.find k path
  | .nil, _ => rfl
  | .cons key value rest, h => by
    obtain ⟨hkey, hnew, hvalue, hrest⟩ := h
    rw [Members.named, List.lookup_append, Item.named_lookup hkey hk hpath hvalue, Members.named_lookup hk hpath hrest,
      Members.find]
    by_cases he : key = k
    · subst he
      rw [if_pos rfl, if_pos rfl, Members.find_of_not_mem path hnew, Option.or_none]
    · rw [if_neg he, if_neg he, Option.none_or]

end

end

/-- What writes numbers and what reads them agree. -/
structure Writes (decimal : ℕ → List UInt8) (value : List UInt8 → ℕ) : Prop where
  number : ∀ n, Number (decimal n)
  digits : ∀ n, Digits (decimal n)
  value : ∀ n, value (decimal n) = n

section

variable {decimal : ℕ → List UInt8} {value : List UInt8 → ℕ}

mutual

theorem Item.text_derives (h : Writes decimal value) : ∀ {t : Item}, t.Keyed Plain → Value (t.text decimal)
  | .leaf n, _ => .number (h.number n)
  | .node _, hk => .object (Members.text_derives h hk.1 hk.2)

theorem Members.text_derives (h : Writes decimal value) :
    ∀ {members : Members}, members.keys ≠ [] → members.Keyed Plain → Derives .members (members.text decimal)
  | .nil, hne, _ => absurd rfl hne
  | .cons key t .nil, _, hk => by
    have hmember : Derives .member ([] ++ (quoted key ++ ([] ++ 58 :: ([32] ++ (t.text decimal ++ []))))) :=
      .member blank_nil (.of_plain hk.1) blank_nil
        (.element (blank_cons rfl blank_nil) (Item.text_derives h hk.2.2.1) blank_nil)
    simpa [Members.text] using Derives.lastMember hmember
  | .cons key t (.cons key' t' rest), _, hk => by
    have hmember : Derives .member ([] ++ (quoted key ++ ([] ++ 58 :: ([32] ++ (t.text decimal ++ []))))) :=
      .member blank_nil (.of_plain hk.1) blank_nil
        (.element (blank_cons rfl blank_nil) (Item.text_derives h hk.2.2.1) blank_nil)
    have hrest : Derives .members ((Members.cons key' t' rest).text decimal) :=
      Members.text_derives h (List.cons_ne_nil _ _) hk.2.2.2
    simpa [Members.text] using Derives.nextMember hmember hrest

end

theorem readKey_quoted {key : List UInt8} (hk : Plain key) (s : List UInt8) :
    readKey (quoted key ++ 58 :: 32 :: s) = some (key, s) := by
  have htake : (key ++ 34 :: 58 :: 32 :: s).takeWhile isPlain = key := by
    rw [List.takeWhile_append_of_pos hk, List.takeWhile_cons_of_neg (by decide), List.append_nil]
  have hdrop : (key ++ 34 :: 58 :: 32 :: s).dropWhile isPlain = 34 :: 58 :: 32 :: s := by
    rw [List.dropWhile_append_of_pos hk, List.dropWhile_cons_of_neg (by decide)]
  have hquoted : quoted key ++ 58 :: 32 :: s = 34 :: (key ++ 34 :: 58 :: 32 :: s) := by simp [quoted]
  rw [hquoted, readKey]
  simp only [hdrop, htake]

theorem readItem_leaf (h : Writes decimal value) (n fuel : ℕ) {rest : List UInt8}
    (hrest : ∀ c ∈ rest.head?, isDigit c = false) :
    readItem value (fuel + 1) (decimal n ++ rest) = some (.leaf n, rest) := by
  obtain ⟨hne, hall⟩ := h.digits n
  have hstop : rest.takeWhile isDigit = [] ∧ rest.dropWhile isDigit = rest := by
    cases rest with
    | nil => exact ⟨rfl, rfl⟩
    | cons c rest => simp [hrest c rfl]
  have htake : (decimal n ++ rest).takeWhile isDigit = decimal n := by
    rw [List.takeWhile_append_of_pos hall, hstop.1, List.append_nil]
  have hdrop : (decimal n ++ rest).dropWhile isDigit = rest := by
    rw [List.dropWhile_append_of_pos hall, hstop.2]
  have hopen : ∀ s, decimal n ++ rest ≠ 123 :: s := by
    intro s hs
    cases hd : decimal n with
    | nil => exact hne hd
    | cons c ds =>
      have hc := hall c (by simp [hd])
      rw [hd, List.cons_append] at hs
      rw [(List.cons.inj hs).1] at hc
      exact absurd hc (by decide)
  rw [readItem]
  · rw [htake, hdrop, if_neg hne, h.value]
  · exact hopen

mutual

theorem readItem_text (h : Writes decimal value) : ∀ {t : Item} {fuel : ℕ} {rest : List UInt8}, t.Keyed Plain →
    (∀ c ∈ rest.head?, isDigit c = false) → (t.text decimal).length ≤ fuel →
      readItem value fuel (t.text decimal ++ rest) = some (t, rest)
  | .leaf n, fuel, rest, _, hrest, hfuel => by
    have hpos : 0 < (decimal n).length := List.length_pos_iff.mpr (h.digits n).1
    obtain ⟨m, rfl⟩ : ∃ m, fuel = m + 1 := ⟨fuel - 1, by simp only [Item.text] at hfuel; omega⟩
    exact readItem_leaf h n m hrest
  | .node members, fuel, rest, hk, _, hfuel => by
    simp only [Item.text, List.length_cons, List.length_append, List.length_nil] at hfuel
    obtain ⟨m, rfl⟩ : ∃ m, fuel = m + 1 := ⟨fuel - 1, by omega⟩
    have htext : (Item.node members).text decimal ++ rest = 123 :: (members.text decimal ++ 125 :: rest) := by
      simp [Item.text]
    rw [htext, readItem, readMembers_text h hk.1 hk.2 (by omega), Option.map_some]

theorem readMembers_text (h : Writes decimal value) : ∀ {members : Members} {fuel : ℕ} {rest : List UInt8},
    members.keys ≠ [] → members.Keyed Plain → (members.text decimal).length ≤ fuel →
      readMembers value fuel (members.text decimal ++ 125 :: rest) = some (members, rest)
  | .nil, _, _, hne, _, _ => absurd rfl hne
  | .cons key t .nil, fuel, rest, _, hk, hfuel => by
    simp only [Members.text, quoted, List.length_cons, List.length_append, List.length_nil] at hfuel
    obtain ⟨m, rfl⟩ : ∃ m, fuel = m + 1 := ⟨fuel - 1, by omega⟩
    have htext : (Members.cons key t .nil).text decimal ++ 125 :: rest =
        quoted key ++ 58 :: 32 :: (t.text decimal ++ 125 :: rest) := by simp [Members.text]
    have htree : readItem value m (t.text decimal ++ 125 :: rest) = some (t, 125 :: rest) := by
      refine readItem_text h hk.2.2.1 ?_ (by omega)
      rintro c ⟨⟩
      rfl
    rw [htext, readMembers, readKey_quoted hk.1]
    simp only [Option.bind_some, htree]
  | .cons key t (.cons key' t' more), fuel, rest, _, hk, hfuel => by
    simp only [Members.text, quoted, List.length_cons, List.length_append, List.length_nil] at hfuel
    obtain ⟨m, rfl⟩ : ∃ m, fuel = m + 1 := ⟨fuel - 1, by omega⟩
    have htext : (Members.cons key t (.cons key' t' more)).text decimal ++ 125 :: rest =
        quoted key ++ 58 :: 32 :: (t.text decimal ++ 44 :: ((Members.cons key' t' more).text decimal ++ 125 :: rest)) := by
      simp [Members.text]
    have htree : readItem value m (t.text decimal ++ 44 :: ((Members.cons key' t' more).text decimal ++ 125 :: rest)) =
        some (t, 44 :: ((Members.cons key' t' more).text decimal ++ 125 :: rest)) := by
      refine readItem_text h hk.2.2.1 ?_ (by omega)
      rintro c ⟨⟩
      rfl
    have hmore : readMembers value m ((Members.cons key' t' more).text decimal ++ 125 :: rest) =
        some (.cons key' t' more, rest) := readMembers_text h (List.cons_ne_nil _ _) hk.2.2.2 (by omega)
    rw [htext, readMembers, readKey_quoted hk.1]
    simp only [Option.bind_some, htree, hmore, Option.map_some]

end

end

end VmodRedis.Json
