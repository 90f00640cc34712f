import VmodRedis.Discovery
import VmodRedis.Lib.LastValue

/-!
What a reply to `CLUSTER SHARDS` says, in terms of the positions of its elements.
-/

namespace VmodRedis.Discovery

open CStrings Replies Database LastValue

variable {β : Type} {element : List Reply} {key : String} {read : Reply → Option β} {b init : β}

def Entry (element : List Reply) (i : ℕ) (key : String) (value : Reply) : Prop :=
  ∃ str, element[2 * i]? = some (.string str) ∧ strcmp str (bytes key) = true ∧ element[2 * i + 1]? = some value

def Says (element : List Reply) (key : String) (read : Reply → Option β) (b : β) : Prop :=
  ∃ i value, Entry element i key value ∧ read value = some b ∧
    ∀ j later, i < j → Entry element j key later → read later = none

def Silent (element : List Reply) (key : String) (read : Reply → Option β) : Prop :=
  ∀ i value, Entry element i key value → read value = none

def SaysOr (element : List Reply) (key : String) (read : Reply → Option β) (init b : β) : Prop :=
  Says element key read b ∨ Silent element key read ∧ b = init

def arrayValue : Reply → Option (List Reply)
  | .array element => some element
  | _ => none

def someNodes : Reply → Option (List Reply)
  | .array (node :: rest) => some (node :: rest)
  | _ => none

def endpointText : Reply → Option Bytes
  | .string str => some str
  | .nil => some []
  | _ => none

def portNumber : Reply → Option ℕ
  | .integer n => if 0 < n ∧ n ≤ 65535 then some n.toNat else none
  | _ => none

def roleName : Reply → Option Role
  | .string str =>
    if strcmp str (bytes "master") then some .master
    else if strcmp str (bytes "replica") then some .slave
    else none
  | _ => none

def onlineText : Reply → Option Bool
  | .string str => some (strcmp str (bytes "online"))
  | _ => none

def ArrayOrMap (reply : Reply) (element : List Reply) : Prop := reply = .array element ∨ reply = .map element

def IsShard (shard : Reply) (slots nodes : List Reply) : Prop :=
  ∃ element, ArrayOrMap shard element ∧ Says element "slots" arrayValue slots ∧ Says element "nodes" someNodes nodes ∧
    slots.length % 2 = 0

def RangeWith (slots : List Reply) (k : ℕ) : Prop :=
  ∃ (i : ℕ) (first last : ℤ), slots[2 * i]? = some (.integer first) ∧ slots[2 * i + 1]? = some (.integer last) ∧
    0 ≤ first ∧ first ≤ k ∧ k ≤ last ∧ last < nredisClusterSlots

/-- A node, as a server at `host` lists it: an endpoint that is missing or empty is `host` itself. -/
structure IsNode (tls : Tls) (host : Bytes) (reply : Reply) (node : Node) : Prop where
  reads : ∃ element port tlsPort text, ArrayOrMap reply element ∧
    SaysOr element "endpoint" endpointText [] text ∧ strcmp text (bytes "?") = false ∧
    node.endpoint = (if cstr text = [] then host else text) ∧
    SaysOr element "port" portNumber 0 port ∧ SaysOr element "tls-port" portNumber 0 tlsPort ∧
    (tls = .unavailable → node.port = port) ∧
    (tls = .off → node.port = if port = 0 then tlsPort else port) ∧
    (tls = .on → node.port = if tlsPort = 0 then port else tlsPort) ∧
    Says element "role" roleName node.role ∧ SaysOr element "health" onlineText true node.healthy
  port : node.port ≠ 0

/-- The reply gives the slot `k` to the location: in some well-formed shard there are a valid range with the slot
and a node at the location, which fits in the buffer for locations. -/
def Assigns (tls : Tls) (host : Bytes) (shards : List Reply) (location : Bytes) (k : ℕ) : Prop :=
  ∃ shard ∈ shards, ∃ slots nodes, IsShard shard slots nodes ∧ RangeWith slots k ∧
    ∃ reply ∈ nodes, ∃ node, IsNode tls host reply node ∧ node.location = location ∧ location.length < 256

def reads (key : String) (read : Reply → Option β) : Reply × Reply → Option β
  | (.string str, value) => if strcmp str (bytes key) then read value else none
  | _ => none

theorem pairs_getElem? (element : List Reply) (i : ℕ) (p : Reply × Reply) :
    (pairs element)[i]? = some p ↔ element[2 * i]? = some p.1 ∧ element[2 * i + 1]? = some p.2 := by
  fun_induction pairs element generalizing i with
  | case1 a b rest ih =>
    cases i with
    | zero => simp [Prod.ext_iff]
    | succ i => simpa [Nat.mul_succ] using ih i
  | case2 element h =>
    have hshort : element.length < 2 := by
      obtain _ | ⟨a, _ | ⟨b, rest⟩⟩ := element
      · simp
      · simp
      · exact absurd rfl (h a b rest)
    simp only [List.getElem?_nil, reduceCtorEq, false_iff, not_and]
    intro _ h2
    obtain ⟨hlt, -⟩ := List.getElem?_eq_some_iff.mp h2
    omega

theorem reads_eq_some_iff (key : String) (read : Reply → Option β) (p : Reply × Reply) (b : β) :
    reads key read p = some b ↔ (∃ str, p.1 = .string str ∧ strcmp str (bytes key) = true) ∧ read p.2 = some b := by
  obtain ⟨name, value⟩ := p
  cases name with
  | string str =>
    by_cases h : strcmp str (bytes key) = true <;> simp [reads, h]
  | _ => simp [reads]

theorem exists_entry_iff (element : List Reply) (i : ℕ) (key : String) (value : Reply) :
    Entry element i key value ↔
      ∃ name, (pairs element)[i]? = some (name, value) ∧ ∃ str, name = .string str ∧ strcmp str (bytes key) = true := by
  simp only [pairs_getElem?, Entry]
  constructor
  · rintro ⟨str, h1, h2, h3⟩
    exact ⟨_, ⟨h1, h3⟩, str, rfl, h2⟩
  · rintro ⟨_, ⟨h1, h3⟩, str, rfl, h2⟩
    exact ⟨str, h1, h2, h3⟩

theorem silent_iff : Silent element key read ↔ ∀ p ∈ pairs element, reads key read p = none := by
  simp only [Silent, Option.eq_none_iff_forall_ne_some, ne_eq, reads_eq_some_iff, exists_entry_iff]
  constructor
  · rintro h ⟨name, value⟩ hp b ⟨hname, hb⟩
    obtain ⟨i, hi⟩ := List.mem_iff_getElem?.mp hp
    exact h i value ⟨name, hi, hname⟩ b hb
  · rintro h i value ⟨name, hi, hname⟩ b hb
    exact h (name, value) (List.mem_of_getElem? hi) b ⟨hname, hb⟩

theorem says_iff : Says element key read b ↔ Last (reads key read) (pairs element) b := by
  constructor
  · rintro ⟨i, value, he, hb, hlater⟩
    obtain ⟨name, hi, hname⟩ := (exists_entry_iff element i key value).mp he
    refine ⟨i, (name, value), hi, (reads_eq_some_iff key read _ b).mpr ⟨hname, hb⟩, fun j p hj hp => ?_⟩
    rw [Option.eq_none_iff_forall_ne_some]
    intro c hc
    obtain ⟨hname', hc'⟩ := (reads_eq_some_iff key read p c).mp hc
    rw [hlater j p.2 hj ((exists_entry_iff element j key p.2).mpr ⟨p.1, hp, hname'⟩)] at hc'
    cases hc'
  · rintro ⟨i, ⟨name, value⟩, hi, hb, hlater⟩
    obtain ⟨hname, hb'⟩ := (reads_eq_some_iff key read _ b).mp hb
    refine ⟨i, value, (exists_entry_iff element i key value).mpr ⟨name, hi, hname⟩, hb', fun j later hj he => ?_⟩
    obtain ⟨name', hj', hname'⟩ := (exists_entry_iff element j key later).mp he
    rw [Option.eq_none_iff_forall_ne_some]
    intro c hc
    have hnone := hlater j (name', later) hj hj'
    rw [(reads_eq_some_iff key read (name', later) c).mpr ⟨hname', hc⟩] at hnone
    cases hnone

def kept (key : String) (read : Reply → Option β) (element : List Reply) : Option β :=
  (pairs element).foldl (fun acc p => (reads key read p).or acc) none

theorem kept_eq_some_iff : kept key read element = some b ↔ Says element key read b := by
  rw [kept, foldl_or_eq_some_iff, says_iff]

theorem kept_getD_iff : (kept key read element).getD init = b ↔ SaysOr element key read init b := by
  have hsilent : kept key read element = none ↔ Silent element key read := by
    rw [kept, foldl_or_eq_none_iff, silent_iff]
  rw [SaysOr, ← kept_eq_some_iff, ← hsilent]
  cases kept key read element <;> simp [eq_comm]

theorem foldl_kept {γ : Type} (f : γ → Option β) (step : γ → Reply × Reply → γ) (key : String) (read : Reply → Option β)
    (h : ∀ c p, f (step c p) = (reads key read p).or (f c)) (element : List Reply) {c : γ} (hc : f c = none) :
    f ((pairs element).foldl step c) = kept key read element := by
  rw [kept, ← hc]
  exact (List.foldl_hom f (fun c p => (h c p).symm)).symm

theorem foldl_kept_getD {γ : Type} (f : γ → β) (step : γ → Reply × Reply → γ) (key : String) (read : Reply → Option β)
    (h : ∀ c p, f (step c p) = (reads key read p).getD (f c)) (element : List Reply) (c : γ) :
    f ((pairs element).foldl step c) = (kept key read element).getD (f c) := by
  rw [kept, ← foldl_getD_eq]
  exact (List.foldl_hom f (fun c p => (h c p).symm)).symm

theorem reads_of_strcmp {str : Bytes} (h : strcmp str (bytes key) = true) (value : Reply) :
    reads key read (.string str, value) = read value := if_pos h

theorem reads_of_other {str : Bytes} {other : String} (h : strcmp str (bytes other) = true)
    (hne : cstr (bytes other) ≠ cstr (bytes key)) (value : Reply) : reads key read (.string str, value) = none := by
  rw [strcmp_iff] at h
  apply if_neg
  rw [strcmp_iff, h]
  exact hne

theorem portOf_eq (old : ℕ) (value : Reply) : portOf old value = (portNumber value).getD old := by
  cases value with
  | integer n =>
    unfold portOf portNumber
    dsimp only
    split_ifs <;> rfl
  | _ => rfl

theorem nodeField_eq (fields : NodeFields) (p : Reply × Reply) : nodeField fields p =
    ⟨(reads "endpoint" endpointText p).or fields.endpoint, (reads "port" portNumber p).getD fields.port,
      (reads "tls-port" portNumber p).getD fields.tlsPort, (reads "role" roleName p).getD fields.role,
      (reads "health" onlineText p).getD fields.healthy⟩ := by
  obtain ⟨name, value⟩ := p
  cases name with
  | string str =>
    unfold nodeField
    dsimp only
    by_cases h1 : strcmp str (bytes "endpoint") = true
    · rw [if_pos h1, reads_of_strcmp h1, reads_of_other h1 (by decide), reads_of_other h1 (by decide),
        reads_of_other h1 (by decide), reads_of_other h1 (by decide)]
      cases value <;> rfl
    by_cases h2 : strcmp str (bytes "port") = true
    · rw [if_neg h1, if_pos h2, reads_of_strcmp h2, reads_of_other h2 (by decide), reads_of_other h2 (by decide),
        reads_of_other h2 (by decide), reads_of_other h2 (by decide), portOf_eq]
      rfl
    by_cases h3 : strcmp str (bytes "tls-port") = true
    · rw [if_neg h1, if_neg h2, if_pos h3, reads_of_strcmp h3, reads_of_other h3 (by decide),
        reads_of_other h3 (by decide), reads_of_other h3 (by decide), reads_of_other h3 (by decide), portOf_eq]
      rfl
    rw [if_neg h1, if_neg h2, if_neg h3]
    by_cases h4 : strcmp str (bytes "role") = true
    · rw [reads_of_strcmp h4, reads_of_other h4 (by decide), reads_of_other h4 (by decide),
        reads_of_other h4 (by decide), reads_of_other h4 (by decide)]
      cases value with
      | string value =>
        simp only [if_pos h4, roleName]
        split_ifs <;> rfl
      | _ => rfl
    by_cases h5 : strcmp str (bytes "health") = true
    · rw [reads_of_strcmp h5, reads_of_other h5 (by decide), reads_of_other h5 (by decide),
        reads_of_other h5 (by decide), reads_of_other h5 (by decide)]
      cases value with
      | string value => simp only [if_neg h4, if_pos h5]; rfl
      | _ => rfl
    · simp only [reads, if_neg h1, if_neg h2, if_neg h3, if_neg h4, if_neg h5]
      cases value <;> rfl
  | _ => rfl

theorem nodeFields_eq (element : List Reply) : (pairs element).foldl nodeField ⟨none, 0, 0, .tbd, true⟩ =
    ⟨kept "endpoint" endpointText element, (kept "port" portNumber element).getD 0,
      (kept "tls-port" portNumber element).getD 0, (kept "role" roleName element).getD .tbd,
      (kept "health" onlineText element).getD true⟩ := by
  obtain ⟨fields, hf⟩ : ∃ fields, fields = (pairs element).foldl nodeField ⟨none, 0, 0, .tbd, true⟩ := ⟨_, rfl⟩
  have hendpoint : fields.endpoint = kept "endpoint" endpointText element := by
    rw [hf]
    exact foldl_kept NodeFields.endpoint nodeField _ _ (fun c p => by rw [nodeField_eq]) element rfl
  have hport : fields.port = (kept "port" portNumber element).getD 0 := by
    rw [hf]
    exact foldl_kept_getD NodeFields.port nodeField _ _ (fun c p => by rw [nodeField_eq]) element _
  have htlsPort : fields.tlsPort = (kept "tls-port" portNumber element).getD 0 := by
    rw [hf]
    exact foldl_kept_getD NodeFields.tlsPort nodeField _ _ (fun c p => by rw [nodeField_eq]) element _
  have hrole : fields.role = (kept "role" roleName element).getD .tbd := by
    rw [hf]
    exact foldl_kept_getD NodeFields.role nodeField _ _ (fun c p => by rw [nodeField_eq]) element _
  have hhealthy : fields.healthy = (kept "health" onlineText element).getD true := by
    rw [hf]
    exact foldl_kept_getD NodeFields.healthy nodeField _ _ (fun c p => by rw [nodeField_eq]) element _
  rw [← hf, ← hendpoint, ← hport, ← htlsPort, ← hrole, ← hhealthy]

theorem arrayOrMap_eq_some_iff (reply : Reply) (element : List Reply) :
    reply.arrayOrMap = some element ↔ ArrayOrMap reply element := by
  cases reply <;> simp [Reply.arrayOrMap, ArrayOrMap]

theorem roleName_ne_tbd (value : Reply) : roleName value ≠ some .tbd := by
  cases value with
  | string str =>
    unfold roleName
    dsimp only
    split_ifs <;> simp
  | _ => simp [roleName]

theorem says_role_iff {role : Role} :
    Says element "role" roleName role ↔ (kept "role" roleName element).getD .tbd = role ∧ role ≠ .tbd := by
  rw [← kept_eq_some_iff]
  constructor
  · intro h
    obtain ⟨i, value, -, hrole, -⟩ := kept_eq_some_iff.mp h
    refine ⟨by rw [h]; rfl, ?_⟩
    rintro rfl
    exact roleName_ne_tbd value hrole
  · rintro ⟨h, hne⟩
    cases hkept : kept "role" roleName element with
    | none =>
      rw [hkept] at h
      exact absurd h.symm hne
    | some r =>
      rw [hkept] at h
      exact congrArg some h

theorem effectivePort_eq_iff (tls : Tls) (port tlsPort n : ℕ) : effectivePort tls port tlsPort = n ↔
    (tls = .unavailable → n = port) ∧ (tls = .off → n = if port = 0 then tlsPort else port) ∧
      (tls = .on → n = if tlsPort = 0 then port else tlsPort) := by
  cases tls <;> simp [effectivePort, eq_comm]

theorem isNode_iff {tls : Tls} {host : Bytes} {reply : Reply} {node : Node} : IsNode tls host reply node ↔
    ∃ element, reply.arrayOrMap = some element ∧
      strcmp ((kept "endpoint" endpointText element).getD []) (bytes "?") = false ∧
      node.endpoint = (if cstr ((kept "endpoint" endpointText element).getD []) = [] then host
        else (kept "endpoint" endpointText element).getD []) ∧
      effectivePort tls ((kept "port" portNumber element).getD 0) ((kept "tls-port" portNumber element).getD 0) =
        node.port ∧ node.port ≠ 0 ∧
      (kept "role" roleName element).getD .tbd = node.role ∧ node.role ≠ .tbd ∧
      (kept "health" onlineText element).getD true = node.healthy := by
  constructor
  · rintro ⟨⟨element, port, tlsPort, text, helement, htext, hknown, hendpoint, hport, htlsPort, h1, h2, h3, hrole,
      hhealthy⟩, hne⟩
    obtain rfl := kept_getD_iff.mpr htext
    obtain rfl := kept_getD_iff.mpr hport
    obtain rfl := kept_getD_iff.mpr htlsPort
    obtain ⟨hrole, htbd⟩ := says_role_iff.mp hrole
    exact ⟨element, (arrayOrMap_eq_some_iff _ _).mpr helement, hknown, hendpoint,
      (effectivePort_eq_iff _ _ _ _).mpr ⟨h1, h2, h3⟩, hne, hrole, htbd, kept_getD_iff.mpr hhealthy⟩
  · rintro ⟨element, helement, hknown, hendpoint, hport, hne, hrole, htbd, hhealthy⟩
    obtain ⟨h1, h2, h3⟩ := (effectivePort_eq_iff _ _ _ _).mp hport
    exact ⟨⟨element, _, _, _, (arrayOrMap_eq_some_iff _ _).mp helement, kept_getD_iff.mp rfl, hknown, hendpoint,
      kept_getD_iff.mp rfl, kept_getD_iff.mp rfl, h1, h2, h3, says_role_iff.mpr ⟨hrole, htbd⟩,
      kept_getD_iff.mp hhealthy⟩, hne⟩

theorem parseNode_iff (tls : Tls) (host : Bytes) (reply : Reply) (node : Node) :
    parseNode tls host reply = some node ↔ IsNode tls host reply node := by
  rw [isNode_iff]
  unfold parseNode
  cases reply.arrayOrMap with
  | none => simp
  | some element =>
    have hknown : ∀ endpoint : Option Bytes, (endpoint.any fun endpoint => strcmp endpoint (bytes "?")) =
        strcmp (endpoint.getD []) (bytes "?") := by
      rintro (_ | endpoint)
      · rfl
      · rfl
    simp only [nodeFields_eq, hknown, Option.some.injEq, exists_eq_left']
    obtain ⟨endpoint, port, role, healthy⟩ := node
    rw [ite_eq_iff]
    simp only [reduceCtorEq, and_false, false_or, not_or, Option.some.injEq, Node.mk.injEq]
    constructor
    · rintro ⟨⟨hbad, hport, hrole⟩, rfl, rfl, rfl, rfl⟩
      refine ⟨Bool.eq_false_iff.mpr hbad, ?_, rfl, hport, rfl, hrole, rfl⟩
      cases kept "endpoint" endpointText element <;> rfl
    · rintro ⟨hbad, rfl, rfl, hport, rfl, hrole, rfl⟩
      refine ⟨⟨Bool.eq_false_iff.mp hbad, hport, hrole⟩, ?_, rfl, rfl, rfl⟩
      cases kept "endpoint" endpointText element <;> rfl

theorem shardField_eq (fields : ShardFields) (p : Reply × Reply) : shardField fields p =
    ⟨(reads "slots" arrayValue p).or fields.slots, (reads "nodes" someNodes p).or fields.nodes⟩ := by
  obtain ⟨name, value⟩ := p
  cases name with
  | string str =>
    by_cases h1 : strcmp str (bytes "slots") = true
    · rw [reads_of_strcmp h1, reads_of_other h1 (by decide)]
      cases value with
      | array element => simp only [shardField, if_pos h1]; rfl
      | _ => rfl
    by_cases h2 : strcmp str (bytes "nodes") = true
    · rw [reads_of_strcmp h2, reads_of_other h2 (by decide)]
      cases value with
      | array element => cases element <;> simp [shardField, h1, h2, someNodes]
      | _ => rfl
    · simp only [reads, if_neg h1, if_neg h2]
      cases value with
      | array element => simp [shardField, h1, h2]
      | _ => rfl
  | _ => rfl

theorem parseShard_iff (shard : Reply) (slots nodes : List Reply) :
    parseShard shard = some (slots, nodes) ↔ IsShard shard slots nodes := by
  simp only [IsShard, ← arrayOrMap_eq_some_iff, ← kept_eq_some_iff]
  unfold parseShard
  cases shard.arrayOrMap with
  | none => simp
  | some element =>
    obtain ⟨fields, hf⟩ : ∃ fields, fields = (pairs element).foldl shardField ⟨none, none⟩ := ⟨_, rfl⟩
    have hslots : fields.slots = kept "slots" arrayValue element := by
      rw [hf]
      exact foldl_kept ShardFields.slots shardField _ _ (fun c p => by rw [shardField_eq]) element rfl
    have hnodes : fields.nodes = kept "nodes" someNodes element := by
      rw [hf]
      exact foldl_kept ShardFields.nodes shardField _ _ (fun c p => by rw [shardField_eq]) element rfl
    simp only [← hf, hslots, hnodes, Option.some.injEq, exists_eq_left']
    cases kept "slots" arrayValue element with
    | none => simp
    | some a =>
      cases kept "nodes" someNodes element with
      | none => simp
      | some b =>
        dsimp only
        split_ifs with heven
        · simp only [Option.some.injEq, Prod.mk.injEq]
          constructor
          · rintro ⟨rfl, rfl⟩
            exact ⟨rfl, rfl, heven⟩
          · rintro ⟨rfl, rfl, -⟩
            exact ⟨rfl, rfl⟩
        · simp only [Option.some.injEq, false_iff, not_and]
          rintro rfl rfl
          exact heven

theorem parseSlotRange_eq_some_iff (a b : Reply) (range : SlotRange) : parseSlotRange a b = some range ↔
    ∃ first last : ℤ, a = .integer first ∧ b = .integer last ∧ 0 ≤ first ∧ first ≤ last ∧ last < nredisClusterSlots ∧
      range = ⟨first.toNat, last.toNat⟩ := by
  constructor
  · intro h
    unfold parseSlotRange at h
    split at h
    · rename_i first last
      split_ifs at h with hbad
      simp only [not_or, not_lt, not_le] at hbad
      obtain ⟨h1, -, -, h4, h5⟩ := hbad
      exact ⟨first, last, rfl, rfl, h1, h5, h4, (Option.some.inj h).symm⟩
    · cases h
  · rintro ⟨first, last, rfl, rfl, h1, h2, h3, rfl⟩
    apply if_neg
    omega

theorem mem_shardRanges_iff (slots : List Reply) (k : ℕ) :
    (∃ range ∈ shardRanges slots, range.first ≤ k ∧ k ≤ range.last) ↔ RangeWith slots k := by
  simp only [shardRanges, List.mem_filterMap, parseSlotRange_eq_some_iff]
  constructor
  · rintro ⟨range, ⟨⟨a, b⟩, hp, first, last, rfl, rfl, h1, h2, h3, rfl⟩, hfirst, hlast⟩
    obtain ⟨i, hi⟩ := List.mem_iff_getElem?.mp hp
    obtain ⟨hi1, hi2⟩ := (pairs_getElem? slots i _).mp hi
    dsimp only at hfirst hlast
    exact ⟨i, first, last, hi1, hi2, h1, by omega, by omega, h3⟩
  · rintro ⟨i, first, last, hi1, hi2, h1, hfirst, hlast, h3⟩
    have hp := List.mem_of_getElem? ((pairs_getElem? slots i (_, _)).mpr ⟨hi1, hi2⟩)
    refine ⟨⟨first.toNat, last.toNat⟩, ⟨_, hp, first, last, rfl, rfl, h1, by omega, h3, rfl⟩, ?_⟩
    dsimp only
    omega

end VmodRedis.Discovery
