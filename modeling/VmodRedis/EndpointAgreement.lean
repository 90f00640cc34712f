import VmodRedis.RedirectionTexts

namespace VmodRedis.ClusterExecution

open CStrings Replies Database Connections Registry Discovery

def nodeFields (reply : Reply) : NodeFields :=
  (pairs (reply.arrayOrMap.getD [])).foldl nodeField ⟨none, 0, 0, .tbd, true⟩

structure Lists (tls : Tls) (queried : Server) (reply : Reply) (e : Bytes) (p : ℕ) (node : Node) : Prop where
  parsed : parseNode tls (hostname queried.address) reply = some node
  endpoint : (nodeFields reply).endpoint.elim [] cstr = e
  port : effectivePort tls (nodeFields reply).port (nodeFields reply).tlsPort = p

theorem portOf_le {old : ℕ} (h : old ≤ 65535) (reply : Reply) : portOf old reply ≤ 65535 := by
  cases reply with
  | integer n =>
    unfold portOf
    dsimp only
    split_ifs <;> omega
  | _ => exact h

theorem nodeField_ports {fields : NodeFields} (h : fields.port ≤ 65535 ∧ fields.tlsPort ≤ 65535) (pair : Reply × Reply) :
    (nodeField fields pair).port ≤ 65535 ∧ (nodeField fields pair).tlsPort ≤ 65535 := by
  obtain ⟨name, value⟩ := pair
  cases name with
  | string name =>
    cases value with
    | integer n =>
      unfold nodeField
      dsimp only
      split_ifs
      · exact h
      · exact ⟨portOf_le h.1 (.integer n), h.2⟩
      · exact ⟨h.1, portOf_le h.2 (.integer n)⟩
      · exact h
    | _ => unfold nodeField; dsimp only; split_ifs <;> exact h
  | _ => exact h

theorem nodeFields_ports (reply : Reply) : (nodeFields reply).port ≤ 65535 ∧ (nodeFields reply).tlsPort ≤ 65535 := by
  have hfold : ∀ (l : List (Reply × Reply)) (fields : NodeFields), fields.port ≤ 65535 ∧ fields.tlsPort ≤ 65535 →
      (l.foldl nodeField fields).port ≤ 65535 ∧ (l.foldl nodeField fields).tlsPort ≤ 65535 := by
    intro l
    induction l with
    | nil => exact fun fields h => h
    | cons pair l ih => exact fun fields h => ih _ (nodeField_ports h pair)
  exact hfold _ _ ⟨Nat.zero_le _, Nat.zero_le _⟩

theorem effectivePort_le {tls : Tls} {port tlsPort : ℕ} (h : port ≤ 65535 ∧ tlsPort ≤ 65535) :
    effectivePort tls port tlsPort ≤ 65535 := by
  unfold effectivePort
  cases tls with
  | unavailable => exact h.1
  | off =>
    dsimp only
    split_ifs
    · exact h.2
    · exact h.1
  | on =>
    dsimp only
    split_ifs
    · exact h.1
    · exact h.2

section

variable {tls : Tls} {queried : Server} {reply : Reply} {e : Bytes} {p : ℕ} {node : Node}

theorem Lists.node_eq (h : Lists tls queried reply e p node) :
    cstr node.endpoint = (if e = [] then cstr (hostname queried.address) else e) ∧ node.port = p := by
  obtain ⟨hparsed, he, hp⟩ := h
  unfold parseNode at hparsed
  cases hreply : reply.arrayOrMap with
  | none =>
    rw [hreply] at hparsed
    cases hparsed
  | some element =>
    have hfields : (pairs element).foldl nodeField ⟨none, 0, 0, .tbd, true⟩ = nodeFields reply := by
      rw [nodeFields, hreply]
      rfl
    rw [hreply] at hparsed
    dsimp only at hparsed
    rw [hfields] at hparsed
    split_ifs at hparsed
    cases hparsed
    refine ⟨?_, hp⟩
    rw [← he]
    cases (nodeFields reply).endpoint with
    | none => rfl
    | some endpoint =>
      dsimp only [Option.elim_some]
      exact apply_ite cstr _ _ _

theorem Lists.port_le (h : Lists tls queried reply e p node) : p ≤ 65535 := by
  rw [← h.port]
  exact effectivePort_le (nodeFields_ports reply)

/-- The redirection to a node and its discovery register it with one location,
which is parsed back to its endpoint and its port, so that there is one server for it. -/
structure Agrees (text : Bytes) (node : Node) : Prop where
  location : redirectionLocation text = some node.location
  address : ∀ db role, ∃ v, newRedisServer db node.location role = some v ∧
    v.raw = node.location ∧ v.address = .host (cstr node.endpoint) node.port
  same : ∀ db now rules s db', WellPlaced db → unsafeAddNode now rules node db = (some s, db') →
    ∀ input rules' location, redirectionLocation text = some location →
      (unsafeAddRedisServer input rules' location .tbd db').1 = some s

theorem newRedisServer_location_eq {node : Node} (hport : node.port < 2 ^ 32) (db : Db) (role : Role) :
    ∃ v, newRedisServer db node.location role = some v ∧
      v.raw = node.location ∧ v.address = .host (cstr node.endpoint) node.port := by
  have hsplit : strrchr node.location colon = some (cstr node.endpoint, decimal node.port) :=
    strrchr_append ((isDigits_decimal node.port).not_mem (by decide)) node.zero_not_mem_location
  refine ⟨{ raw := cstr node.location, address := .host (cstr node.endpoint) (atoi (decimal node.port)), role := role
            weight := 0, pool := .empty, slots := fun _ => false, sickness := ⟨0, 0⟩ }, ?_,
    cstr_of_not_mem node.zero_not_mem_location, ?_⟩
  · simp [newRedisServer, hsplit, Address.isHost]
  · rw [atoi_decimal hport]

theorem unsafeAddNode_same {db db' : Db} {now : ℤ} {rules : List WeightRule} {node : Node} {s : ServerId}
    (h : WellPlaced db) (ha : unsafeAddNode now rules node db = (some s, db')) (input : AddInput)
    (rules' : List WeightRule) : (unsafeAddRedisServer input rules' node.location .tbd db').1 = some s := by
  rcases unsafeAddNode_spec h now rules node with ⟨-, he⟩ | ⟨-, t, d, he, hadded, hplaced, hraw⟩
  · rw [he] at ha
    cases ha
  · rw [he] at ha
    cases ha
    rcases unsafeAddRedisServer_spec hplaced input rules' node.location .tbd with
      ⟨t, d, he', hadded', hplaced', hraw'⟩ | ⟨hn, -⟩
    · have hs : db'.Registered s := (hadded.registered s).mpr (Or.inr rfl)
      have hkept : (d.server s).raw = node.location := by
        by_cases hst : s = t
        · rw [hst, hraw', cstr_of_not_mem node.zero_not_mem_location]
        · rw [hadded'.others s hst, hraw]
      have hts : t = s := hplaced'.raw_injective t s ((hadded'.registered t).mpr (Or.inr rfl))
        ((hadded'.registered s).mpr (Or.inl hs)) (by rw [hraw', hkept, cstr_of_not_mem node.zero_not_mem_location])
      rw [he', hts]
    · exact absurd hn (newRedisServer_location db' node .tbd)

/-- A redirection to a node and the discovery of that node agree, unless the endpoint is empty. -/
theorem redirection_agrees_iff (tls : Tls) (queried : Server) (reply : Reply) (e : Bytes) (p : ℕ) (node : Node)
    (h : Lists tls queried reply e p node) (word slot : Bytes) (hword : word ∈ [bytes "MOVED", bytes "ASK"])
    (hslot : IsNumber 0 (nredisClusterSlots - 1) slot) :
    Agrees (redirectionText word slot e (decimal p)) node ↔ e ≠ [] ∨ cstr (hostname queried.address) = [] := by
  obtain ⟨hendpoint, hport⟩ := h.node_eq
  have hlocation : redirectionLocation (redirectionText word slot e (decimal p)) = some (e ++ colon :: decimal p) := by
    have he : 0 ∉ e := by
      rw [← h.endpoint]
      cases (nodeFields reply).endpoint with
      | none => exact List.not_mem_nil
      | some endpoint => exact zero_not_mem_cstr endpoint
    have hblank : blank ∉ word ∧ 0 ∉ word := by
      rcases List.mem_cons.mp hword with rfl | hword
      · decide
      · rw [List.mem_singleton.mp hword]
        decide
    have hport : 0 ∉ decimal p := zero_not_mem_decimal p
    have hslot0 : 0 ∉ slot := hslot.1.not_mem (by decide)
    apply redirectionLocation_text hblank.1 (hslot.1.not_mem (by decide))
    simp only [redirectionText, List.mem_append, List.mem_cons, not_or]
    exact ⟨hblank.2, by decide, hslot0, by decide, he, by decide, hport⟩
  have hsame : e ++ colon :: decimal p = node.location ↔ e ≠ [] ∨ cstr (hostname queried.address) = [] := by
    rw [Node.location, hport, List.append_left_inj, hendpoint]
    split_ifs with he
    · rw [he]
      exact ⟨fun hnil => Or.inr hnil.symm, fun hor => (hor.resolve_left fun hne => hne rfl).symm⟩
    · exact iff_of_true rfl (Or.inl he)
  constructor
  · intro ha
    rw [← hsame, ← Option.some_inj, ← hlocation, ha.location]
  · intro hc
    have heq := hsame.mpr hc
    rw [heq] at hlocation
    refine ⟨hlocation, newRedisServer_location_eq (by have := h.port_le; omega), ?_⟩
    intro db now rules s db' hplaced ha input rules' location hl
    rw [hlocation, Option.some_inj] at hl
    rw [← hl]
    exact unsafeAddNode_same hplaced ha input rules'

end

def queriedServer : Server := { Server.blank with raw := bytes "10.0.0.1:7000", address := .host (bytes "10.0.0.1") 7000 }

def listing (endpoint : Bytes) : Reply :=
  .array [.string (bytes "endpoint"), .string endpoint, .string (bytes "port"), .integer 7001, .string (bytes "role"),
    .string (bytes "master")]

theorem redirection_agrees_iff_announced :
    Agrees (redirectionText (bytes "ASK") (bytes "0") (bytes "10.0.0.2") (decimal 7001))
      ⟨bytes "10.0.0.2", 7001, .master, true⟩ :=
  (redirection_agrees_iff .off queriedServer (listing (bytes "10.0.0.2")) (bytes "10.0.0.2") 7001
    ⟨bytes "10.0.0.2", 7001, .master, true⟩ ⟨by rfl, by rfl, by rfl⟩ (bytes "ASK") (bytes "0") (by decide)
    ⟨isDigits_of_all (by decide) (by decide), by decide, by decide⟩).mpr (Or.inl (by decide))

theorem redirection_disagrees :
    ¬ ∀ (queried : Server) (reply : Reply) (e : Bytes) (p : ℕ) (node : Node), Lists .off queried reply e p node →
      Agrees (redirectionText (bytes "MOVED") (bytes "3999") e (decimal p)) node := by
  intro h
  have hlists : Lists .off queriedServer (listing []) [] 7001 ⟨bytes "10.0.0.1", 7001, .master, true⟩ :=
    ⟨by rfl, by rfl, by rfl⟩
  have hl := (h _ _ _ _ _ hlists).location
  have hr : redirectionLocation (redirectionText (bytes "MOVED") (bytes "3999") [] (decimal 7001)) =
      some (bytes ":7001") := by decide +kernel
  rw [hr] at hl
  exact absurd hl (by decide +kernel)

end VmodRedis.ClusterExecution
