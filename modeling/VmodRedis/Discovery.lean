import VmodRedis.Registry

namespace VmodRedis.Discovery

open CStrings Replies Database Connections Registry

structure SlotRange where
  first : ℕ
  last : ℕ

def parseSlotRange : Reply → Reply → Option SlotRange
  | .integer first, .integer last =>
    if first < 0 ∨ nredisClusterSlots ≤ first ∨ last < 0 ∨ nredisClusterSlots ≤ last ∨ last < first then none
    else some ⟨first.toNat, last.toNat⟩
  | _, _ => none

def pairs : List Reply → List (Reply × Reply)
  | a :: b :: rest => (a, b) :: pairs rest
  | _ => []

structure Node where
  endpoint : Bytes
  port : ℕ
  role : Role
  healthy : Bool

structure NodeFields where
  endpoint : Option Bytes
  port : ℕ
  tlsPort : ℕ
  role : Role
  healthy : Bool

def portOf (old : ℕ) : Reply → ℕ
  | .integer n => if 0 < n ∧ n ≤ 65535 then n.toNat else old
  | _ => old

def nodeField (fields : NodeFields) : Reply × Reply → NodeFields
  | (.string name, value) =>
    if strcmp name (bytes "endpoint") then
      match value with
      | .string str => { fields with endpoint := some str }
      | .nil => { fields with endpoint := some [] }
      | _ => fields
    else if strcmp name (bytes "port") then { fields with port := portOf fields.port value }
    else if strcmp name (bytes "tls-port") then { fields with tlsPort := portOf fields.tlsPort value }
    else
      match value with
      | .string str =>
        if strcmp name (bytes "role") then
          if strcmp str (bytes "master") then { fields with role := .master }
          else if strcmp str (bytes "replica") then { fields with role := .slave }
          else fields
        else if strcmp name (bytes "health") then { fields with healthy := strcmp str (bytes "online") }
        else fields
      | _ => fields
  | _ => fields

def effectivePort (tls : Tls) (port tlsPort : ℕ) : ℕ :=
  match tls with
  | .unavailable => port
  | .off => if port = 0 then tlsPort else port
  | .on => if tlsPort = 0 then port else tlsPort

def parseNode (tls : Tls) (host : Bytes) (reply : Reply) : Option Node :=
  match reply.arrayOrMap with
  | none => none
  | some element =>
    let fields := (pairs element).foldl nodeField ⟨none, 0, 0, .tbd, true⟩
    let misconfigured := fields.endpoint.any fun endpoint => strcmp endpoint (bytes "?")
    let endpoint := match fields.endpoint with
      | some endpoint => if cstr endpoint = [] then host else endpoint
      | none => host
    let port := effectivePort tls fields.port fields.tlsPort
    if misconfigured ∨ port = 0 ∨ fields.role = .tbd then none
    else some ⟨endpoint, port, fields.role, fields.healthy⟩

def unsafeResetSlots (db : Db) : Db :=
  db.allServers.foldl (fun db s => db.setServer s { db.server s with
    slots := fun k => if k < nredisClusterSlots then false else (db.server s).slots k }) db

def Node.location (node : Node) : Bytes := cstr node.endpoint ++ colon :: decimal node.port

def unsafeAddNode (now : ℤ) (rules : List WeightRule) (node : Node) (db : Db) : Option ServerId × Db :=
  if 256 ≤ node.location.length then (none, db)
  else
    -- the role is known, so that nobody is asked for it
    match unsafeAddRedisServer ⟨⟨now, false, none⟩, now⟩ rules node.location node.role db with
    | (none, db) => (none, db)
    | (some s, db) => (some s, if node.healthy then db else flagSickness now s db)

def registerRange (s : ServerId) (db : Db) (range : SlotRange) : Db :=
  db.setServer s { db.server s with
    slots := fun k => if range.first ≤ k ∧ k ≤ range.last then true else (db.server s).slots k }

/-- The state of the loop over the shards: `reset` says whether the previous slots were reset, and
`clock` has the times of the visits to come. -/
structure Topology where
  db : Db
  slotRanges : ℕ
  reset : Bool
  clock : ℕ → ℤ

def discoverNode (rules : List WeightRule) (host : Bytes) (ranges : List SlotRange) (topology : Topology)
    (reply : Reply) : Topology :=
  match parseNode topology.db.tls host reply with
  | none => topology
  | some node =>
    let clock := fun i => topology.clock (i + 1)
    match unsafeAddNode (topology.clock 0) rules node topology.db with
    | (none, db) => { topology with db := db, clock := clock }
    | (some s, db) =>
      let first := !ranges.isEmpty && !topology.reset
      let db := if first then unsafeResetSlots db else db
      { db := ranges.foldl (registerRange s) db, slotRanges := (topology.slotRanges + ranges.length) % 2 ^ 32,
        reset := topology.reset || first, clock := clock }

structure ShardFields where
  slots : Option (List Reply)
  nodes : Option (List Reply)

def shardField (fields : ShardFields) : Reply × Reply → ShardFields
  | (.string key, .array element) =>
    if strcmp key (bytes "slots") then { fields with slots := some element }
    else if strcmp key (bytes "nodes") && !element.isEmpty then { fields with nodes := some element }
    else fields
  | _ => fields

def parseShard (shard : Reply) : Option (List Reply × List Reply) :=
  match shard.arrayOrMap with
  | none => none
  | some element =>
    let fields := (pairs element).foldl shardField ⟨none, none⟩
    match fields.slots, fields.nodes with
    | some slots, some nodes => if slots.length % 2 = 0 then some (slots, nodes) else none
    | _, _ => none

def shardRanges (slots : List Reply) : List SlotRange :=
  (pairs slots).filterMap fun (first, last) => parseSlotRange first last

def discoverShard (rules : List WeightRule) (host : Bytes) (topology : Topology) (shard : Reply) : Topology :=
  match parseShard shard with
  | none => topology
  | some (slots, nodes) => nodes.foldl (discoverNode rules host (shardRanges slots)) topology

def hostname : Address → Bytes
  | .host host _ => host
  | .path path => path

def countDiscovery (done : Bool) (db : Db) : Db :=
  if done then db.setStats { db.stats with discoveriesTotal := db.stats.discoveriesTotal + 1 }
  else db.setStats { db.stats with discoveriesFailed := db.stats.discoveriesFailed + 1 }

/-- `reply` is missing if connecting, initialising the connection or executing the command failed. -/
def unsafeDiscoverSlotsAux (clock : ℕ → ℤ) (rules : List WeightRule) (reply : Option Reply) (s : ServerId)
    (db : Db) : Bool × Db :=
  match reply with
  | some (.array shards) =>
    let topology := shards.foldl (discoverShard rules (hostname (db.server s).address)) ⟨db, 0, false, clock⟩
    let done := 0 < topology.slotRanges
    (done, countDiscovery done topology.db)
  | _ => (false, countDiscovery false db)

end VmodRedis.Discovery
