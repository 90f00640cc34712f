import VmodRedis.ClusterExecution

namespace VmodRedis.DatabaseCreation

open CStrings Database Connections Registry Planning DiscoveryWalk ClusterExecution

inductive ServerType where
  | master
  | slave
  | auto
  | cluster
  deriving DecidableEq

inductive Protocol where
  | default
  | resp2
  | resp3
  deriving DecidableEq

def type2role : ServerType → Role
  | .master => .master
  | .slave => .slave
  | .auto | .cluster => .tbd

def toUnsigned (v : ℤ) : ℕ := (v % 2 ^ 32).toNat

theorem toUnsigned_le (v : ℤ) : toUnsigned v ≤ uintMax := by
  have := Int.emod_lt_of_pos v (show (0 : ℤ) < 2 ^ 32 by decide)
  unfold toUnsigned uintMax
  omega

structure Build where
  tls : Bool
  resp3 : Bool

structure DbArgs where
  location : Option Bytes
  type : ServerType
  connectionTimeout : ℤ
  connectionTtl : ℤ
  commandTimeout : ℤ
  maxCommandRetries : ℤ
  sharedConnections : Bool
  maxConnections : ℤ
  protocol : Protocol
  tls : Bool
  tlsFiles : List (Option Bytes)
  user : Option Bytes
  password : Option Bytes
  sicknessTtl : ℤ
  ignoreSlaves : Bool
  maxClusterHops : ℤ

def DbArgs.supported (args : DbArgs) (build : Build) : Bool :=
  (args.protocol ≠ .resp3 || build.resp3) && (!args.tls || build.tls)

def DbArgs.valid (args : DbArgs) (build : Build) : Bool :=
  0 ≤ args.connectionTimeout && 0 ≤ args.connectionTtl && 0 ≤ args.commandTimeout && 0 ≤ args.maxCommandRetries &&
    0 ≤ args.maxConnections && (!build.tls || args.tlsFiles.all Option.isSome) && args.user.isSome &&
    args.password.isSome && 0 ≤ args.sicknessTtl && 0 ≤ args.maxClusterHops

def DbArgs.options (args : DbArgs) (build : Build) (id : DbId) : Options where
  id := id
  connectionTtl := toUnsigned args.connectionTtl
  maxCommandRetries := toUnsigned args.maxCommandRetries
  sharedConnections := args.sharedConnections
  maxConnections := toUnsigned args.maxConnections
  tls := if build.tls then (if args.tls then .on else .off) else .unavailable
  sicknessTtl := toUnsigned args.sicknessTtl
  ignoreSlaves := args.ignoreSlaves
  clusterEnabled := args.type = .cluster
  maxHops := toUnsigned args.maxClusterHops

/-- Both callers assert that the server was added. -/
def addFirst (fuel : ℕ) (input : RedirectInput) (location : Bytes) (role : Role) (discover : Db → Bool) (db : Db) :
    Except Fault Db :=
  match unsafeAddRedisServer input.add input.rules location role db with
  | (none, _) => .error .serverRejected
  | (some s, db) =>
    if discover db then
      match unsafeDiscoverSlots fuel input.discovery s db with
      | none => .error .diverged
      | some (_, walk) => .ok walk.db
    else .ok db

def given (location : Option Bytes) : Option Bytes := location.filter fun l => cstr l ≠ []

/-- `tlsContext` says whether the library creates the context that TLS needs. -/
def vmodDbInit (fuel : ℕ) (input : RedirectInput) (build : Build) (tlsContext : Bool) (id : DbId) (args : DbArgs) :
    Except Fault (Option Db) :=
  if !args.supported build || !args.valid build then .ok none
  else if args.tls && !tlsContext then .ok none
  else
    let db := newVmodRedisDb (args.options build id)
    match given args.location with
    | none => .ok (some db)
    | some location => (addFirst fuel input location (type2role args.type) (·.clusterEnabled) db).map some

def vmodDbAddServer (fuel : ℕ) (input : RedirectInput) (location : Option Bytes) (type : ServerType) (db : Db) :
    Except Fault Db :=
  match given location with
  | none => .ok db
  | some location =>
    if !db.clusterEnabled || type = .cluster then
      addFirst fuel input location (type2role type) (fun db => db.clusterEnabled && db.stats.discoveriesTotal = 0) db
    else .ok db

end VmodRedis.DatabaseCreation
