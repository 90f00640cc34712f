import VmodRedis.Replies
import Mathlib.Algebra.GroupWithZero.Nat
import Mathlib.Logic.Function.Basic
import Mathlib.Data.List.FinRange
import Mathlib.Data.List.ProdSigma

namespace VmodRedis.Database

open CStrings

abbrev nredisServerWeights : ℕ := 4

instance : NeZero nredisServerWeights := ⟨by decide⟩

abbrev nredisClusterSlots : ℕ := 16384

abbrev uintMax : ℕ := 2 ^ 32 - 1

/-- The order of the roles is the order in which plans consider them. -/
inductive Role where
  | slave
  | master
  | tbd
  deriving DecidableEq

def Role.all : List Role := [.slave, .master, .tbd]

abbrev Weight := Fin nredisServerWeights

abbrev Bucket := Weight × Role

def buckets : List Bucket := List.finRange nredisServerWeights ×ˢ Role.all

theorem mem_buckets (b : Bucket) : b ∈ buckets := by
  obtain ⟨w, r⟩ := b
  cases r <;> simp [buckets, Role.all]

theorem buckets_nodup : buckets.Nodup := by decide

/-- Identities of `redis_server_t`, `redis_context_t` and `struct vmod_redis_db` objects. -/
abbrev ServerId := ℕ

abbrev ContextId := ℕ

abbrev DbId := ℕ

inductive Address where
  | host (host : Bytes) (port : ℕ)
  | path (path : Bytes)
  deriving DecidableEq

def Address.isHost : Address → Bool
  | .host _ _ => true
  | .path _ => false

structure Pool where
  ncontexts : ℕ
  free : List ContextId
  busy : List ContextId

def Pool.empty : Pool := ⟨0, [], []⟩

structure Sickness where
  tst : ℤ
  exp : ℤ

structure Server where
  raw : Bytes
  address : Address
  role : Role
  weight : Weight
  pool : Pool
  slots : ℕ → Bool
  sickness : Sickness

def Server.bucket (s : Server) : Bucket := (s.weight, s.role)

structure Context where
  db : DbId
  server : ServerId
  err : Bool
  version : ℕ
  tst : ℤ

structure Dropped where
  error : ℕ
  hungUp : ℕ
  overflow : ℕ
  ttl : ℕ
  version : ℕ
  sick : ℕ

structure Stats where
  serversTotal : ℕ
  serversFailed : ℕ
  connectionsTotal : ℕ
  connectionsFailed : ℕ
  dropped : Dropped
  workersBlocked : ℕ
  commandsTotal : ℕ
  commandsFailed : ℕ
  commandsRetried : ℕ
  commandsError : ℕ
  commandsNoscript : ℕ
  discoveriesTotal : ℕ
  discoveriesFailed : ℕ
  repliesMoved : ℕ
  repliesAsk : ℕ

def Stats.zero : Stats := ⟨0, 0, 0, 0, ⟨0, 0, 0, 0, 0, 0⟩, 0, 0, 0, 0, 0, 0, 0, 0, 0, 0⟩

inductive Tls where
  | unavailable
  | off
  | on
  deriving DecidableEq

structure Options where
  id : DbId
  connectionTtl : ℕ
  maxCommandRetries : ℕ
  sharedConnections : Bool
  maxConnections : ℕ
  tls : Tls
  sicknessTtl : ℤ
  ignoreSlaves : Bool
  clusterEnabled : Bool
  maxHops : ℕ

/-- `struct vmod_redis_db`. The servers are objects in a heap, and the tail queues hold their
identities; `nextServer` is the one that the next allocation returns. -/
structure Db extends Options where
  servers : Bucket → List ServerId
  server : ServerId → Server
  nextServer : ServerId
  stats : Stats

def Server.blank : Server := ⟨[], .path [], .tbd, 0, .empty, fun _ => false, ⟨0, 0⟩⟩

def newVmodRedisDb (options : Options) : Db :=
  { options with servers := fun _ => [], server := fun _ => .blank, nextServer := 0, stats := .zero }

/-- `weight_rule_t`: the compiled expression is the set of the texts that it matches. -/
structure WeightRule where
  weight : Weight
  vre : Bytes → Bool

structure Task where
  ncontexts : ℕ
  contexts : List ContextId

namespace Db

def Registered (db : Db) (s : ServerId) : Prop := ∃ b, s ∈ db.servers b

def allServers (db : Db) : List ServerId := buckets.flatMap db.servers

theorem mem_allServers (db : Db) (s : ServerId) : s ∈ db.allServers ↔ db.Registered s := by
  simp [allServers, Registered, mem_buckets]

instance (db : Db) (s : ServerId) : Decidable (db.Registered s) :=
  decidable_of_iff _ (db.mem_allServers s)

def setServer (db : Db) (s : ServerId) (v : Server) : Db :=
  { db with server := Function.update db.server s v }

def setPool (db : Db) (s : ServerId) (p : Pool) : Db :=
  db.setServer s { db.server s with pool := p }

def removeServer (db : Db) (s : ServerId) : Db :=
  let b := (db.server s).bucket
  { db with servers := Function.update db.servers b ((db.servers b).erase s) }

def insertServer (db : Db) (s : ServerId) : Db :=
  let b := (db.server s).bucket
  { db with servers := Function.update db.servers b (db.servers b ++ [s]) }

def setStats (db : Db) (stats : Stats) : Db := { db with stats := stats }

@[simp] theorem setServer_servers (db : Db) (s : ServerId) (v : Server) :
    (db.setServer s v).servers = db.servers := rfl

@[simp] theorem setServer_server (db : Db) (s : ServerId) (v : Server) :
    (db.setServer s v).server = Function.update db.server s v := rfl

@[simp] theorem setPool_servers (db : Db) (s : ServerId) (p : Pool) :
    (db.setPool s p).servers = db.servers := rfl

end Db

end VmodRedis.Database
