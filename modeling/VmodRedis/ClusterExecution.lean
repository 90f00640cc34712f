import VmodRedis.DiscoveryWalk
import VmodRedis.Execution
import VmodRedis.Slots

namespace VmodRedis.ClusterExecution

open CStrings Replies Database Connections Registry Planning DiscoveryWalk Execution Slots

structure RedirectInput where
  add : AddInput
  rules : List WeightRule
  discovery : DiscoveryInput

structure ClusterInput where
  call : ℕ → CallInput
  redirect : ℕ → RedirectInput

def redirectionLocation (str : Bytes) : Option Bytes :=
  (strchr str 32).bind fun rest => (strchr rest.tail 32).map List.tail

def countMoved (w : World) : World :=
  { w with db := w.db.setStats { w.db.stats with repliesMoved := w.db.stats.repliesMoved + 1 } }

def countAsk (w : World) : World :=
  { w with db := w.db.setStats { w.db.stats with repliesAsk := w.db.stats.repliesAsk + 1 } }

def redirect (fuel : ℕ) (input : RedirectInput) (i : ℕ) (str : Bytes) (w : World) :
    World × Except Fault ServerId :=
  match redirectionLocation str with
  | none => (w, .error .malformedRedirection)
  | some location =>
    match unsafeAddRedisServer input.add input.rules location .tbd w.db with
    | (none, db) => ({ w with db := db }, .error .serverRejected)
    | (some s, db) =>
      let ask := !strncmp str (bytes "MOVED")
      let w := { w with db := db }.log (.redirection ask location s)
      if ask then (countAsk w, .ok s)
      else
        let w := (countMoved w).log (.discovering i s)
        match unsafeDiscoverSlots fuel input.discovery s w.db with
        | none => (w, .error .diverged)
        | some (_, walk) => ({ w with db := walk.db }, .ok s)

section

variable (sha1 : Bytes → Bytes) (fuel : ℕ) (input : ClusterInput)

/-- The loop of `cluster_execute` from its call `i` on, `hops` redirections being left to follow. -/
def follow (maxRetries : ℕ) (master : Bool) (slot : ℕ) :
    ℕ → ℕ → Option ServerId → Bool → Argv → ℕ → World → Executed
  | hops, i, server, asking, argv, retries, w =>
    let r := redisExecute sha1 (input.call i) ⟨maxRetries, server, asking, master, slot⟩ argv retries w
    match r.outcome with
    | .ok (some (.error str)) =>
      if (Reply.error str).isRedirection then
        match redirect fuel (input.redirect i) i str r.world with
        | (w, .error f) => { r with world := w, outcome := .error f }
        | (w, .ok s) =>
          match hops with
          | 0 => { r with world := w, outcome := .ok none }
          | hops + 1 =>
            if r.retries ≤ maxRetries then
              follow maxRetries master slot hops (i + 1) (some s) (!strncmp str (bytes "MOVED")) r.argv r.retries
                (w.log .followed)
            else { r with world := w, outcome := .ok none }
      else r
    | _ => r

def hopsOf (db : Db) : ℕ := if 0 < db.maxHops then db.maxHops else uintMax

def clusterExecute (maxRetries : ℕ) (master : Bool) (argv : Argv) (retries : ℕ) (w : World) : Executed :=
  match argv.head? with
  | some (some command) =>
    let index := getKeyIndex command
    if 0 < index ∧ index < argv.length then
      match argv[index.toNat]? with
      | some (some key) =>
        follow sha1 fuel input maxRetries master (getClusterSlot key) (hopsOf w.db) 0 none false argv retries w
      | _ => ⟨w, argv, retries, .error .nullArgument⟩
    else ⟨w, argv, retries, .ok none⟩
  | _ => ⟨w, argv, retries, .error .nullArgument⟩

def dbExecute (maxRetries : ℕ) (master : Bool) (argv : Argv) (w : World) : Executed :=
  let master := master || w.db.ignoreSlaves
  match argv.head? with
  | some (some command) =>
    let script := strcasecmp command (bytes "EVAL") || strcasecmp command (bytes "EVALSHA")
    let master := master || (w.db.clusterEnabled && script)
    if w.db.clusterEnabled then clusterExecute sha1 fuel input maxRetries master argv 0 w
    else redisExecute sha1 (input.call 0) ⟨maxRetries, none, false, master, 0⟩ argv 0 w
  | _ => ⟨w, argv, 0, .error .nullArgument⟩

end

def idleWorld (db : Db) : World := ⟨db, fun _ => ⟨0, 0, false, 0, 0⟩, ⟨0, []⟩, 0, []⟩

def answering (reply : Reply) : AttemptInput :=
  let answer : Command → Option Reply
    | .argv _ => some reply
    | _ => some (.status (bytes "OK"))
  ⟨⟨0, fun _ => 0, fun _ => false⟩, true, [], ⟨true, true, true⟩, answer, answer⟩

def redirecting (str : Bytes) : ClusterInput where
  call i := ⟨⟨true, ⟨0, fun _ => 0, fun _ => false⟩, 1024, 1024⟩,
    fun _ => answering (if i = 0 then .error str else .string (bytes "v"))⟩
  redirect _ := ⟨⟨⟨0, false, none⟩, 0⟩, [], ⟨fun _ _ => 0, [], fun _ _ => some (.array Discovery.sampleShards)⟩⟩

def getKey : Argv := [some (bytes "GET"), some (bytes "key")]

end VmodRedis.ClusterExecution
