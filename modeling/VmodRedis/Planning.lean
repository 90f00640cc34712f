import VmodRedis.Registry

namespace VmodRedis.Planning

open CStrings Database Connections

/-- The ways in which an execution stops without returning: a failed assertion of the source, a
wait that nobody ends or a discovery that does not return. -/
inductive Fault where
  | workspaceOverrun
  | planExhausted
  | nothingToEvict
  | retriesExceeded
  | nullArgument
  | malformedRedirection
  | serverRejected
  | blocked
  | diverged
  deriving DecidableEq

structure Plan where
  contexts : List ContextId
  nextContext : ℕ
  servers : List ServerId
  nextServer : ℕ

def Plan.empty : Plan := ⟨[], 0, [], 0⟩

/-- What building a plan meets: whether the plan itself is allocated, what the validity checks
read, and the workspace reserved for the list of contexts and then for the list of servers. -/
structure PlanInput where
  allocated : Bool
  probe : Probe
  contextsWs : ℕ
  serversWs : ℕ

abbrev pointerSize : ℕ := 8

/-- The loop over the private contexts: those planned, those still held by the task, and whether it
stopped for lack of workspace. -/
structure ContextScan where
  planned : List ContextId
  kept : List ContextId
  ncontexts : ℕ
  db : Db
  overflow : Bool

def scanContexts (suitable : ContextId → Bool) (probe : Probe) (heap : Heap) (maxSize freeWs : ℕ) :
    List ContextId → ContextScan → ContextScan
  | [], scan => scan
  | c :: rest, scan =>
    if suitable c then
      let (valid, db) := isValidRedisContext probe heap scan.db c
      if valid then
        -- the source compares with the whole reservation, not with what is left of it
        if pointerSize ≤ freeWs then
          let scan := { scan with planned := scan.planned ++ [c], kept := scan.kept ++ [c], db := db }
          if scan.planned.length = maxSize then { scan with kept := scan.kept ++ rest }
          else scanContexts suitable probe heap maxSize freeWs rest scan
        else { scan with kept := scan.kept ++ c :: rest, db := db, overflow := true }
      else
        scanContexts suitable probe heap maxSize freeWs rest
          { scan with ncontexts := scan.ncontexts - 1, db := db }
    else scanContexts suitable probe heap maxSize freeWs rest { scan with kept := scan.kept ++ [c] }

def contextsOf (suitable : ContextId → Bool) (input : PlanInput) (heap : Heap) (maxSize : ℕ)
    (task : Task) (db : Db) : ContextScan :=
  if db.sharedConnections then ⟨[], task.contexts, task.ncontexts, db, false⟩
  else scanContexts suitable input.probe heap maxSize input.contextsWs task.contexts
    ⟨[], [], task.ncontexts, db, false⟩

def suitableForServer (db : Db) (heap : Heap) (s : ServerId) (c : ContextId) : Bool :=
  (heap c).db = db.id ∧ (heap c).server = s

def populateSimpleExecutionPlan (input : PlanInput) (heap : Heap) (maxSize : ℕ) (s : ServerId)
    (task : Task) (db : Db) : Except Fault (Plan × Task × Db) :=
  let scan := contextsOf (suitableForServer db heap s) input heap maxSize task db
  let task := ⟨scan.ncontexts, scan.kept⟩
  if scan.overflow then .ok (⟨scan.planned, 0, [], 0⟩, task, scan.db)
  else if input.contextsWs < pointerSize * scan.planned.length then .error .workspaceOverrun
  else if pointerSize ≤ input.serversWs then .ok (⟨scan.planned, 0, [s], 0⟩, task, scan.db)
  else .ok (⟨scan.planned, 0, [], 0⟩, task, scan.db)

inductive Round where
  | first
  | second
  | third
  | fourth
  deriving DecidableEq

def listConsidered (master : Bool) (role : Role) : Round → Bool
  | .first => !master || role = .master
  | .second => !master || role = .master || role = .tbd
  | .third | .fourth => true

def ownsSlot (db : Db) (slot : ℕ) (s : ServerId) : Bool := !db.clusterEnabled || (db.server s).slots slot

def healthy (db : Db) (now : ℤ) (s : ServerId) : Bool := (db.server s).sickness.exp ≤ now

def serverConsidered (db : Db) (now : ℤ) (master : Bool) (slot : ℕ) (s : ServerId) : Round → Bool
  | .first => ownsSlot db slot s && healthy db now s
  | .second => ownsSlot db slot s && ((master && (db.server s).role = .tbd) || !healthy db now s)
  | .third => healthy db now s
  | .fourth => !healthy db now s

structure ServerScan where
  planned : List ServerId
  remaining : ℕ
  db : Db
  overflow : Bool

def scanServers (considered : ServerId → Bool) (freeWs : ℕ) : List ServerId → ServerScan → ServerScan
  | [], scan => scan
  | s :: rest, scan =>
    if considered s then
      if pointerSize ≤ freeWs then
        let scan := { scan with planned := scan.planned ++ [s], remaining := scan.remaining - 1 }
        if scan.remaining = 0 then scan else scanServers considered freeWs rest scan
      else { scan with overflow := true }
    else scanServers considered freeWs rest scan

def visitList (now : ℤ) (master : Bool) (slot freeWs : ℕ) (round : Round) (scan : ServerScan)
    (b : Bucket) : ServerScan :=
  if scan.overflow || scan.remaining = 0 || !listConsidered master b.2 round then scan
  else
    let n := scan.planned.length
    let scan := scanServers (fun s => serverConsidered scan.db now master slot s round) freeWs
      (scan.db.servers b) scan
    match round, scan.planned[n]? with
    | .first, some s => { scan with db := { scan.db with
        servers := Function.update scan.db.servers b (Buckets.moveToTail s (scan.db.servers b)) } }
    | _, _ => scan

def visitLists (now : ℤ) (master : Bool) (slot freeWs : ℕ) (scan : ServerScan) (round : Round) :
    ServerScan :=
  buckets.foldl (visitList now master slot freeWs round) scan

def serversOf (now : ℤ) (master : Bool) (slot freeWs remaining : ℕ) (db : Db) : ServerScan :=
  let visit := visitLists now master slot freeWs
  let scan := (if db.clusterEnabled then [.first] else [.first, .second]).foldl visit
    ⟨[], remaining, db, false⟩
  if db.clusterEnabled && scan.planned.isEmpty && !scan.overflow then
    [Round.third, Round.fourth].foldl visit scan
  else scan

def suitableForCommand (db : Db) (heap : Heap) (master : Bool) (slot : ℕ) (c : ContextId) : Bool :=
  let server := db.server (heap c).server
  (heap c).db = db.id && ((master && server.role = .master) || (!master && server.role ≠ .master)) &&
    (!db.clusterEnabled || server.slots slot)

def populateExecutionPlan (input : PlanInput) (heap : Heap) (maxSize : ℕ) (master : Bool) (slot : ℕ)
    (task : Task) (db : Db) : Except Fault (Plan × Task × Db) :=
  let scan := contextsOf (suitableForCommand db heap master slot) input heap maxSize task db
  let contexts := scan.planned
  if scan.overflow then .ok (⟨contexts, 0, [], 0⟩, ⟨scan.ncontexts, scan.kept⟩, scan.db)
  else
    let kept := match contexts with
      | [] => scan.kept
      | c :: _ => Buckets.moveToTail c scan.kept
    let task : Task := ⟨scan.ncontexts, kept⟩
    if input.contextsWs < pointerSize * contexts.length then .error .workspaceOverrun
    else if contexts.length < maxSize then
      let scan := serversOf input.probe.now master slot input.serversWs (maxSize - contexts.length) scan.db
      if !scan.overflow && input.serversWs < pointerSize * scan.planned.length then
        .error .workspaceOverrun
      else .ok (⟨contexts, 0, scan.planned, 0⟩, task, scan.db)
    else .ok (⟨contexts, 0, [], 0⟩, task, scan.db)

def planExecution (input : PlanInput) (heap : Heap) (maxSize : ℕ) (server : Option ServerId)
    (master : Bool) (slot : ℕ) (task : Task) (db : Db) : Except Fault (Option Plan × Task × Db) :=
  if input.allocated then
    let result := match server with
      | some s => populateSimpleExecutionPlan input heap maxSize s task db
      | none => populateExecutionPlan input heap maxSize master slot task db
    result.map fun (plan, task, db) => (some plan, task, db)
  else .ok (none, task, db)

end VmodRedis.Planning
