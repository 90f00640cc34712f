import VmodRedis.PlanScans
import VmodRedis.SharedPool

namespace VmodRedis.Execution

open CStrings Replies Database Connections Planning SharedPool

/-- `argv`: a copy that did not fit in the workspace leaves a null pointer behind. -/
abbrev Argv := List (Option Bytes)

inductive Command where
  | readonly
  | asking
  | argv (args : List Bytes)
  | readwrite

inductive Event where
  | enter (retries : ℕ)
  | leave (retries : ℕ)
  | attempt
  | opened (s : ServerId) (held accepted : ℕ)
  | locked (s : ServerId) (c : Option ContextId)
  | exchange (s : ServerId) (c : ContextId) (commands : List Command) (reply : Option Reply) (err : Bool)
  | redirection (ask : Bool) (location : Bytes) (s : ServerId)
  | discovering (i : ℕ) (s : ServerId)
  | followed

/-- The state of a thread and of the database that it uses. `nextContext` is the identity of the next
context, and `trace` has the latest event first. -/
structure World where
  db : Db
  heap : Heap
  task : Task
  nextContext : ContextId
  trace : List Event

def World.log (w : World) (e : Event) : World := { w with trace := e :: w.trace }

/-- What the other workers do with the pools of shared connections. -/
inductive PoolAction where
  | lock (probe : Probe) (connected : Bool) (s : ServerId)
  | unlock (c : ContextId)
  | fail (c : ContextId)

def runSection (probe : Probe) (connected : Bool) (s : ServerId) (w : World) : Locked × World :=
  let r := lockSection ⟨probe, connected, w.nextContext⟩ s w.heap w.db
  (r.1, { w with heap := r.2.1, db := r.2.2, nextContext := w.nextContext + 1 })

def act (w : World) : PoolAction → World
  | .lock probe connected s => (runSection probe connected s w).2
  | .unlock c =>
    -- a worker returns only the context that it took
    if c ∈ (w.db.server (w.heap c).server).pool.busy then { w with db := unlockSharedRedisContext c w.heap w.db }
    else w
  | .fail c => { w with heap := Function.update w.heap c { w.heap c with err := true } }

structure Copies where
  evalsha : Bool
  sha : Bool
  eval : Bool

/-- What an attempt meets: the clock and the connections that the validity checks see, whether a new
connection is established, what the other workers do each time that it waits for one, the workspace,
and the answers to its pipelines: the one of the command, or of `EVALSHA`, and the one of `EVAL`. -/
structure AttemptInput where
  probe : Probe
  connected : Bool
  meanwhile : List (List PoolAction)
  copies : Copies
  first : Command → Option Reply
  second : Command → Option Reply

def heldContexts (w : World) (s : ServerId) : List ContextId :=
  w.task.contexts.filter fun c => (w.heap c).db = w.db.id ∧ (w.heap c).server = s

def acceptedContexts (p : Probe) (w : World) (s : ServerId) : List ContextId :=
  (heldContexts w s).filter fun c => decide (Accepted p w.heap w.db c)

def evict (w : World) : Option World :=
  if w.db.maxConnections ≤ w.task.ncontexts then
    match w.task.contexts with
    | [] => none
    | _ :: rest =>
      let dropped := w.db.stats.dropped
      some { w with
        task := ⟨w.task.ncontexts - 1, rest⟩
        db := w.db.setStats { w.db.stats with dropped := { dropped with overflow := dropped.overflow + 1 } } }
  else some w

def createPrivate (input : AttemptInput) (s : ServerId) (w : World) : Option ContextId × World :=
  let db := newRcontext input.probe.now false input.connected s w.db
  if input.connected then
    let c := w.nextContext
    (some c, { w with
      db := db
      heap := Function.update w.heap c (newRedisContext db s (input.probe.version c) input.probe.now)
      task := ⟨w.task.ncontexts + 1, w.task.contexts ++ [c]⟩
      nextContext := c + 1 })
  else (none, { w with db := db })

def nextServerOf (plan : Plan) : Plan :=
  { plan with nextServer := (plan.nextServer + 1) % plan.servers.length }

def lockPrivateRedisContext (input : AttemptInput) (plan : Plan) (w : World) :
    World × Except Fault (Option ContextId × Plan) :=
  match plan.contexts[plan.nextContext]? with
  | some c =>
    (w.log (.locked (w.heap c).server (some c)), .ok (some c, { plan with nextContext := plan.nextContext + 1 }))
  | none =>
    match plan.servers[plan.nextServer]? with
    | none => (w, .error .planExhausted)
    | some s =>
      match evict w with
      | none => (w, .error .nothingToEvict)
      | some w' =>
        let event := .opened s (heldContexts w s).length (acceptedContexts input.probe w s).length
        let r := createPrivate input s (w'.log event)
        (r.2.log (.locked s r.1), .ok (r.1, nextServerOf plan))

def lockSections (input : AttemptInput) (s : ServerId) :
    List (List PoolAction) → World → World × Except Fault (Option ContextId)
  | meanwhile, w =>
    match runSection input.probe input.connected s w, meanwhile with
    | (.context c, w), _ => (w, .ok (some c))
    | (.failed, w), _ => (w, .ok none)
    | (.waiting, w), [] => (w, .error .blocked)
    | (.waiting, w), actions :: rest =>
      let w := actions.foldl act w
      lockSections input s rest { w with db := countBlocked w.db }

def lockSharedRedisContext (input : AttemptInput) (plan : Plan) (w : World) :
    World × Except Fault (Option ContextId × Plan) :=
  match plan.servers[plan.nextServer]? with
  | none => (w, .error .planExhausted)
  | some s =>
    match lockSections input s input.meanwhile w with
    | (w, .error f) => (w, .error f)
    | (w, .ok c) => (w.log (.locked s c), .ok (c, nextServerOf plan))

def lockRedisContext (input : AttemptInput) (plan : Plan) (w : World) :
    World × Except Fault (Option ContextId × Plan) :=
  if w.db.sharedConnections then lockSharedRedisContext input plan w
  else lockPrivateRedisContext input plan w

def unlockRedisContext (c : ContextId) (w : World) : World :=
  if w.db.sharedConnections then { w with db := unlockSharedRedisContext c w.heap w.db } else w

def pipeline (readonly asking : Bool) (args : List Bytes) : List Command :=
  (if readonly then [.readonly] else []) ++ (if asking then [.asking] else []) ++ [.argv args] ++
    (if readonly then [.readwrite] else [])

def readReplies (answer : Command → Option Reply) : List Command → List (Option Reply) × Bool
  | [] => ([], false)
  | command :: rest =>
    match answer command with
    | some reply =>
      let (replies, err) := readReplies answer rest
      (some reply :: replies, err)
    | none => (none :: rest.map fun _ => none, true)

def isReadonly (w : World) (c : ContextId) : Bool :=
  w.db.clusterEnabled && (w.db.server (w.heap c).server).role = .slave

def getRedisRepy (answer : Command → Option Reply) (asking : Bool) (c : ContextId) (args : List Bytes)
    (w : World) : World × Option Reply :=
  let readonly := isReadonly w c
  let commands := pipeline readonly asking args
  let (replies, failed) := readReplies answer commands
  let reply := (replies[readonly.toNat + asking.toNat]?).join
  let err := (w.heap c).err || failed
  ({ w with heap := Function.update w.heap c { w.heap c with err := err } }.log
    (.exchange (w.heap c).server c commands reply err), reply)

def send (answer : Command → Option Reply) (asking : Bool) (c : ContextId) (argv : Argv) (w : World) :
    World × Except Fault (Option Reply) :=
  match argv.mapM id with
  | none => (w, .error .nullArgument)
  | some args =>
    let (w, reply) := getRedisRepy answer asking c args w
    (w, .ok reply)

inductive Result where
  | failedWs
  | done (reply : Option Reply)

def Result.ofSend : World × Except Fault (Option Reply) → World × Except Fault Result
  | (w, .ok reply) => (w, .ok (.done reply))
  | (w, .error f) => (w, .error f)

def countNoscript (w : World) : World :=
  { w with db := w.db.setStats { w.db.stats with commandsNoscript := w.db.stats.commandsNoscript + 1 } }

def isNoscriptReply (w : World) (c : ContextId) (reply : Option Reply) : Bool :=
  !(w.heap c).err && reply.any Reply.isNoscript

section

variable (sha1 : Bytes → Bytes)

/-- `EVAL` is tried as `EVALSHA` first, and `argv` is changed in place. -/
def evaluate (input : AttemptInput) (asking : Bool) (c : ContextId) (script : Bytes) (rest : Argv) (w : World) :
    World × Argv × Except Fault Result :=
  if !input.copies.evalsha then (w, none :: some script :: rest, .ok .failedWs)
  else if !input.copies.sha then (w, some (bytes "EVALSHA") :: none :: rest, .ok .failedWs)
  else
    let argv := some (bytes "EVALSHA") :: some (sha1 script) :: rest
    match send input.first asking c argv w with
    | (w, .error f) => (w, argv, .error f)
    | (w, .ok reply) =>
      if isNoscriptReply w c reply then
        if !input.copies.eval then (w, none :: some (sha1 script) :: rest, .ok .failedWs)
        else
          let argv := some (bytes "EVAL") :: some script :: rest
          let (w, result) := Result.ofSend (send input.second asking c argv (countNoscript w))
          (w, argv, result)
      else (w, argv, .ok (.done reply))

def executeOn (input : AttemptInput) (asking : Bool) (c : ContextId) (argv : Argv) (w : World) :
    World × Argv × Except Fault Result :=
  match argv with
  | some command :: some script :: rest =>
    if strcasecmp command (bytes "EVAL") then evaluate sha1 input asking c script rest w
    else
      let (w, result) := Result.ofSend (send input.first asking c argv w)
      (w, argv, result)
  | [some _] =>
    let (w, result) := Result.ofSend (send input.first asking c argv w)
    (w, argv, result)
  | _ => (w, argv, .error .nullArgument)

structure Executed where
  world : World
  argv : Argv
  retries : ℕ
  outcome : Except Fault (Option Reply)

structure Attempt where
  world : World
  plan : Plan
  argv : Argv
  outcome : Except Fault Result

def attempt (input : AttemptInput) (asking : Bool) (plan : Plan) (argv : Argv) (w : World) : Attempt :=
  match lockRedisContext input plan w with
  | (w, .error f) => ⟨w, plan, argv, .error f⟩
  | (w, .ok (none, plan)) => ⟨w, plan, argv, .ok (.done none)⟩
  | (w, .ok (some c, plan)) =>
    match executeOn sha1 input asking c argv w with
    | (w, argv, .error f) => ⟨w, plan, argv, .error f⟩
    | (w, argv, .ok result) => ⟨unlockRedisContext c w, plan, argv, .ok result⟩

def countCommand (retries : ℕ) (reply : Option Reply) (w : World) : World :=
  let stats := w.db.stats
  let stats := if 0 < retries then { stats with commandsRetried := stats.commandsRetried + 1 } else stats
  let stats := match reply with
    | none => { stats with commandsFailed := stats.commandsFailed + 1 }
    | some _ => { stats with commandsTotal := stats.commandsTotal + 1 }
  { w with db := w.db.setStats stats }

structure Call where
  maxRetries : ℕ
  server : Option ServerId
  asking : Bool
  master : Bool
  slot : ℕ

/-- The loop of `redis_execute`, from its iteration `i` on, `n` retries being left. -/
def attempts (input : ℕ → AttemptInput) (call : Call) : ℕ → ℕ → Plan → Argv → World → Executed
  | n, i, plan, argv, w =>
    let a := attempt sha1 (input i) call.asking plan argv (w.log .attempt)
    match a.outcome with
    | .error f => ⟨a.world, a.argv, call.maxRetries - n, .error f⟩
    | .ok .failedWs => ⟨a.world, a.argv, call.maxRetries, .ok none⟩
    | .ok (.done reply) =>
      let w := countCommand (call.maxRetries - n) reply a.world
      match reply, n with
      | none, n + 1 => attempts input call n (i + 1) a.plan a.argv w
      | reply, n => ⟨w, a.argv, call.maxRetries - n, .ok reply⟩

structure CallInput where
  plan : PlanInput
  attempt : ℕ → AttemptInput

def maxSize (maxRetries retries : ℕ) : ℕ :=
  (if 0 < retries then maxRetries - retries else 1 + maxRetries - retries) % 2 ^ 32

def Executed.leave (r : Executed) : Executed :=
  match r.outcome with
  | .ok _ => { r with world := r.world.log (.leave r.retries) }
  | .error _ => r

def redisExecute (input : CallInput) (call : Call) (argv : Argv) (retries : ℕ) (w : World) :
    Executed :=
  let w := w.log (.enter retries)
  if call.maxRetries < retries then ⟨w, argv, retries, .error .retriesExceeded⟩
  else
    match planExecution input.plan w.heap (maxSize call.maxRetries retries) call.server call.master call.slot
      w.task w.db with
    | .error f => ⟨w, argv, retries, .error f⟩
    | .ok (plan, task, db) =>
      let w := { w with task := task, db := db }
      let unavailable : Executed := ⟨w, argv, call.maxRetries, .ok none⟩
      match plan with
      | none => unavailable.leave
      | some plan =>
        if plan.contexts.isEmpty && plan.servers.isEmpty then unavailable.leave
        else (attempts sha1 input.attempt call (call.maxRetries - retries) 0 plan argv w).leave

end

end VmodRedis.Execution
