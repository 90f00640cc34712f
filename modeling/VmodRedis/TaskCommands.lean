import VmodRedis.Lib.TransitionSystem
import VmodRedis.Execution

namespace VmodRedis.TaskCommands

open CStrings Replies Database Planning TransitionSystem
open Execution (Argv)

abbrev maxRedisCommandArgs : ℕ := 128

structure Timeval where
  sec : ℤ
  usec : ℤ

structure Instance extends Options where
  name : Bytes
  commandTimeout : Timeval

/-- `state->command`: `argv` is the whole array, and `ρ` stands for the pointers to replies. -/
structure Enqueued (ρ : Type) where
  db : Option DbId
  timeout : Timeval
  maxRetries : ℕ
  argc : ℕ
  argv : ℕ → Option Bytes
  reply : Option ρ

structure TaskState (ρ : Type) where
  db : Option DbId
  command : Enqueued ρ

inductive TaskEvent (ρ : Type) where
  | flushed (reply : Option ρ)
  | executed (db : DbId) (reply : Option ρ)

structure Session (ρ : Type) where
  priv : Option (TaskState ρ)
  log : List Bytes
  commandsError : DbId → ℕ
  trace : List (TaskEvent ρ)

inductive Crash where
  | nullDatabase
  | fault (f : Fault)

variable {ρ : Type}

def newTaskState : TaskState ρ := ⟨none, ⟨none, ⟨0, 0⟩, 0, 0, fun _ => none, none⟩⟩

def flushTaskState (t : TaskState ρ) : TaskState ρ :=
  { t with command := { t.command with db := none, timeout := ⟨0, 0⟩, maxRetries := 0, argc := 0, reply := none } }

namespace Session

def state (s : Session ρ) : TaskState ρ := s.priv.getD newTaskState

def set (t : TaskState ρ) (s : Session ρ) : Session ρ := { s with priv := some t }

def setCommand (command : Enqueued ρ) (s : Session ρ) : Session ρ := s.set { s.state with command := command }

def logError (text : Bytes) (s : Session ρ) : Session ρ := { s with log := text :: s.log }

end Session

def getTaskState (flush : Bool) (s : Session ρ) : Session ρ :=
  if flush then
    { s.set (flushTaskState s.state) with trace := .flushed s.state.command.reply :: s.trace }
  else s.set s.state

@[simp] theorem getTaskState_keep (s : Session ρ) :
    (getTaskState false s).state = s.state ∧ (getTaskState false s).trace = s.trace := ⟨rfl, rfl⟩

section

variable (instances : DbId → Instance)

def validateCommandState (action : Bytes) (db : DbId) (s : Session ρ) : Except Crash (Bool × Session ρ) :=
  let prefixed := bytes "Failed to " ++ action ++ bytes " (db=" ++ (instances db).name
  if s.state.command.argc < 1 then .ok (false, s.logError (prefixed ++ bytes "): no command enqueued"))
  else if s.state.command.db ≠ some db then
    match s.state.command.db with
    | none => .error .nullDatabase
    | some owner => .ok (false, s.logError (prefixed ++
        bytes "): enqueued command is owned by another database instance (db=" ++ (instances owner).name ++
          bytes ")"))
  else .ok (true, s)

def withCommand (action : Bytes) (db : DbId) (body : Session ρ → Except Crash (Session ρ)) (s : Session ρ) :
    Except Crash (Session ρ) :=
  match validateCommandState instances action db (getTaskState false s) with
  | .error e => .error e
  | .ok (false, s) => .ok s
  | .ok (true, s) => body s

def isEmptyString : Option Bytes → Bool
  | some str => (cstr str).isEmpty
  | none => true

def vmodDbCommand (db : DbId) (name : Option Bytes) (s : Session ρ) : Session ρ :=
  if isEmptyString name then
    s.logError (bytes "Failed to enqueue command (db=" ++ (instances db).name ++ bytes "): empty command name")
  else
    let s := getTaskState true s
    s.setCommand { s.state.command with
      db := some db
      timeout := (instances db).commandTimeout
      maxRetries := (instances db).maxCommandRetries
      argc := 1
      argv := Function.update s.state.command.argv 0 name }

def vmodDbTimeout (db : DbId) (commandTimeout : ℤ) : Session ρ → Except Crash (Session ρ) :=
  withCommand instances (bytes "set command timeout") db fun s =>
    .ok (s.setCommand { s.state.command with
      timeout := ⟨commandTimeout.tdiv 1000, commandTimeout.tmod 1000 * 1000⟩ })

def vmodDbRetries (db : DbId) (maxCommandRetries : ℤ) : Session ρ → Except Crash (Session ρ) :=
  withCommand instances (bytes "set command retries") db fun s =>
    .ok (s.setCommand { s.state.command with maxRetries := (maxCommandRetries % 2 ^ 32).toNat })

def pushArg (arg : Option Bytes) (s : Session ρ) : Session ρ :=
  s.setCommand { s.state.command with
    argc := s.state.command.argc + 1
    argv := Function.update s.state.command.argv s.state.command.argc arg }

/-- `copied` says whether the empty string that stands for NULL fits in the workspace. -/
def vmodDbPush (db : DbId) (arg : Option Bytes) (copied : Bool) : Session ρ → Except Crash (Session ρ) :=
  withCommand instances (bytes "push command argument") db fun s =>
    if s.state.command.argc < maxRedisCommandArgs then
      match arg with
      | some arg => .ok (pushArg (some arg) s)
      | none => if copied then .ok (pushArg (some []) s) else .ok (s.logError (bytes "Workspace overflow"))
    else
      .ok (s.logError (bytes "Failed to push command argument (db=" ++ (instances db).name ++
        bytes "): too many arguments (limit=" ++ decimal maxRedisCommandArgs ++ bytes ")"))

abbrev Runner (ρ : Type) := ℕ → Bool → Argv → Except Fault (Argv × Option ρ)

variable (content : ρ → Reply)

def forcesMaster (inst : Instance) (command : Option Bytes) : Except Fault Bool :=
  if inst.clusterEnabled then
    match command with
    | none => .error .nullArgument
    | some command => .ok (strcasecmp command (bytes "EVAL") || strcasecmp command (bytes "EVALSHA"))
  else .ok false

def countError (db : DbId) (reply : Option ρ) (s : Session ρ) : Session ρ :=
  match reply.map content with
  | some (.error str) =>
    { s.logError (bytes "Got error reply while executing command (command=" ++
        (s.state.command.argv 0).getD [] ++ bytes ", db=" ++ (instances db).name ++ bytes "): " ++ str) with
      commandsError := Function.update s.commandsError db (s.commandsError db + 1) }
  | _ => s

def storeReply (db : DbId) (argv : Argv) (reply : Option ρ) (s : Session ρ) : Session ρ :=
  let command := s.state.command
  { s.setCommand { command with
      argv := fun i => if i < command.argc then (argv[i]?).join else command.argv i
      reply := reply } with
    trace := .executed db reply :: s.trace }

def Enqueued.args (command : Enqueued ρ) : Argv := (List.range command.argc).map command.argv

def vmodDbExecute (run : Runner ρ) (db : DbId) (master : Bool) : Session ρ → Except Crash (Session ρ) :=
  withCommand instances (bytes "execute command") db fun s =>
    let command := s.state.command
    let master := master || (instances db).ignoreSlaves
    match (if master then .ok true else forcesMaster (instances db) (command.argv 0)) with
    | .error f => .error (.fault f)
    | .ok master =>
      match run command.maxRetries master command.args with
      | .error f => .error (.fault f)
      | .ok (argv, reply) => .ok (countError instances content db reply (storeReply db argv reply s))

structure EasyArgs where
  command : Option Bytes
  cmdArg : Fin 16 → Option (Option Bytes)
  copied : Fin 16 → Bool
  timeout : Option ℤ
  retries : Option ℤ
  master : Bool

def handleOption {α : Type} (f : α → Session ρ → Except Crash (Session ρ)) (a : Option α) (s : Session ρ) :
    Except Crash (Session ρ) :=
  match a with
  | some a => f a s
  | none => .ok s

def handleArg (db : DbId) (args : EasyArgs) (s : Session ρ) (n : Fin 16) : Except Crash (Session ρ) :=
  handleOption (fun arg => vmodDbPush instances db arg (args.copied n)) (args.cmdArg n) s

def vmodDbEasyExecute (run : Runner ρ) (db : DbId) (args : EasyArgs) (s : Session ρ) : Except Crash (Session ρ) :=
  if isEmptyString args.command then
    .ok (s.logError (bytes "Failed to enqueue command (db=" ++ (instances db).name ++ bytes "): empty command name"))
  else do
    let s ← (List.finRange 16).foldlM (handleArg instances db args) (vmodDbCommand instances db args.command s)
    let s ← handleOption (vmodDbTimeout instances db) args.timeout s
    let s ← handleOption (vmodDbRetries instances db) args.retries s
    vmodDbExecute instances content run db args.master s

def vmodDbFree (s : Session ρ) : Session ρ := getTaskState true s

inductive Method where
  | command (name : Option Bytes)
  | timeout (commandTimeout : ℤ)
  | retries (maxCommandRetries : ℤ)
  | push (arg : Option Bytes) (copied : Bool)
  | execute (master : Bool)
  | easyExecute (args : EasyArgs)
  | free

def Method.call (run : Runner ρ) (db : DbId) : Method → Session ρ → Except Crash (Session ρ)
  | .command name, s => .ok (vmodDbCommand instances db name s)
  | .timeout t, s => vmodDbTimeout instances db t s
  | .retries n, s => vmodDbRetries instances db n s
  | .push arg copied, s => vmodDbPush instances db arg copied s
  | .execute master, s => vmodDbExecute instances content run db master s
  | .easyExecute args, s => vmodDbEasyExecute instances content run db args s
  | .free, s => .ok (vmodDbFree s)

def getDbInstance (config : List DbId) (name : Bytes) : Option DbId :=
  config.find? fun d => strcmp (instances d).name name

def namedInstance (config : List DbId) (name : Option Bytes) : Option DbId :=
  if isEmptyString name then none else name.bind (getDbInstance instances config)

def vmodUse (config : List DbId) (name : Option Bytes) (s : Session ρ) : Session ρ :=
  let s := getTaskState true s
  let db := namedInstance instances config name
  let s := s.set { s.state with db := db }
  if db.isNone then s.logError (bytes "Failed to use database (db=" ++ name.getD (bytes "(null)") ++ bytes ")") else s

def proxied (config : List DbId) (name : Option Bytes) (run : Runner ρ) (method : Method) (s : Session ρ) :
    Except Crash (Session ρ) :=
  let s := if isEmptyString name then getTaskState false s else s
  let db := if isEmptyString name then s.state.db else namedInstance instances config name
  match db with
  | some db => method.call instances content run db s
  | none => .ok (s.logError (bytes "Database instance not available"))

end

end VmodRedis.TaskCommands
