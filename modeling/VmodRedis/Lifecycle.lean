import VmodRedis.DatabaseCreation
import VmodRedis.LocationGrammar
import VmodRedis.SentinelLoop

namespace VmodRedis.Lifecycle

open CStrings Database DatabaseCreation SentinelLocations SentinelInventory SentinelLoop TransitionSystem

structure Timeval where
  sec : ℤ
  usec : ℤ
  deriving DecidableEq

def toTimeval (milliseconds : ℤ) : Timeval := ⟨milliseconds.tdiv 1000, milliseconds.tmod 1000 * 1000⟩

structure SentinelsArgs where
  locations : Option Bytes
  period : ℤ
  connectionTimeout : ℤ
  commandTimeout : ℤ
  protocol : Protocol
  tls : Bool
  tlsFiles : List (Option Bytes)
  password : Option Bytes
  debug : Bool

/-- What `sentinels()` stores: all these fields have their initial values as long as `locations` is `NULL`. -/
structure Settings where
  locations : Bytes
  period : ℕ
  connectionTimeout : Timeval
  commandTimeout : Timeval
  protocol : Protocol
  tls : Bool
  tlsFiles : List (Option Bytes)
  password : Option Bytes
  debug : Bool
  deriving DecidableEq

def SentinelsArgs.supported (args : SentinelsArgs) (build : Build) : Bool :=
  (args.protocol ≠ .resp3 || build.resp3) && (!args.tls || build.tls)

def SentinelsArgs.settings (args : SentinelsArgs) (build : Build) (locations : Bytes) : Settings where
  locations := cstr locations
  period := toUnsigned args.period
  connectionTimeout := toTimeval args.connectionTimeout
  commandTimeout := toTimeval args.commandTimeout
  protocol := args.protocol
  tls := build.tls && args.tls
  tlsFiles := if build.tls then args.tlsFiles.map fun file => (given file).map cstr else []
  password := (given args.password).map cstr
  debug := args.debug

def vmodSentinels (build : Build) (environment : Option Bytes) (args : SentinelsArgs) (settings : Option Settings) :
    Option Settings :=
  if !args.supported build then settings
  else
    match settings with
    | some _ => settings
    | none =>
      if 0 ≤ args.connectionTimeout ∧ 0 ≤ args.commandTimeout then
        ((given args.locations).orElse fun _ => given environment).map (args.settings build)
      else none

abbrev VclId := ℕ

abbrev ThreadId := ℕ

inductive Temperature where
  | cold
  | warm
  | discarded
  | freed
  deriving DecidableEq

structure Vcl where
  temperature : Temperature
  settings : Option Settings
  thread : ThreadId
  config : Config

def newVclState : Vcl := ⟨.cold, none, 0, ⟨false, false, []⟩⟩

def freeVclState : Vcl := { newVclState with temperature := .freed }

structure Thread where
  id : ThreadId
  vcl : VclId
  settings : Settings
  sentinels : List Location
  phase : Phase
  state : State
  iterations : List Iteration
  ended : Bool

/-- `vmod_state`, the objects of the VCLs, and the threads. `joining` is the VCL whose Sentinel thread the
thread that runs the events is waiting for. -/
structure Process where
  version : ℕ
  refs : ℕ
  classes : ℕ
  vcls : List Vcl
  threads : List Thread
  joining : Option VclId

inductive Fault where
  | locations
  | thread
  | active
  | refs
  | stuck

def Vcl.started (vcl : Vcl) (id : ThreadId) : Vcl :=
  { vcl with thread := id, config := { vcl.config with active := true, discovery := true } }

def newThread (id : ThreadId) (v : VclId) (settings : Settings) (sentinels : List Location) : Thread :=
  ⟨id, v, settings, sentinels, .top, ⟨0, 0, []⟩, [], false⟩

def enoughFuel (locations : Bytes) : ℕ := (cstr locations).length + 1

def unsafeSentinelStart (tlsContext : Bool) (id : ThreadId) (v : VclId) (vcl : Vcl) :
    Except Fault (Vcl × Option Thread) :=
  match vcl.settings with
  | none => .error .locations
  | some settings =>
    if vcl.thread ≠ 0 then .error .thread
    else if vcl.config.active then .error .active
    else if settings.tls && !tlsContext then .ok (vcl, none)
    else
      match unsafeSetLocations (enoughFuel settings.locations) [] settings.locations with
      | .error _ => .error .stuck
      | .ok (_, sentinels) =>
        if sentinels = [] then .ok (vcl, none)
        else .ok (vcl.started id, some (newThread id v settings sentinels))

def unsafeSentinelStop (vcl : Vcl) : Except Fault Vcl :=
  if vcl.settings = none then .error .locations
  else if vcl.thread = 0 then .error .thread
  else if !vcl.config.active then .error .active
  else .ok { vcl with config := { vcl.config with active := false } }

def Process.setVcl (p : Process) (v : VclId) (vcl : Vcl) : Process := { p with vcls := p.vcls.set v vcl }

def handleVclLoadEvent (p : Process) : Process :=
  { p with
    classes := if p.refs = 0 then p.classes + 1 else p.classes
    refs := p.refs + 1
    vcls := p.vcls ++ [newVclState] }

/-- `tlsContext` says whether the library creates the context that TLS needs, and `id` is what
`pthread_create` would return. -/
def handleVclWarmEvent (tlsContext : Bool) (id : ThreadId) (v : VclId) (vcl : Vcl) (p : Process) :
    Except Fault Process := do
  let p := { p with version := (p.version + 1) % 2 ^ 32 }
  if vcl.settings.isSome && !vcl.config.active then
    let (vcl, thread) ← unsafeSentinelStart tlsContext id v vcl
    return { p with threads := p.threads ++ thread.toList }.setVcl v { vcl with temperature := .warm }
  else return p.setVcl v { vcl with temperature := .warm }

def releaseServer (db : Db × ℕ) (s : ServerId) : Db × ℕ :=
  let pool := (db.1.server s).pool
  (db.1.setPool s .empty, db.2 + pool.free.length + pool.busy.length)

def releaseContexts (db : Db) : Db × ℕ := db.allServers.foldl releaseServer (db, 0)

def releasePools (config : Config) : Config := { config with dbs := config.dbs.map fun db => (releaseContexts db).1 }

def cool (v : VclId) (vcl : Vcl) (p : Process) : Process :=
  p.setVcl v { vcl with temperature := .cold, config := releasePools vcl.config }

/-- The handler of the cold event as far as `pthread_join`, if it comes to that. -/
def handleVclColdEvent (v : VclId) (vcl : Vcl) (p : Process) : Except Fault Process :=
  if vcl.config.active then do
    let vcl ← unsafeSentinelStop vcl
    if vcl.thread = 0 then .error .thread
    else return { p with joining := some v }.setVcl v vcl
  else return cool v vcl p

/-- What follows `pthread_join`, which returns as soon as this thread has ended. -/
def threadJoined (v : VclId) (vcl : Vcl) (p : Process) : Process :=
  cool v { vcl with thread := 0 }
    { p with joining := none, threads := p.threads.filter fun t => t.id ≠ vcl.thread }

def handleVclDiscardEvent (v : VclId) (vcl : Vcl) (p : Process) : Except Fault Process :=
  if p.refs = 0 then .error .refs
  else
    .ok ({ p with refs := p.refs - 1, classes := if p.refs = 1 then p.classes - 1 else p.classes }.setVcl v
      { vcl with temperature := .discarded })

def Thread.run (t : Thread) (config : Config) : Run := ⟨config, t.phase, t.state, t.iterations⟩

def Thread.continued (t : Thread) (r : Run) : Thread :=
  { t with phase := r.phase, state := r.state, iterations := r.iterations }

inductive Use : List Db → List Db → Prop
  | register (dbs : List Db) (options : Options) (db : Db) (h : (RegistryInvariant.registry options).Reachable db) :
      Use dbs (dbs ++ [db])
  | unregister (dbs : List Db) (i : ℕ) : Use dbs (dbs.eraseIdx i)
  | use (dbs : List Db) (i : ℕ) (db db' : Db) (hi : dbs[i]? = some db) (hs : RegistryInvariant.Step db db') :
      Use dbs (dbs.set i db')

/-- The events, which Varnish runs one at a time and in its order for each VCL, and between any two steps of
theirs what the functions of VCL and the Sentinel threads do. -/
inductive Step (build : Build) : Process → Process → Prop
  | load (p : Process) (hj : p.joining = none) : Step build p (handleVclLoadEvent p)
  | warm (p p' : Process) (v : VclId) (vcl : Vcl) (tlsContext : Bool) (id : ThreadId) (hj : p.joining = none)
      (hv : p.vcls[v]? = some vcl) (ht : vcl.temperature = .cold) (hid : id ≠ 0 ∧ ∀ t ∈ p.threads, t.id ≠ id)
      (he : handleVclWarmEvent tlsContext id v vcl p = .ok p') : Step build p p'
  | cold (p p' : Process) (v : VclId) (vcl : Vcl) (hj : p.joining = none) (hv : p.vcls[v]? = some vcl)
      (ht : vcl.temperature = .warm) (he : handleVclColdEvent v vcl p = .ok p') : Step build p p'
  | join (p : Process) (v : VclId) (vcl : Vcl) (t : Thread) (hj : p.joining = some v) (hv : p.vcls[v]? = some vcl)
      (ht : t ∈ p.threads) (hid : t.id = vcl.thread) (he : t.ended = true) : Step build p (threadJoined v vcl p)
  | discard (p p' : Process) (v : VclId) (vcl : Vcl) (hj : p.joining = none) (hv : p.vcls[v]? = some vcl)
      (ht : vcl.temperature = .cold) (he : handleVclDiscardEvent v vcl p = .ok p') : Step build p p'
  | free (p : Process) (v : VclId) (vcl : Vcl) (hj : p.joining = none) (hv : p.vcls[v]? = some vcl)
      (ht : vcl.temperature = .discarded) : Step build p (p.setVcl v freeVclState)
  | sentinels (p : Process) (v : VclId) (vcl : Vcl) (environment : Option Bytes) (args : SentinelsArgs)
      (hv : p.vcls[v]? = some vcl) (ht : vcl.temperature = .cold ∨ vcl.temperature = .warm) :
      Step build p (p.setVcl v { vcl with settings := vmodSentinels build environment args vcl.settings })
  | use (p : Process) (v : VclId) (vcl : Vcl) (dbs : List Db) (hv : p.vcls[v]? = some vcl)
      (ht : vcl.temperature = .cold ∨ vcl.temperature = .warm) (h : Use vcl.config.dbs dbs) :
      Step build p (p.setVcl v { vcl with config := { vcl.config with dbs := dbs } })
  | thread (p : Process) (i : ℕ) (t : Thread) (vcl : Vcl) (r : Run) (hi : p.threads[i]? = some t)
      (he : t.ended = false) (hv : p.vcls[t.vcl]? = some vcl)
      -- Of the steps of the loop, all but the one that requests its end.
      (hs : SentinelLoop.Step t.settings.period (t.run vcl.config) r) (ha : r.config.active = vcl.config.active) :
      Step build p ({ p with threads := p.threads.set i (t.continued r) }.setVcl t.vcl { vcl with config := r.config })
  | finish (p : Process) (i : ℕ) (t : Thread) (hi : p.threads[i]? = some t) (hp : t.phase = .stopped) :
      Step build p { p with threads := p.threads.set i { t with ended := true } }

def lifecycle (build : Build) : System Process where
  init p := p.refs = 0 ∧ p.classes = 0 ∧ p.vcls = [] ∧ p.threads = [] ∧ p.joining = none
  step := Step build

end VmodRedis.Lifecycle
