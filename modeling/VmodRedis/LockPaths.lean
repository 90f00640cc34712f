import VmodRedis.Database
import VmodRedis.Lib.LockOrder

/-!
The paths of the functions of `core.c` and `cluster.c` through the mutexes. A branch is one of the
`either`s when it depends on the data or on the outcome of a call; a server stands for its database
object, which `new_redis_server` stores in it.
-/

namespace VmodRedis.LockPaths

open Database LockOrder LockOrder.Code

abbrev VclId := ℕ

inductive Mutex where
  /-- The mutex of `vmod_state`, of the number that every warm event increases. -/
  | version
  | config (vcl : VclId)
  | db (id : DbId)
  deriving DecidableEq

/-- The lock ordering required by `core.h`. -/
def Mutex.rank : Mutex → ℕ
  | version => 0
  | config _ => 1
  | db _ => 2

instance : Preorder Mutex := Preorder.lift Mutex.rank

structure DbObject where
  id : DbId
  sharedConnections : Bool
  clusterEnabled : Bool
  deriving DecidableEq

def DbObject.mutex (d : DbObject) : Mutex := .db d.id

variable {held : Finset Mutex} {v : VclId} {d : DbObject} {dblocked : Bool}

theorem config_lt (v : VclId) (d : DbObject) : Mutex.config v < d.mutex := Nat.lt_add_one 1

/-! ### `core.c` -/

def counted (d : DbObject) (dblocked : Bool) : Code Mutex :=
  steps [when (!dblocked) (lock d.mutex), when (!dblocked) (unlock d.mutex)]

inductive Ready (held : Finset Mutex) (d : DbObject) : Bool → Prop
  | locked (h : d.mutex ∈ held) : Ready held d true
  | unlocked (h : Above held d.mutex) : Ready held d false

theorem counted_spec (h : Ready held d dblocked) (breaks returns : Finset Mutex) :
    Spec held (counted d dblocked) held breaks returns := by
  cases h with
  | locked _ =>
    apply Spec.cons Spec.skip
    exact Spec.cons Spec.skip Spec.nil
  | unlocked h =>
    apply Spec.cons (Spec.lock h)
    exact Spec.cons (Spec.unlock h.notMem) Spec.nil

theorem assertReady_spec (h : Ready held d dblocked) (breaks returns : Finset Mutex) :
    Spec held (when dblocked (assertHeld d.mutex)) held breaks returns := by
  cases h with
  | locked h => exact Spec.assertHeld h
  | unlocked _ => exact Spec.skip

def newRcontext (d : DbObject) (dblocked : Bool) : Code Mutex := fn [
  when dblocked (assertHeld d.mutex),
  counted d dblocked]

theorem newRcontext_keeps (h : Ready held d dblocked) : Keeps held (newRcontext d dblocked) := by
  intro breaks returns
  apply Spec.fn
  apply Spec.cons (assertReady_spec h _ _)
  exact Spec.cons (counted_spec h _ _) Spec.nil

def unsafeDiscoverRedisServerRole (d : DbObject) : Code Mutex := fn [
  assertHeld d.mutex,
  newRcontext d true]

theorem unsafeDiscoverRedisServerRole_keeps (h : d.mutex ∈ held) :
    Keeps held (unsafeDiscoverRedisServerRole d) := by
  intro breaks returns
  apply Spec.fn
  apply Spec.cons (Spec.assertHeld h)
  exact Spec.cons (newRcontext_keeps (.locked h) _ _) Spec.nil

def isValidRedisContext (d : DbObject) (dblocked : Bool) : Code Mutex := fn [
  when dblocked (assertHeld d.mutex),
  -- an error state
  optional (steps [counted d dblocked, ret]),
  -- too old (version)
  optional (steps [counted d dblocked, ret]),
  -- too old (TTL)
  optional (steps [counted d dblocked, ret]),
  -- created before the server was flagged as sick
  optional (steps [counted d dblocked, optional ret]),
  -- hung up by the server
  optional (steps [counted d dblocked, ret])]

theorem isValidRedisContext_keeps (h : Ready held d dblocked) : Keeps held (isValidRedisContext d dblocked) := by
  intro breaks returns
  apply Spec.fn
  have hdrop : Spec held (optional (steps [counted d dblocked, ret])) held held held := by
    apply Spec.optional
    apply Spec.cons (counted_spec h _ _)
    exact Spec.cons Spec.ret Spec.nil
  apply Spec.cons (assertReady_spec h _ _)
  apply Spec.cons hdrop
  apply Spec.cons hdrop
  apply Spec.cons hdrop
  apply Spec.cons
  · apply Spec.optional
    apply Spec.cons (counted_spec h _ _)
    exact Spec.cons (Spec.optional Spec.ret) Spec.nil
  · exact Spec.cons hdrop Spec.nil

def unsafeAddRedisServer (v : VclId) (d : DbObject) : Code Mutex := fn [
  assertHeld (.config v),
  assertHeld d.mutex,
  either
    -- a new server of an unknown role
    (optional (unsafeDiscoverRedisServerRole d))
    -- a known server, listed with an unknown role
    (optional (unsafeDiscoverRedisServerRole d))]

theorem unsafeAddRedisServer_keeps (hv : .config v ∈ held) (hd : d.mutex ∈ held) :
    Keeps held (unsafeAddRedisServer v d) := by
  intro breaks returns
  apply Spec.fn
  apply Spec.cons (Spec.assertHeld hv)
  apply Spec.cons (Spec.assertHeld hd)
  have hrole : Spec held (optional (unsafeDiscoverRedisServerRole d)) held held held :=
    Spec.optional (unsafeDiscoverRedisServerRole_keeps hd _ _)
  exact Spec.cons (Spec.either hrole hrole) Spec.nil

def scanContexts (d : DbObject) : Code Mutex := forever [
  -- no context is left
  optional brk,
  -- a context that matches
  optional (steps [
    isValidRedisContext d false,
    -- the plan is full
    optional brk,
    -- workspace overflow
    optional ret])]

theorem scanContexts_spec (h : Above held d.mutex) (breaks : Finset Mutex) :
    Spec held (scanContexts d) held breaks held := by
  apply Spec.forever
  apply Spec.cons (Spec.optional Spec.brk)
  refine Spec.cons (Spec.optional ?_) Spec.nil
  apply Spec.cons (isValidRedisContext_keeps (.unlocked h) _ _)
  apply Spec.cons (Spec.optional Spec.brk)
  exact Spec.cons (Spec.optional Spec.ret) Spec.nil

theorem whenPrivate_spec (h : Above held d.mutex) (breaks : Finset Mutex) :
    Spec held (when (!d.sharedConnections) (scanContexts d)) held breaks held := by
  cases d.sharedConnections with
  | true => exact Spec.skip
  | false => exact scanContexts_spec h breaks

def populateSimpleExecutionPlan (d : DbObject) : Code Mutex := fn [
  when (!d.sharedConnections) (scanContexts d),
  -- workspace overflow
  optional ret]

theorem populateSimpleExecutionPlan_keeps (h : Above held d.mutex) :
    Keeps held (populateSimpleExecutionPlan d) := by
  intro breaks returns
  apply Spec.fn
  apply Spec.cons (whenPrivate_spec h _)
  exact Spec.cons (Spec.optional Spec.ret) Spec.nil

def scanServers (d : DbObject) : Code Mutex := forever [
  -- no server is left, or none is needed
  optional brk,
  -- workspace overflow
  optional (steps [unlock d.mutex, ret])]

theorem scanServers_spec (h : Above held d.mutex) (breaks : Finset Mutex) :
    Spec (insert d.mutex held) (scanServers d) (insert d.mutex held) breaks held := by
  apply Spec.forever
  apply Spec.cons (Spec.optional Spec.brk)
  refine Spec.cons (Spec.either ?_ Spec.skip) Spec.nil
  apply Spec.cons (Spec.unlock h.notMem)
  exact Spec.cons Spec.ret Spec.nil

def populateExecutionPlan (d : DbObject) : Code Mutex := fn [
  when (!d.sharedConnections) (scanContexts d),
  -- the plan has room for servers
  optional (steps [
    lock d.mutex,
    -- rounds 1 and 2
    scanServers d,
    -- rounds 3 and 4
    when d.clusterEnabled (optional (scanServers d)),
    unlock d.mutex])]

theorem populateExecutionPlan_keeps (h : Above held d.mutex) : Keeps held (populateExecutionPlan d) := by
  intro breaks returns
  apply Spec.fn
  apply Spec.cons (whenPrivate_spec h _)
  refine Spec.cons (Spec.optional ?_) Spec.nil
  apply Spec.cons (Spec.lock h)
  apply Spec.cons (scanServers_spec h _)
  apply Spec.cons
  · cases d.clusterEnabled with
    | true => exact Spec.optional (scanServers_spec h _)
    | false => exact Spec.skip
  · exact Spec.cons (Spec.unlock h.notMem) Spec.nil

def planExecution (d : DbObject) : Code Mutex := fn [
  -- unless the workspace has no room for a plan
  optional (either (populateSimpleExecutionPlan d) (populateExecutionPlan d))]

theorem planExecution_keeps (h : Above held d.mutex) : Keeps held (planExecution d) := by
  intro breaks returns
  apply Spec.fn
  have hplan := Spec.either (populateSimpleExecutionPlan_keeps h held held) (populateExecutionPlan_keeps h held held)
  exact Spec.cons (Spec.optional hplan) Spec.nil

def lockPrivateRedisContext (d : DbObject) : Code Mutex := fn [
  -- unless the plan has another context
  optional (steps [
    -- an existing context is released
    optional (steps [lock d.mutex, unlock d.mutex]),
    newRcontext d false])]

theorem section_spec (h : Above held d.mutex) (breaks returns : Finset Mutex) :
    Spec held (steps [lock d.mutex, unlock d.mutex]) held breaks returns := by
  apply Spec.cons (Spec.lock h)
  exact Spec.cons (Spec.unlock h.notMem) Spec.nil

theorem lockPrivateRedisContext_keeps (h : Above held d.mutex) : Keeps held (lockPrivateRedisContext d) := by
  intro breaks returns
  apply Spec.fn
  refine Spec.cons (Spec.optional ?_) Spec.nil
  apply Spec.cons (Spec.optional (section_spec h _ _))
  exact Spec.cons (newRcontext_keeps (.unlocked h) _ _) Spec.nil

def lockSharedRedisContext (d : DbObject) : Code Mutex := fn [
  lock d.mutex,
  -- retry:
  forever [
    -- the free contexts
    forever [
      -- none is left
      optional brk,
      isValidRedisContext d true,
      -- a valid one was found
      optional brk],
    optional brk,
    either
      -- goto retry
      (condWait d.mutex)
      (steps [newRcontext d true, brk])],
  unlock d.mutex]

theorem lockSharedRedisContext_keeps (h : Above held d.mutex) : Keeps held (lockSharedRedisContext d) := by
  intro breaks returns
  apply Spec.fn
  have hmem : d.mutex ∈ insert d.mutex held := Finset.mem_insert_self _ _
  apply Spec.cons (Spec.lock h)
  apply Spec.cons
  · apply Spec.forever
    apply Spec.cons
    · apply Spec.forever
      apply Spec.cons (Spec.optional Spec.brk)
      apply Spec.cons (isValidRedisContext_keeps (.locked hmem) _ _)
      exact Spec.cons (Spec.optional Spec.brk) Spec.nil
    · apply Spec.cons (Spec.optional Spec.brk)
      refine Spec.cons (Spec.either (Spec.condWait h) ?_) Spec.nil
      apply Spec.cons (newRcontext_keeps (.locked hmem) _ _)
      exact Spec.cons Spec.brk Spec.nil
  · exact Spec.cons (Spec.unlock h.notMem) Spec.nil

def lockRedisContext (d : DbObject) : Code Mutex :=
  bif d.sharedConnections then lockSharedRedisContext d else lockPrivateRedisContext d

theorem lockRedisContext_keeps (h : Above held d.mutex) : Keeps held (lockRedisContext d) := by
  unfold lockRedisContext
  cases d.sharedConnections with
  | true => exact lockSharedRedisContext_keeps h
  | false => exact lockPrivateRedisContext_keeps h

def unlockSharedRedisContext (d : DbObject) : Code Mutex := fn [lock d.mutex, unlock d.mutex]

theorem unlockSharedRedisContext_keeps (h : Above held d.mutex) : Keeps held (unlockSharedRedisContext d) :=
  fun _ _ => Spec.fn (section_spec h _ _)

def unlockRedisContext (d : DbObject) : Code Mutex := when d.sharedConnections (unlockSharedRedisContext d)

theorem unlockRedisContext_keeps (h : Above held d.mutex) : Keeps held (unlockRedisContext d) := by
  unfold unlockRedisContext
  cases d.sharedConnections with
  | true => exact unlockSharedRedisContext_keeps h
  | false => exact fun _ _ => Spec.skip

/-- The `EVAL` commands, which are tried as `EVALSHA` first; each `goto unlock` is a workspace
overflow. -/
def executeScript (d : DbObject) : Code Mutex := label [
  -- unless the command is no script
  optional (steps [
    -- the copy of "EVALSHA"
    optional brk,
    -- the hash
    optional brk,
    -- replied with a NOSCRIPT
    optional (steps [
      -- the copy of "EVAL"
      optional brk,
      lock d.mutex,
      unlock d.mutex])])]

theorem executeScript_spec (h : Above held d.mutex) (breaks returns : Finset Mutex) :
    Spec held (executeScript d) held breaks returns := by
  apply Spec.label
  refine Spec.cons (Spec.optional ?_) Spec.nil
  apply Spec.cons (Spec.optional Spec.brk)
  apply Spec.cons (Spec.optional Spec.brk)
  refine Spec.cons (Spec.optional ?_) Spec.nil
  apply Spec.cons (Spec.optional Spec.brk)
  exact section_spec h _ _

def redisExecute (d : DbObject) : Code Mutex := fn [
  planExecution d,
  -- unless the execution plan is empty or not available
  optional (forever [
    -- some reply
    optional brk,
    lockRedisContext d,
    -- unless a context is not available
    optional (steps [
      executeScript d,
      unlockRedisContext d,
      -- workspace overflow
      optional ret]),
    -- the stats
    lock d.mutex,
    unlock d.mutex,
    -- no retry is left
    optional brk])]

theorem redisExecute_keeps (h : Above held d.mutex) : Keeps held (redisExecute d) := by
  intro breaks returns
  apply Spec.fn
  apply Spec.cons (planExecution_keeps h _ _)
  refine Spec.cons (Spec.optional ?_) Spec.nil
  apply Spec.forever
  apply Spec.cons (Spec.optional Spec.brk)
  apply Spec.cons (lockRedisContext_keeps h _ _)
  apply Spec.cons
  · apply Spec.optional
    apply Spec.cons (executeScript_spec h _ _)
    apply Spec.cons (unlockRedisContext_keeps h _ _)
    exact Spec.cons (Spec.optional Spec.ret) Spec.nil
  · apply Spec.cons (Spec.lock h)
    apply Spec.cons (Spec.unlock h.notMem)
    exact Spec.cons (Spec.optional Spec.brk) Spec.nil

/-! ### `cluster.c` -/

def unsafeResetSlots (d : DbObject) : Code Mutex := fn [assertHeld d.mutex]

theorem unsafeResetSlots_keeps (h : d.mutex ∈ held) : Keeps held (unsafeResetSlots d) :=
  fun _ _ => Spec.fn (Spec.cons (Spec.assertHeld h) Spec.nil)

def unsafeAddNode (v : VclId) (d : DbObject) : Code Mutex := fn [
  assertHeld (.config v),
  assertHeld d.mutex,
  -- the location is too long
  optional ret,
  unsafeAddRedisServer v d]

theorem unsafeAddNode_keeps (hv : .config v ∈ held) (hd : d.mutex ∈ held) : Keeps held (unsafeAddNode v d) := by
  intro breaks returns
  apply Spec.fn
  apply Spec.cons (Spec.assertHeld hv)
  apply Spec.cons (Spec.assertHeld hd)
  apply Spec.cons (Spec.optional Spec.ret)
  exact Spec.cons (unsafeAddRedisServer_keeps hv hd _ _) Spec.nil

def unsafeDiscoverSlotsAux (v : VclId) (d : DbObject) : Code Mutex := fn [
  assertHeld (.config v),
  assertHeld d.mutex,
  -- the shards, if an array is replied
  forever [
    optional brk,
    -- the nodes, if the shard can be parsed
    forever [
      optional brk,
      optional (steps [
        unsafeAddNode v d,
        -- the first one with some range
        optional (unsafeResetSlots d)])]]]

theorem unsafeDiscoverSlotsAux_keeps (hv : .config v ∈ held) (hd : d.mutex ∈ held) :
    Keeps held (unsafeDiscoverSlotsAux v d) := by
  intro breaks returns
  apply Spec.fn
  apply Spec.cons (Spec.assertHeld hv)
  apply Spec.cons (Spec.assertHeld hd)
  refine Spec.cons (Spec.forever ?_) Spec.nil
  apply Spec.cons (Spec.optional Spec.brk)
  refine Spec.cons (Spec.forever ?_) Spec.nil
  apply Spec.cons (Spec.optional Spec.brk)
  refine Spec.cons (Spec.optional ?_) Spec.nil
  apply Spec.cons (unsafeAddNode_keeps hv hd _ _)
  exact Spec.cons (Spec.optional (unsafeResetSlots_keeps hd _ _)) Spec.nil

def unsafeDiscoverSlots (v : VclId) (d : DbObject) : Code Mutex := fn [
  assertHeld (.config v),
  assertHeld d.mutex,
  unsafeDiscoverSlotsAux v d,
  -- the other servers, if the given one fails
  optional (forever [
    optional brk,
    optional (steps [unsafeDiscoverSlotsAux v d, optional ret])])]

theorem unsafeDiscoverSlots_keeps (hv : .config v ∈ held) (hd : d.mutex ∈ held) :
    Keeps held (unsafeDiscoverSlots v d) := by
  intro breaks returns
  apply Spec.fn
  apply Spec.cons (Spec.assertHeld hv)
  apply Spec.cons (Spec.assertHeld hd)
  apply Spec.cons (unsafeDiscoverSlotsAux_keeps hv hd _ _)
  refine Spec.cons (Spec.optional (Spec.forever ?_)) Spec.nil
  apply Spec.cons (Spec.optional Spec.brk)
  refine Spec.cons (Spec.optional ?_) Spec.nil
  apply Spec.cons (unsafeDiscoverSlotsAux_keeps hv hd _ _)
  exact Spec.cons (Spec.optional Spec.ret) Spec.nil

def both (v : VclId) (d : DbObject) (p : Code Mutex) : Code Mutex := steps [
  lock (.config v),
  lock d.mutex,
  p,
  unlock d.mutex,
  unlock (.config v)]

theorem both_spec {p : Code Mutex} (hp : Keeps {d.mutex, .config v} p) (breaks returns : Finset Mutex) :
    Spec ∅ (both v d p) ∅ breaks returns := by
  have hv : Above ∅ (Mutex.config v) := above_empty _
  have hd : Above {Mutex.config v} d.mutex := (above_empty d.mutex).insert (config_lt v d)
  apply Spec.cons (Spec.lock hv)
  apply Spec.cons (Spec.lock hd)
  apply Spec.cons (hp _ _)
  apply Spec.cons (Spec.unlock hd.notMem)
  exact Spec.cons (Spec.unlock hv.notMem) Spec.nil

def discoverClusterSlots (v : VclId) (d : DbObject) : Code Mutex := fn [both v d (unsafeDiscoverSlots v d)]

theorem config_mem : Mutex.config v ∈ ({d.mutex, .config v} : Finset Mutex) :=
  Finset.mem_insert_of_mem (Finset.mem_singleton_self _)

theorem mutex_mem : d.mutex ∈ ({d.mutex, .config v} : Finset Mutex) := Finset.mem_insert_self _ _

theorem discoverClusterSlots_keeps : Keeps ∅ (discoverClusterSlots v d) :=
  fun _ _ => Spec.fn (Spec.cons (both_spec (unsafeDiscoverSlots_keeps config_mem mutex_mem) _ _) Spec.nil)

def clusterExecute (v : VclId) (d : DbObject) : Code Mutex := fn [
  -- unless the command has no key
  optional (forever [
    redisExecute d,
    -- some reply
    optional (either
      -- a redirection, which is followed by a discovery if the slot has moved
      (both v d (steps [unsafeAddRedisServer v d, optional (unsafeDiscoverSlots v d)]))
      brk),
    -- no hop or no retry is left
    optional brk])]

theorem clusterExecute_keeps : Keeps ∅ (clusterExecute v d) := by
  intro breaks returns
  apply Spec.fn
  refine Spec.cons (Spec.optional (Spec.forever ?_)) Spec.nil
  apply Spec.cons (redisExecute_keeps (above_empty _) _ _)
  apply Spec.cons
  · refine Spec.optional (Spec.either ?_ Spec.brk)
    apply both_spec
    intro breaks returns
    apply Spec.cons (unsafeAddRedisServer_keeps config_mem mutex_mem _ _)
    exact Spec.cons (Spec.optional (unsafeDiscoverSlots_keeps config_mem mutex_mem _ _)) Spec.nil
  · exact Spec.cons (Spec.optional Spec.brk) Spec.nil

end VmodRedis.LockPaths
