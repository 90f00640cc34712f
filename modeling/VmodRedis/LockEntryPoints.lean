import VmodRedis.LockPaths

/-!
The functions that Varnish calls (`vmod_redis.c`) and the Sentinel thread (`sentinel.c`).
-/

namespace VmodRedis.LockPaths

open LockOrder LockOrder.Code TransitionSystem

variable {v : VclId} {d : DbObject}

/-! ### `sentinel.c` -/

def unsafeSentinelStart (v : VclId) : Code Mutex := fn [assertHeld (.config v)]

def unsafeSentinelStop (v : VclId) : Code Mutex := fn [assertHeld (.config v)]

theorem assertConfig_keeps : Keeps {.config v} (fn [assertHeld (Mutex.config v)]) :=
  fun _ _ => Spec.fn (Spec.cons (Spec.assertHeld (Finset.mem_singleton_self _)) Spec.nil)

def unsafeUpdateDbsAux (v : VclId) (d : DbObject) : Code Mutex := fn [
  assertHeld (.config v),
  assertHeld d.mutex]

theorem unsafeUpdateDbsAux_keeps : Keeps {d.mutex, .config v} (unsafeUpdateDbsAux v d) := by
  intro breaks returns
  apply Spec.fn
  apply Spec.cons (Spec.assertHeld config_mem)
  exact Spec.cons (Spec.assertHeld mutex_mem) Spec.nil

def unsafeUpdateDbs (v : VclId) : Code Mutex := fn [
  assertHeld (.config v),
  -- the databases of the configuration
  forever [
    optional brk,
    any fun d : DbObject => when (!d.clusterEnabled) (steps [
      lock d.mutex,
      -- its servers
      forever [
        optional brk,
        optional (unsafeUpdateDbsAux v d)],
      unlock d.mutex])]]

theorem mutex_above (v : VclId) (d : DbObject) : Above {Mutex.config v} d.mutex :=
  (above_empty d.mutex).insert (config_lt v d)

theorem unsafeUpdateDbs_keeps : Keeps {.config v} (unsafeUpdateDbs v) := by
  intro breaks returns
  apply Spec.fn
  apply Spec.cons (Spec.assertHeld (Finset.mem_singleton_self _))
  refine Spec.cons (Spec.forever ?_) Spec.nil
  apply Spec.cons (Spec.optional Spec.brk)
  refine Spec.cons (Spec.any fun d => ?_) Spec.nil
  cases d.clusterEnabled with
  | true => exact Spec.skip
  | false =>
    apply Spec.cons (Spec.lock (mutex_above v d))
    apply Spec.cons
    · apply Spec.forever
      apply Spec.cons (Spec.optional Spec.brk)
      exact Spec.cons (Spec.optional (unsafeUpdateDbsAux_keeps _ _)) Spec.nil
    · exact Spec.cons (Spec.unlock (mutex_above v d).notMem) Spec.nil

def sentinelLoop (v : VclId) : Code Mutex := fn [
  lock (.config v),
  unlock (.config v),
  forever [
    -- terminate the thread loop?
    lock (.config v),
    optional (steps [unlock (.config v), brk]),
    -- a new discovery
    optional (steps [unlock (.config v), lock (.config v)]),
    -- terminate the thread loop?
    optional (steps [unlock (.config v), brk]),
    unlock (.config v),
    lock (.config v),
    -- a change was found
    optional (unsafeUpdateDbs v),
    unlock (.config v)],
  lock (.config v),
  unlock (.config v)]

theorem lockConfig_spec (breaks returns : Finset Mutex) :
    Spec ∅ (lock (Mutex.config v)) {.config v} breaks returns := Spec.lock (above_empty _)

theorem unlockConfig_spec (breaks returns : Finset Mutex) :
    Spec {.config v} (unlock (Mutex.config v)) ∅ breaks returns := Spec.unlock (Finset.notMem_empty _)

theorem sentinelLoop_keeps : Keeps ∅ (sentinelLoop v) := by
  intro breaks returns
  apply Spec.fn
  apply Spec.cons (lockConfig_spec _ _)
  apply Spec.cons (unlockConfig_spec _ _)
  have hstop : Spec {Mutex.config v} (optional (steps [unlock (Mutex.config v), brk])) {Mutex.config v} ∅ ∅ := by
    refine Spec.either ?_ Spec.skip
    apply Spec.cons (unlockConfig_spec _ _)
    exact Spec.cons Spec.brk Spec.nil
  apply Spec.cons
  · apply Spec.forever
    apply Spec.cons (lockConfig_spec _ _)
    apply Spec.cons hstop
    apply Spec.cons
    · apply Spec.optional
      apply Spec.cons (unlockConfig_spec _ _)
      exact Spec.cons (lockConfig_spec _ _) Spec.nil
    · apply Spec.cons hstop
      apply Spec.cons (unlockConfig_spec _ _)
      apply Spec.cons (lockConfig_spec _ _)
      apply Spec.cons (Spec.optional (unsafeUpdateDbs_keeps _ _))
      exact Spec.cons (unlockConfig_spec _ _) Spec.nil
  · apply Spec.cons (lockConfig_spec _ _)
    exact Spec.cons (unlockConfig_spec _ _) Spec.nil

/-! ### `vmod_redis.c` -/

def handleVclWarmEvent (v : VclId) : Code Mutex := fn [
  lock .version,
  unlock .version,
  lock (.config v),
  optional (unsafeSentinelStart v),
  unlock (.config v)]

theorem handleVclWarmEvent_keeps : Keeps ∅ (handleVclWarmEvent v) := by
  intro breaks returns
  apply Spec.fn
  apply Spec.cons (Spec.lock (above_empty _))
  apply Spec.cons (Spec.unlock (Finset.notMem_empty _))
  apply Spec.cons (lockConfig_spec _ _)
  apply Spec.cons (Spec.optional (assertConfig_keeps _ _))
  exact Spec.cons (unlockConfig_spec _ _) Spec.nil

def handleVclColdEvent (v : VclId) : Code Mutex := fn [
  lock (.config v),
  either
    -- the Sentinel thread is joined after this
    (steps [unsafeSentinelStop v, unlock (.config v)])
    (unlock (.config v)),
  lock (.config v),
  -- the databases of the configuration
  forever [
    optional brk,
    any fun d : DbObject => steps [lock d.mutex, unlock d.mutex]],
  unlock (.config v)]

theorem handleVclColdEvent_keeps : Keeps ∅ (handleVclColdEvent v) := by
  intro breaks returns
  apply Spec.fn
  apply Spec.cons (lockConfig_spec _ _)
  apply Spec.cons
  · refine Spec.either ?_ (unlockConfig_spec _ _)
    apply Spec.cons (assertConfig_keeps _ _)
    exact Spec.cons (unlockConfig_spec _ _) Spec.nil
  · apply Spec.cons (lockConfig_spec _ _)
    apply Spec.cons
    · apply Spec.forever
      apply Spec.cons (Spec.optional Spec.brk)
      exact Spec.cons (Spec.any fun d => section_spec (mutex_above v d) _ _) Spec.nil
    · exact Spec.cons (unlockConfig_spec _ _) Spec.nil

inductive VclEvent where
  | load
  | warm
  | cold
  | discard

def vmodEventFunction (v : VclId) : VclEvent → Code Mutex
  | .load => skip
  | .warm => handleVclWarmEvent v
  | .cold => handleVclColdEvent v
  | .discard => skip

theorem vmodEventFunction_keeps (e : VclEvent) : Keeps ∅ (vmodEventFunction v e) := by
  cases e with
  | load => exact fun _ _ => Spec.skip
  | warm => exact handleVclWarmEvent_keeps
  | cold => exact handleVclColdEvent_keeps
  | discard => exact fun _ _ => Spec.skip

def unsafeSetWeightRules (v : VclId) : Code Mutex := fn [assertHeld (.config v)]

def configured (v : VclId) (p : Code Mutex) : Code Mutex := steps [lock (.config v), p, unlock (.config v)]

theorem configured_spec {p : Code Mutex} (hp : Keeps {.config v} p) (breaks returns : Finset Mutex) :
    Spec ∅ (configured v p) ∅ breaks returns := by
  apply Spec.cons (lockConfig_spec _ _)
  apply Spec.cons (hp _ _)
  exact Spec.cons (unlockConfig_spec _ _) Spec.nil

def vmodWeights (v : VclId) : Code Mutex := fn [configured v (optional (unsafeSetWeightRules v))]

theorem vmodWeights_keeps : Keeps ∅ (vmodWeights v) :=
  fun _ _ => Spec.fn (Spec.cons (configured_spec (fun _ _ => Spec.optional (assertConfig_keeps _ _)) _ _) Spec.nil)

def configSection (v : VclId) : Code Mutex := fn [optional ret, configured v skip]

theorem configSection_keeps : Keeps ∅ (configSection v) := by
  intro breaks returns
  apply Spec.fn
  apply Spec.cons (Spec.optional Spec.ret)
  exact Spec.cons (configured_spec (fun _ _ => Spec.skip) _ _) Spec.nil

def vmodSentinels (v : VclId) : Code Mutex := configSection v

def vmodDbInit (v : VclId) (d : DbObject) : Code Mutex := fn [
  -- RESP3, TLS or the SSL context is not available
  optional ret,
  -- unless some parameter is not valid
  optional (steps [
    -- the initial server
    optional (steps [
      both v d (unsafeAddRedisServer v d),
      when d.clusterEnabled (discoverClusterSlots v d)]),
    -- the database is registered
    configured v skip])]

theorem vmodDbInit_keeps : Keeps ∅ (vmodDbInit v d) := by
  intro breaks returns
  apply Spec.fn
  apply Spec.cons (Spec.optional Spec.ret)
  refine Spec.cons (Spec.optional ?_) Spec.nil
  apply Spec.cons
  · apply Spec.optional
    apply Spec.cons (both_spec (unsafeAddRedisServer_keeps config_mem mutex_mem) _ _)
    refine Spec.cons ?_ Spec.nil
    cases d.clusterEnabled with
    | true => exact discoverClusterSlots_keeps _ _
    | false => exact Spec.skip
  · exact Spec.cons (configured_spec (fun _ _ => Spec.skip) _ _) Spec.nil

def vmodDbFini (v : VclId) : Code Mutex := configSection v

def vmodDbAddServer (v : VclId) (d : DbObject) : Code Mutex := fn [
  -- unless the location or the type is not valid
  optional (steps [
    both v d (unsafeAddRedisServer v d),
    when d.clusterEnabled (optional (discoverClusterSlots v d))])]

theorem vmodDbAddServer_keeps : Keeps ∅ (vmodDbAddServer v d) := by
  intro breaks returns
  apply Spec.fn
  refine Spec.cons (Spec.optional ?_) Spec.nil
  apply Spec.cons (both_spec (unsafeAddRedisServer_keeps config_mem mutex_mem) _ _)
  refine Spec.cons ?_ Spec.nil
  cases d.clusterEnabled with
  | true => exact Spec.optional (discoverClusterSlots_keeps _ _)
  | false => exact Spec.skip

def vmodDbExecute (v : VclId) (d : DbObject) : Code Mutex := fn [
  -- unless no command is enqueued for the database
  optional (steps [
    bif d.clusterEnabled then clusterExecute v d else redisExecute d,
    -- an error reply
    optional (steps [lock d.mutex, unlock d.mutex])])]

theorem vmodDbExecute_keeps : Keeps ∅ (vmodDbExecute v d) := by
  intro breaks returns
  apply Spec.fn
  refine Spec.cons (Spec.optional ?_) Spec.nil
  apply Spec.cons
  · cases d.clusterEnabled with
    | true => exact clusterExecute_keeps _ _
    | false => exact redisExecute_keeps (above_empty _) _ _
  · exact Spec.cons (Spec.optional (section_spec (above_empty _) _ _)) Spec.nil

def vmodDbEasyExecute (v : VclId) (d : DbObject) : Code Mutex := fn [
  -- empty command name
  optional ret,
  vmodDbExecute v d]

theorem vmodDbEasyExecute_keeps : Keeps ∅ (vmodDbEasyExecute v d) := by
  intro breaks returns
  apply Spec.fn
  apply Spec.cons (Spec.optional Spec.ret)
  exact Spec.cons (vmodDbExecute_keeps _ _) Spec.nil

def vmodDbStats (d : DbObject) : Code Mutex := fn [
  lock d.mutex,
  -- workspace overflow
  optional (steps [unlock d.mutex, ret]),
  unlock d.mutex]

theorem vmodDbStats_keeps : Keeps ∅ (vmodDbStats d) := by
  intro breaks returns
  apply Spec.fn
  apply Spec.cons (Spec.lock (above_empty _))
  apply Spec.cons
  · refine Spec.either ?_ Spec.skip
    apply Spec.cons (Spec.unlock (Finset.notMem_empty _))
    exact Spec.cons Spec.ret Spec.nil
  · exact Spec.cons (Spec.unlock (Finset.notMem_empty _)) Spec.nil

inductive Method where
  | addServer
  | execute
  | easyExecute
  | stats
  /-- Any of the methods that only use the state of the task, or `counter`. -/
  | unlocked

def Method.call (v : VclId) (d : DbObject) : Method → Code Mutex
  | addServer => vmodDbAddServer v d
  | execute => vmodDbExecute v d
  | easyExecute => vmodDbEasyExecute v d
  | stats => vmodDbStats d
  | unlocked => skip

theorem Method.call_keeps (m : Method) : Keeps ∅ (m.call v d) := by
  cases m with
  | addServer => exact vmodDbAddServer_keeps
  | execute => exact vmodDbExecute_keeps
  | easyExecute => exact vmodDbEasyExecute_keeps
  | stats => exact vmodDbStats_keeps
  | unlocked => exact fun _ _ => Spec.skip

def getDbInstance (v : VclId) : Code Mutex := configSection v

def vmodUse (v : VclId) : Code Mutex := fn [optional (getDbInstance v)]

theorem vmodUse_keeps : Keeps ∅ (vmodUse v) :=
  fun _ _ => Spec.fn (Spec.cons (Spec.optional (configSection_keeps _ _)) Spec.nil)

def proxied (v : VclId) (m : Method) : Code Mutex := fn [
  optional (getDbInstance v),
  -- unless no instance is available
  optional (any fun d : DbObject => m.call v d)]

theorem proxied_keeps (m : Method) : Keeps ∅ (proxied v m) := by
  intro breaks returns
  apply Spec.fn
  apply Spec.cons (Spec.optional (configSection_keeps _ _))
  exact Spec.cons (Spec.optional (Spec.any fun d => m.call_keeps _ _)) Spec.nil

/-! ### The entry points -/

inductive EntryPoint where
  | event (v : VclId) (e : VclEvent)
  | weights (v : VclId)
  | sentinels (v : VclId)
  | dbInit (v : VclId) (d : DbObject)
  | dbFini (v : VclId)
  | method (v : VclId) (d : DbObject) (m : Method)
  | use (v : VclId)
  | proxied (v : VclId) (m : Method)
  | sentinelLoop (v : VclId)

def EntryPoint.code : EntryPoint → Code Mutex
  | event v e => vmodEventFunction v e
  | weights v => vmodWeights v
  | sentinels v => vmodSentinels v
  | dbInit v d => vmodDbInit v d
  | dbFini v => vmodDbFini v
  | method v d m => m.call v d
  | use v => vmodUse v
  | proxied v m => LockPaths.proxied v m
  | sentinelLoop v => LockPaths.sentinelLoop v

theorem EntryPoint.code_keeps (e : EntryPoint) : Keeps ∅ e.code := by
  cases e with
  | event v e => exact vmodEventFunction_keeps e
  | weights v => exact vmodWeights_keeps
  | sentinels v => exact configSection_keeps
  | dbInit v d => exact vmodDbInit_keeps
  | dbFini v => exact configSection_keeps
  | method v d m => exact m.call_keeps
  | use v => exact vmodUse_keeps
  | proxied v m => exact proxied_keeps m
  | sentinelLoop v => exact sentinelLoop_keeps

def worker : Code Mutex := forever [any EntryPoint.code]

theorem worker_spec : Spec ∅ worker ∅ ∅ ∅ := by
  apply Spec.forever
  exact Spec.cons (Spec.any fun e => e.code_keeps _ _) Spec.nil

def Disciplined (held : Finset Mutex) : Act Mutex → Prop
  | .lock m => m ∉ held ∧ ∀ v, m = .config v → ∀ id, .db id ∉ held
  | .unlock m => m ∈ held
  | .assertHeld m => m ∈ held

theorem disciplined_of_allowed {held : Finset Mutex} {a : Act Mutex} (h : a.Allowed held) : Disciplined held a := by
  cases a with
  | lock m =>
    refine ⟨h.notMem, ?_⟩
    rintro v rfl id hid
    have hlt : 2 < 1 := h (.db id) hid
    omega
  | unlock m => exact h
  | assertHeld m => exact h

/-- Every entry point keeps the lock discipline and returns with no mutex held, and threads running
them never wait for each other in a circle. -/
theorem lock_discipline :
    (∀ (entry : EntryPoint) (x : List (Act Mutex)) (e : Exit), entry.code.Path x e →
      (∀ before a after, x = before ++ a :: after → Disciplined (heldAfter ∅ before) a) ∧
        (e ≠ .cut → heldAfter ∅ x = ∅)) ∧
    ∀ (θ : Type) [DecidableEq θ] (s : θ → List (Act Mutex)), (threads fun _ : θ => worker).Reachable s →
      ∀ t, ¬ Relation.TransGen (WaitsFor (fun _ => worker) s) t t := by
  constructor
  · intro entry x e hx
    obtain ⟨hallowed, hend⟩ := Spec.path (entry.code_keeps ∅ ∅) hx
    refine ⟨?_, hend⟩
    intro before a after he
    exact disciplined_of_allowed (hallowed before a after he)
  · intro θ _ s _ t
    exact no_circular_wait (fun _ => worker_spec) s t

section

variable {p q : Code Mutex} {l : List (Code Mutex)} {x y : List (Act Mutex)} {e : Exit}

theorem path_act (a : Act Mutex) : (act a).Path [a] .falls := Or.inr ⟨rfl, Or.inl rfl⟩

theorem path_nil : (steps ([] : List (Code Mutex))).Path [] .falls := ⟨rfl, Or.inl rfl⟩

theorem path_cons (hp : p.Path x .falls) (hl : (steps l).Path y e) : (steps (p :: l)).Path (x ++ y) e :=
  Or.inr ⟨x, y, rfl, hp, hl⟩

theorem path_either_left (hp : p.Path x e) : (either p q).Path x e := ⟨true, hp⟩

theorem path_optional (hp : p.Path x e) : (optional p).Path x e := path_either_left hp

theorem path_skipped (p : Code Mutex) : (optional p).Path [] .falls := ⟨false, rfl, Or.inl rfl⟩

theorem path_fn (hl : (steps l).Path x .falls) : (fn l).Path x .falls := ⟨.falls, hl, rfl⟩

end

theorem unsafeAddRedisServer_path (v : VclId) (d : DbObject) :
    (unsafeAddRedisServer v d).Path [.assertHeld (.config v), .assertHeld d.mutex] .falls := by
  apply path_fn
  apply path_cons (path_act _)
  apply path_cons (path_act _)
  exact path_cons (path_either_left (path_skipped _)) path_nil

def addServerPath : List (Act Mutex) :=
  [.lock (.config 0), .lock (.db 7), .assertHeld (.config 0), .assertHeld (.db 7), .unlock (.db 7), .unlock (.config 0)]

theorem vmodDbAddServer_path : (vmodDbAddServer 0 ⟨7, true, false⟩).Path addServerPath .falls := by
  apply path_fn
  refine path_cons (x := addServerPath) (path_optional (path_cons (x := addServerPath) ?_ (path_cons path_nil path_nil)))
    path_nil
  apply path_cons (path_act _)
  apply path_cons (path_act _)
  apply path_cons (unsafeAddRedisServer_path _ _)
  apply path_cons (path_act _)
  exact path_cons (path_act _) path_nil

theorem worker_entered (entry : EntryPoint) (x y : List (Act Mutex)) {e : Exit} (h : entry.code.Path (x ++ y) e) :
    worker.Path x .cut :=
  Rounds.exit _ _ (Or.inl ⟨⟨entry, entry.code.interrupted x y e h⟩, Exit.noConfusion⟩) (Or.inr rfl)

theorem worker_addServer (n : ℕ) : worker.Path (addServerPath.take n) .cut := by
  refine worker_entered (e := .falls) (.method 0 ⟨7, true, false⟩ .addServer) _ (addServerPath.drop n) ?_
  rw [List.take_append_drop]
  exact vmodDbAddServer_path

theorem vmodDbStats_path (d : DbObject) : (vmodDbStats d).Path [.lock d.mutex, .unlock d.mutex] .falls := by
  apply path_fn
  apply path_cons (path_act _)
  apply path_cons (path_skipped _)
  exact path_cons (path_act _) path_nil

def contended : Bool → List (Act Mutex) :=
  Function.update (Function.update (fun _ => []) true (addServerPath.take 1)) true (addServerPath.take 2)

theorem contended_reachable : (threads fun _ : Bool => worker).Reachable contended := by
  have hinit : (threads fun _ : Bool => worker).Reachable fun _ => [] := System.reachable_init rfl
  have hfirst := hinit.step (Step.step _ true (Act.lock (Mutex.config 0)) (worker_addServer 1)
    fun m _ u hu => absurd hu (Finset.notMem_empty m))
  refine hfirst.step (Step.step _ true (Act.lock (Mutex.db 7)) (worker_addServer 2) ?_)
  rintro m ⟨rfl⟩ u
  cases u with
  | false => exact Finset.notMem_empty _
  | true =>
    change Mutex.db 7 ∉ heldAfter ∅ (addServerPath.take 1)
    decide

theorem lock_discipline_contended :
    ((∀ before a after, addServerPath = before ++ a :: after → Disciplined (heldAfter ∅ before) a) ∧
        heldAfter ∅ addServerPath = ∅) ∧
      WaitsFor (fun _ : Bool => worker) contended false true ∧
      ∀ t, ¬ Relation.TransGen (WaitsFor (fun _ : Bool => worker) contended) t t := by
  have hpath := lock_discipline.1 (.method 0 ⟨7, true, false⟩ .addServer) _ _ vmodDbAddServer_path
  have hwants : worker.Path [.lock (.db 7)] .cut :=
    worker_entered (.method 0 ⟨7, true, false⟩ .stats) _ [.unlock (.db 7)] (vmodDbStats_path ⟨7, true, false⟩)
  have hholds : Mutex.db 7 ∈ heldAfter ∅ (addServerPath.take 2) := by decide
  exact ⟨⟨hpath.1, hpath.2 nofun⟩, ⟨.db 7, hwants, hholds⟩, lock_discipline.2 Bool _ contended_reachable⟩

end VmodRedis.LockPaths
