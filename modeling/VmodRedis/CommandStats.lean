import VmodRedis.ConnectionTally
import VmodRedis.ExecutionTrace

/-!
Nothing but the end of an attempt touches the counters of the commands.
-/

namespace VmodRedis.CommandStats

open CStrings Replies Database Connections Registry Planning Discovery DiscoveryWalk SharedPool Execution ClusterExecution
open ConnectionTally

structure Commands where
  total : ℕ
  failed : ℕ
  retried : ℕ

def commands (db : Db) : Commands := ⟨db.stats.commandsTotal, db.stats.commandsFailed, db.stats.commandsRetried⟩

theorem commands_of_stats {db db' : Db} (h : db'.stats = db.stats) : commands db' = commands db := by
  unfold commands
  rw [h]

@[simp] theorem setServer_commands (db : Db) (s : ServerId) (v : Server) : commands (db.setServer s v) = commands db := rfl

@[simp] theorem setPool_commands (db : Db) (s : ServerId) (p : Pool) : commands (db.setPool s p) = commands db := rfl

@[simp] theorem insertServer_commands (db : Db) (s : ServerId) : commands (db.insertServer s) = commands db := rfl

/-! ### Connections -/

@[simp] theorem flushSickness_commands (now : ℤ) (s : ServerId) (db : Db) :
    commands (flushSickness now s db) = commands db := commands_of_stats (flushSickness_stats now s db)

@[simp] theorem flagSickness_commands (now : ℤ) (s : ServerId) (db : Db) :
    commands (flagSickness now s db) = commands db := commands_of_stats (flagSickness_stats now s db)

@[simp] theorem newRcontext_commands (now : ℤ) (ephemeral connected : Bool) (s : ServerId) (db : Db) :
    commands (newRcontext now ephemeral connected s db) = commands db := by
  unfold newRcontext
  cases connected <;> cases ephemeral
  · exact flagSickness_commands now s db
  · exact flagSickness_commands now s db
  · exact flushSickness_commands now s db
  · exact flushSickness_commands now s db

@[simp] theorem isValidRedisContext_commands (p : Probe) (heap : Heap) (db : Db) (c : ContextId) :
    commands (isValidRedisContext p heap db c).2 = commands db := by
  unfold isValidRedisContext
  cases rejection p heap db c <;> rfl

theorem takeFree_commands (probe : Probe) (heap : Heap) (s : ServerId) (queue : List ContextId) (db : Db) :
    commands (takeFree probe heap s queue db).2 = commands db := by
  induction queue generalizing db with
  | nil => rfl
  | cons c queue ih =>
    rw [takeFree_cons]
    have hcheck : commands (checkFree probe heap s c queue db).2 = commands db := isValidRedisContext_commands _ _ _ _
    split_ifs
    · exact hcheck
    · exact (ih _).trans hcheck

theorem lockSection_commands (input : LockInput) (s : ServerId) (heap : Heap) (db : Db) :
    commands (lockSection input s heap db).2.2 = commands db := by
  have htake := takeFree_commands input.probe heap s (db.server s).pool.free db
  unfold lockSection
  generalize takeFree input.probe heap s (db.server s).pool.free db = r at htake ⊢
  obtain ⟨_ | c, d⟩ := r
  · dsimp only at htake ⊢
    split_ifs
    · exact htake
    · simpa using htake
    · simpa using htake
  · exact htake

/-! ### Plans -/

theorem scanContexts_commands (suitable : ContextId → Bool) (p : Probe) (heap : Heap) (maxSize freeWs : ℕ)
    (contexts : List ContextId) (scan : ContextScan) :
    commands (scanContexts suitable p heap maxSize freeWs contexts scan).db = commands scan.db := by
  induction contexts generalizing scan with
  | nil => rfl
  | cons c rest ih =>
    unfold scanContexts
    dsimp only
    split_ifs <;> simp [ih]

theorem contextsOf_commands (suitable : ContextId → Bool) (input : PlanInput) (heap : Heap) (maxSize : ℕ) (task : Task)
    (db : Db) : commands (contextsOf suitable input heap maxSize task db).db = commands db := by
  unfold contextsOf
  split_ifs
  · rfl
  · exact scanContexts_commands _ _ _ _ _ _ _

theorem populateSimpleExecutionPlan_commands {input : PlanInput} {heap : Heap} {maxSize : ℕ} {s : ServerId}
    {task task' : Task} {db db' : Db} {plan : Plan}
    (h : populateSimpleExecutionPlan input heap maxSize s task db = .ok (plan, task', db')) :
    commands db' = commands db := by
  have hscan := contextsOf_commands (suitableForServer db heap s) input heap maxSize task db
  unfold populateSimpleExecutionPlan at h
  dsimp only at h
  split_ifs at h <;> cases h <;> exact hscan

theorem populateExecutionPlan_commands {input : PlanInput} {heap : Heap} {maxSize : ℕ} {master : Bool} {slot : ℕ}
    {task task' : Task} {db db' : Db} {plan : Plan}
    (h : populateExecutionPlan input heap maxSize master slot task db = .ok (plan, task', db')) :
    commands db' = commands db := by
  have hscan := contextsOf_commands (suitableForCommand db heap master slot) input heap maxSize task db
  unfold populateExecutionPlan at h
  dsimp only at h
  split_ifs at h <;> cases h
  · exact hscan
  · exact (commands_of_stats (serversOf_spec _ _ _ _ _ _).rotated.stats).trans hscan
  · exact hscan

theorem planExecution_commands {input : PlanInput} {heap : Heap} {maxSize : ℕ} {server : Option ServerId}
    {master : Bool} {slot : ℕ} {task task' : Task} {db db' : Db} {plan : Option Plan}
    (h : planExecution input heap maxSize server master slot task db = .ok (plan, task', db')) :
    commands db' = commands db := by
  rcases planExecution_cases h with ⟨-, -, -, rfl⟩ | ⟨-, p, -, ⟨s, -, hp⟩ | ⟨-, hp⟩⟩
  · rfl
  · exact populateSimpleExecutionPlan_commands hp
  · exact populateExecutionPlan_commands hp

/-! ### Attempts -/

theorem evict_commands {w w' : World} (h : evict w = some w') : commands w'.db = commands w.db := by
  unfold evict at h
  split_ifs at h
  · cases hc : w.task.contexts with
    | nil =>
      rw [hc] at h
      cases h
    | cons c rest =>
      rw [hc] at h
      obtain rfl := Option.some.inj h
      rfl
  · obtain rfl := Option.some.inj h
    rfl

theorem createPrivate_commands (input : AttemptInput) (s : ServerId) (w : World) :
    commands (createPrivate input s w).2.db = commands w.db := by
  unfold createPrivate
  dsimp only
  split_ifs <;> exact newRcontext_commands _ _ _ _ _

theorem lockPrivateRedisContext_commands (input : AttemptInput) (plan : Plan) (w : World) :
    commands (lockPrivateRedisContext input plan w).1.db = commands w.db := by
  unfold lockPrivateRedisContext
  cases plan.contexts[plan.nextContext]? with
  | some c => rfl
  | none =>
    cases plan.servers[plan.nextServer]? with
    | none => rfl
    | some s =>
      cases he : evict w with
      | none => rfl
      | some w' =>
        have hevict : commands w'.db = commands w.db := evict_commands he
        exact (createPrivate_commands _ _ _).trans hevict

theorem runSection_commands (probe : Probe) (connected : Bool) (s : ServerId) (w : World) :
    commands (runSection probe connected s w).2.db = commands w.db := lockSection_commands _ _ _ _

theorem act_commands (w : World) (a : PoolAction) : commands (act w a).db = commands w.db := by
  cases a with
  | lock probe connected s => exact runSection_commands probe connected s w
  | unlock c =>
    unfold act
    dsimp only
    split_ifs <;> rfl
  | fail c => rfl

theorem acts_commands (w : World) (actions : List PoolAction) : commands (actions.foldl act w).db = commands w.db := by
  induction actions generalizing w with
  | nil => rfl
  | cons a actions ih => exact (ih _).trans (act_commands w a)

theorem lockSections_commands (input : AttemptInput) (s : ServerId) (meanwhile : List (List PoolAction)) (w : World) :
    commands (lockSections input s meanwhile w).1.db = commands w.db := by
  induction meanwhile generalizing w with
  | nil =>
    have hrun := runSection_commands input.probe input.connected s w
    unfold lockSections
    generalize runSection input.probe input.connected s w = r at hrun ⊢
    obtain ⟨locked, w'⟩ := r
    cases locked <;> exact hrun
  | cons actions rest ih =>
    have hrun := runSection_commands input.probe input.connected s w
    unfold lockSections
    generalize runSection input.probe input.connected s w = r at hrun ⊢
    obtain ⟨locked, w'⟩ := r
    cases locked with
    | waiting => exact (ih _).trans ((acts_commands w' actions).trans hrun)
    | _ => exact hrun

theorem lockRedisContext_commands (input : AttemptInput) (plan : Plan) (w : World) :
    commands (lockRedisContext input plan w).1.db = commands w.db := by
  unfold lockRedisContext
  split_ifs
  · unfold lockSharedRedisContext
    cases plan.servers[plan.nextServer]? with
    | none => rfl
    | some s =>
      have hrun := lockSections_commands input s input.meanwhile w
      dsimp only
      generalize lockSections input s input.meanwhile w = r at hrun ⊢
      obtain ⟨w', f | c⟩ := r <;> exact hrun
  · exact lockPrivateRedisContext_commands input plan w

theorem send_commands (answer : Command → Option Reply) (asking : Bool) (c : ContextId) (argv : Argv) (w : World) :
    commands (send answer asking c argv w).1.db = commands w.db := by
  unfold send
  cases argv.mapM id <;> rfl

section

variable (sha1 : Bytes → Bytes)

theorem evaluate_commands (input : AttemptInput) (asking : Bool) (c : ContextId) (script : Bytes) (rest : Argv)
    (w : World) : commands (evaluate sha1 input asking c script rest w).1.db = commands w.db := by
  unfold evaluate
  by_cases hevalsha : (!input.copies.evalsha) = true
  · rw [if_pos hevalsha]
  rw [if_neg hevalsha]
  by_cases hsha : (!input.copies.sha) = true
  · rw [if_pos hsha]
  rw [if_neg hsha]
  have hsend := send_commands input.first asking c (some (bytes "EVALSHA") :: some (sha1 script) :: rest) w
  dsimp only
  generalize send input.first asking c (some (bytes "EVALSHA") :: some (sha1 script) :: rest) w = r at hsend ⊢
  obtain ⟨w', f | reply⟩ := r
  · exact hsend
  dsimp only at hsend ⊢
  by_cases hnoscript : isNoscriptReply w' c reply = true
  · rw [if_pos hnoscript]
    by_cases heval : (!input.copies.eval) = true
    · rw [if_pos heval]
      exact hsend
    · rw [if_neg heval]
      dsimp only
      rw [ofSend_world, send_commands]
      exact hsend
  · rw [if_neg hnoscript]
    exact hsend

theorem executeOn_commands (input : AttemptInput) (asking : Bool) (c : ContextId) (argv : Argv) (w : World) :
    commands (executeOn sha1 input asking c argv w).1.db = commands w.db := by
  have hsend := send_commands input.first asking c argv w
  rw [← ofSend_world] at hsend
  unfold executeOn
  split
  · split_ifs
    · exact evaluate_commands sha1 input asking c _ _ w
    · exact hsend
  · exact hsend
  · rfl

theorem attempt_commands (input : AttemptInput) (asking : Bool) (plan : Plan) (argv : Argv) (w : World) :
    commands (attempt sha1 input asking plan argv w).world.db = commands w.db := by
  have hlock := lockRedisContext_commands input plan w
  unfold attempt
  generalize lockRedisContext input plan w = r at hlock ⊢
  obtain ⟨w', f | ⟨_ | c, plan'⟩⟩ := r
  · exact hlock
  · exact hlock
  have hx := executeOn_commands sha1 input asking c argv w'
  dsimp only at hx hlock ⊢
  generalize executeOn sha1 input asking c argv w' = x at hx ⊢
  obtain ⟨w'', argv', f | result⟩ := x
  · exact hx.trans hlock
  · unfold unlockRedisContext
    dsimp only at hx ⊢
    split_ifs <;> exact hx.trans hlock

end

/-! ### Redirections -/

theorem createdRole_commands (q : RoleQuery) (s : ServerId) (role : Role) (db : Db) :
    commands (createdRole q s role db).2 = commands db := by
  unfold createdRole
  split_ifs
  · exact newRcontext_commands _ _ _ _ _
  · rfl

theorem updatedRole_commands (q : RoleQuery) (s : ServerId) (role : Role) (db : Db) :
    commands (updatedRole q s role db).2 = commands db := by
  unfold updatedRole
  split_ifs
  · exact newRcontext_commands _ _ _ _ _
  · rfl

theorem createServer_commands (input : AddInput) (rules : List WeightRule) (v : Server) (db : Db) :
    commands (createServer input rules v db).2 = commands db := createdRole_commands input.query db.nextServer v.role _

theorem updateServer_commands (input : AddInput) (role : Role) (b : Bucket) (s : ServerId) (db : Db) :
    commands (updateServer input role b s db) = commands db :=
  (flushSickness_commands input.now s _).trans (updatedRole_commands input.query s role _)

theorem unsafeAddRedisServer_commands (input : AddInput) (rules : List WeightRule) (location : Bytes) (role : Role)
    (db : Db) : commands (unsafeAddRedisServer input rules location role db).2 = commands db := by
  unfold unsafeAddRedisServer
  cases findServer db location with
  | none =>
    cases newRedisServer db location role with
    | none => rfl
    | some v => exact createServer_commands input rules v db
  | some found => exact updateServer_commands _ _ _ _ _

theorem unsafeAddNode_commands (now : ℤ) (rules : List WeightRule) (node : Node) (db : Db) :
    commands (unsafeAddNode now rules node db).2 = commands db := by
  have hadd := unsafeAddRedisServer_commands ⟨⟨now, false, none⟩, now⟩ rules node.location node.role db
  unfold unsafeAddNode
  by_cases hlong : 256 ≤ node.location.length
  · rw [if_pos hlong]
  · rw [if_neg hlong]
    generalize unsafeAddRedisServer _ rules node.location node.role db = r at hadd ⊢
    obtain ⟨_ | s, d⟩ := r
    · exact hadd
    · cases hhealthy : node.healthy with
      | true => exact hadd
      | false => exact (flagSickness_commands now s d).trans hadd

theorem foldl_commands {σ α : Type} {f : σ → α → σ} (view : σ → Db)
    (hstep : ∀ a x, commands (view (f a x)) = commands (view a)) (l : List α) (a : σ) :
    commands (view (l.foldl f a)) = commands (view a) := by
  induction l generalizing a with
  | nil => rfl
  | cons x l ih => exact (ih _).trans (hstep a x)

theorem discoverNode_commands (rules : List WeightRule) (host : Bytes) (ranges : List SlotRange) (topology : Topology)
    (reply : Reply) : commands (discoverNode rules host ranges topology reply).db = commands topology.db := by
  unfold discoverNode
  cases parseNode topology.db.tls host reply with
  | none => rfl
  | some node =>
    have hnode := unsafeAddNode_commands (topology.clock 0) rules node topology.db
    dsimp only
    generalize unsafeAddNode (topology.clock 0) rules node topology.db = r at hnode ⊢
    obtain ⟨_ | s, d⟩ := r
    · exact hnode
    · have hreset : commands (if (!ranges.isEmpty && !topology.reset) = true then unsafeResetSlots d else d) = commands d := by
        split_ifs
        · exact commands_of_stats (unsafeResetSlots_only d).stats
        · rfl
      exact (commands_of_stats (registerRanges_only s ranges _).stats).trans (hreset.trans hnode)

theorem discoverShard_commands (rules : List WeightRule) (host : Bytes) (topology : Topology) (shard : Reply) :
    commands (discoverShard rules host topology shard).db = commands topology.db := by
  unfold discoverShard
  cases parseShard shard with
  | none => rfl
  | some parsed =>
    obtain ⟨slots, nodes⟩ := parsed
    exact foldl_commands Topology.db (discoverNode_commands rules host (shardRanges slots)) nodes topology

theorem unsafeDiscoverSlotsAux_commands (clock : ℕ → ℤ) (rules : List WeightRule) (reply : Option Reply) (s : ServerId)
    (db : Db) : commands (unsafeDiscoverSlotsAux clock rules reply s db).2 = commands db := by
  have hcount : ∀ done (d : Db), commands (countDiscovery done d) = commands d := fun done d => by cases done <;> rfl
  unfold unsafeDiscoverSlotsAux
  split
  · exact (hcount _ _).trans (foldl_commands Topology.db (discoverShard_commands rules _) _ _)
  · exact hcount false db

theorem query_commands (input : DiscoveryInput) (s : ServerId) (walk : Walk) :
    commands (query input s walk).2.db = commands walk.db := unsafeDiscoverSlotsAux_commands _ _ _ _ _

theorem visitFrom_commands {input : DiscoveryInput} {start : ServerId} {fuel : ℕ} {s : Option ServerId} {walk : Walk}
    {r : Bool × Walk} (h : visitFrom input start fuel s walk = some r) : commands r.2.db = commands walk.db := by
  induction fuel generalizing s walk with
  | zero =>
    cases s with
    | none =>
      obtain rfl := Option.some.inj h
      rfl
    | some s => cases h
  | succ fuel ih =>
    cases s with
    | none =>
      obtain rfl := Option.some.inj h
      rfl
    | some s =>
      have hquery := query_commands input s walk
      unfold visitFrom at h
      dsimp only at h
      split_ifs at h
      · obtain rfl := Option.some.inj h
        exact hquery
      · exact (ih h).trans hquery
      · exact ih h

theorem visitBuckets_commands {input : DiscoveryInput} {start : ServerId} {fuel : ℕ} {bs : List Bucket} {walk : Walk}
    {r : Bool × Walk} (h : visitBuckets input start fuel bs walk = some r) : commands r.2.db = commands walk.db := by
  induction bs generalizing walk with
  | nil =>
    obtain rfl := Option.some.inj h
    rfl
  | cons b bs ih =>
    unfold visitBuckets at h
    cases hv : visitFrom input start fuel (walk.db.servers b).head? walk with
    | none =>
      rw [hv] at h
      cases h
    | some found =>
      have hvisit := visitFrom_commands hv
      rw [hv] at h
      obtain ⟨_ | _, walk'⟩ := found
      · exact (ih h).trans hvisit
      · obtain rfl := Option.some.inj h
        exact hvisit

theorem unsafeDiscoverSlots_commands {fuel : ℕ} {input : DiscoveryInput} {start : ServerId} {db : Db} {r : Bool × Walk}
    (h : unsafeDiscoverSlots fuel input start db = some r) : commands r.2.db = commands db := by
  have hquery := query_commands input start ⟨db, []⟩
  unfold unsafeDiscoverSlots at h
  dsimp only at h
  split_ifs at h
  · obtain rfl := Option.some.inj h
    exact hquery
  · exact (visitBuckets_commands h).trans hquery

theorem redirect_commands (fuel : ℕ) (input : RedirectInput) (i : ℕ) (str : Bytes) (w : World) :
    commands (redirect fuel input i str w).1.db = commands w.db := by
  rcases redirect_cases fuel input i str w with
    ⟨-, h⟩ | ⟨location, db, -, ha, h⟩ | ⟨location, s, db, -, ha, ⟨-, h⟩ | ⟨-, ⟨-, h⟩ | ⟨found, walk, hd, h⟩⟩⟩ <;> rw [h]
  all_goals have hadd := unsafeAddRedisServer_commands input.add input.rules location .tbd w.db
  all_goals rw [ha] at hadd
  · exact hadd
  · exact hadd
  · exact hadd
  · exact (unsafeDiscoverSlots_commands hd).trans hadd

end VmodRedis.CommandStats
