import Mathlib.Algebra.BigOperators.Group.Finset.Basic
import VmodRedis.SentinelReport
import VmodRedis.SharedPoolWorkers

/-!
What the operations of a database with shared connections do to the number of its connections and
to the counters of those that were opened and dropped.
-/

namespace VmodRedis.ConnectionTally

open CStrings Replies Database Connections Registry Discovery Planning SentinelUpdate SharedPool RegistryInvariant

def size (p : Pool) : ℕ := p.free.length + p.busy.length

def rejected (d : Dropped) : ℕ := d.error + d.hungUp + d.ttl + d.version + d.sick

theorem rejected_countDrop (drop : Drop) (d : Dropped) : rejected (countDrop drop d) = rejected d + 1 := by
  cases drop <;> simp only [countDrop, rejected] <;> omega

/-! ### The sections of the workers -/

def Settles (s : ServerId) (db db' : Db) : Prop :=
  db'.stats.connectionsTotal + (size (pool db s) + rejected db.stats.dropped) =
    db.stats.connectionsTotal + (size (pool db' s) + rejected db'.stats.dropped)

variable {s : ServerId} {db db' db'' : Db}

theorem Settles.trans (h : Settles s db db') (h' : Settles s db' db'') : Settles s db db'' := by
  unfold Settles at *
  omega

theorem isValidRedisContext_tally (p : Probe) (heap : Heap) (db : Db) (c : ContextId) :
    (isValidRedisContext p heap db c).2.stats.connectionsTotal = db.stats.connectionsTotal ∧
      rejected (isValidRedisContext p heap db c).2.stats.dropped =
        rejected db.stats.dropped + if (isValidRedisContext p heap db c).1 then 0 else 1 := by
  unfold isValidRedisContext
  cases rejection p heap db c with
  | none => exact ⟨rfl, rfl⟩
  | some d => exact ⟨rfl, rejected_countDrop d db.stats.dropped⟩

theorem takeFree_settles (probe : Probe) (heap : Heap) (queue : List ContextId) (n : ℕ) (busy : List ContextId)
    (hp : pool db s = ⟨n, queue, busy⟩) (hd : ∀ c ∈ queue, c ∉ busy) :
    Settles s db (takeFree probe heap s queue db).2 := by
  induction queue generalizing db n with
  | nil => exact rfl
  | cons c queue ih =>
    have hp' : (db.server s).pool = ⟨n, c :: queue, busy⟩ := hp
    have hpool : pool (checkFree probe heap s c queue db).2 s = ⟨n, queue, busy ++ [c]⟩ := by
      unfold pool
      rw [checkFree_pool, hp']
    obtain ⟨htotal, hrejected⟩ := isValidRedisContext_tally probe heap
      (db.setPool s { (db.server s).pool with free := queue, busy := (db.server s).pool.busy ++ [c] }) c
    change (checkFree probe heap s c queue db).2.stats.connectionsTotal = db.stats.connectionsTotal at htotal
    change rejected (checkFree probe heap s c queue db).2.stats.dropped = rejected db.stats.dropped +
      if (checkFree probe heap s c queue db).1 then 0 else 1 at hrejected
    rw [takeFree_cons]
    split_ifs with hv
    · rw [if_pos hv] at hrejected
      unfold Settles
      rw [hpool, hp, htotal, hrejected]
      simp only [size, List.length_cons, List.length_append, List.length_nil]
      omega
    · rw [if_neg hv] at hrejected
      have hnext := dropBusy_pool hpool (hd c List.mem_cons_self)
      have hstep : Settles s db (dropBusy s c (checkFree probe heap s c queue db).2) := by
        change (checkFree probe heap s c queue db).2.stats.connectionsTotal + (size (pool db s) + _) =
          _ + (size ((dropBusy s c (checkFree probe heap s c queue db).2).server s).pool +
            rejected (checkFree probe heap s c queue db).2.stats.dropped)
        rw [hnext, hp, htotal, hrejected]
        simp only [size, List.length_cons]
        omega
      exact hstep.trans (ih (n - 1) hnext fun x hx => hd x (List.mem_cons_of_mem c hx))

theorem flushSickness_stats (now : ℤ) (s : ServerId) (db : Db) : (flushSickness now s db).stats = db.stats := by
  unfold flushSickness
  dsimp only
  split_ifs <;> rfl

theorem flagSickness_stats (now : ℤ) (s : ServerId) (db : Db) : (flagSickness now s db).stats = db.stats := by
  unfold flagSickness
  split_ifs <;> rfl

theorem newRcontext_tally (now : ℤ) (ephemeral connected : Bool) (s : ServerId) (db : Db) :
    (newRcontext now ephemeral connected s db).stats.connectionsTotal =
        db.stats.connectionsTotal + (if connected && !ephemeral then 1 else 0) ∧
      (newRcontext now ephemeral connected s db).stats.dropped = db.stats.dropped := by
  unfold newRcontext
  cases connected <;> cases ephemeral <;> simp [Db.setStats, flushSickness_stats, flagSickness_stats]

theorem failed_settles (now : ℤ) (s : ServerId) (db : Db) : Settles s db (newRcontext now false false s db) := by
  obtain ⟨htotal, hdropped⟩ := newRcontext_tally now false false s db
  have hpool := (newRcontext_only now false false s db).pool s
  unfold Settles pool
  rw [htotal, hdropped, hpool]
  rfl

theorem opened_settles (now : ℤ) (s : ServerId) (db : Db) (c : ContextId) (n : ℕ) :
    Settles s db ((newRcontext now false true s db).setPool s
      { ((newRcontext now false true s db).server s).pool with
        ncontexts := n, busy := ((newRcontext now false true s db).server s).pool.busy ++ [c] }) := by
  obtain ⟨htotal, hdropped⟩ := newRcontext_tally now false true s db
  have hpool := (newRcontext_only now false true s db).pool s
  obtain ⟨d, hd⟩ : ∃ d, d = newRcontext now false true s db := ⟨_, rfl⟩
  rw [← hd] at htotal hdropped hpool ⊢
  change d.stats.connectionsTotal + (size (db.server s).pool + rejected db.stats.dropped) =
    db.stats.connectionsTotal + (size ((d.setPool s _).server s).pool + rejected d.stats.dropped)
  rw [setPool_pool, htotal, hdropped, hpool]
  simp only [size, List.length_append, List.length_singleton, Bool.not_false, Bool.and_self, if_true]
  omega

theorem lockSection_settles (input : LockInput) (s : ServerId) (heap : Heap) (db : Db)
    (hd : ∀ c ∈ (pool db s).free, c ∉ (pool db s).busy) :
    Settles s db (lockSection input s heap db).2.2 := by
  have htake : Settles s db (takeFree input.probe heap s (db.server s).pool.free db).2 :=
    takeFree_settles input.probe heap _ _ _ rfl hd
  obtain ⟨⟨found, d⟩, hr⟩ : ∃ r, r = takeFree input.probe heap s (db.server s).pool.free db := ⟨_, rfl⟩
  unfold lockSection
  rw [← hr] at htake ⊢
  cases found with
  | some c => exact htake
  | none =>
    dsimp only
    by_cases hfull : d.maxConnections ≤ (d.server s).pool.ncontexts
    · rw [if_pos hfull]
      exact htake
    · rw [if_neg hfull]
      cases input.connected with
      | false => exact htake.trans (failed_settles input.probe.now s d)
      | true => exact htake.trans (opened_settles input.probe.now s d input.created _)

theorem unlockSharedRedisContext_settles {c : ContextId} {heap : Heap} (hc : c ∈ (pool db (heap c).server).busy) :
    Settles (heap c).server db (unlockSharedRedisContext c heap db) := by
  change db.stats.connectionsTotal + _ = db.stats.connectionsTotal +
    (size ((db.setPool (heap c).server _).server (heap c).server).pool + rejected db.stats.dropped)
  rw [setPool_pool]
  have hlen := List.length_erase_add_one hc
  simp only [size, List.length_append, List.length_singleton]
  change _ + ((pool db (heap c).server).free.length + (pool db (heap c).server).busy.length + _) =
    _ + ((pool db (heap c).server).free.length + 1 + ((pool db (heap c).server).busy.erase c).length + _)
  omega

/-! ### The operations on the registry -/

/-- An operation that opens, moves and drops no connection; the servers that it registers have none. -/
structure Leaves (db db' : Db) : Prop where
  retains : Retains db db'
  wellPlaced : WellPlaced db'
  pool : ∀ s, pool db' s = pool db s ∨ ¬ db.Registered s ∧ pool db' s = .empty
  total : db'.stats.connectionsTotal = db.stats.connectionsTotal
  dropped : db'.stats.dropped = db.stats.dropped

namespace Leaves

theorem refl (h : WellPlaced db) : Leaves db db := ⟨.refl db, h, fun _ => Or.inl rfl, rfl, rfl⟩

theorem trans (h : Leaves db db') (h' : Leaves db' db'') : Leaves db db'' where
  retains := h.retains.trans h'.retains
  wellPlaced := h'.wellPlaced
  total := h'.total.trans h.total
  dropped := h'.dropped.trans h.dropped
  pool s := by
    obtain hs | ⟨hs, he⟩ := h'.pool s
    · rw [hs]
      exact h.pool s
    · exact Or.inr ⟨fun hr => hs (h.retains.registered s hr), he⟩

theorem of_eq (hr : Retains db db') (hw : WellPlaced db') (hp : ∀ s, SharedPool.pool db' s = SharedPool.pool db s)
    (hs : db'.stats = db.stats) : Leaves db db' :=
  ⟨hr, hw, fun s => Or.inl (hp s), by rw [hs], by rw [hs]⟩

end Leaves

theorem unsafeDiscoverRedisServerRole_tally (q : RoleQuery) (s : ServerId) (db : Db) :
    (unsafeDiscoverRedisServerRole q s db).2.stats.connectionsTotal = db.stats.connectionsTotal ∧
      (unsafeDiscoverRedisServerRole q s db).2.stats.dropped = db.stats.dropped := by
  have h := newRcontext_tally q.now true q.connected s db
  rwa [Bool.not_true, Bool.and_false, if_neg Bool.false_ne_true, Nat.add_zero] at h

theorem createdRole_tally (q : RoleQuery) (s : ServerId) (role : Role) (db : Db) :
    (createdRole q s role db).2.stats.connectionsTotal = db.stats.connectionsTotal ∧
      (createdRole q s role db).2.stats.dropped = db.stats.dropped := by
  unfold createdRole
  by_cases h : role = .tbd
  · rw [if_pos h]
    exact unsafeDiscoverRedisServerRole_tally q s db
  · rw [if_neg h]
    exact ⟨rfl, rfl⟩

theorem updatedRole_tally (q : RoleQuery) (s : ServerId) (role : Role) (db : Db) :
    (updatedRole q s role db).2.stats.connectionsTotal = db.stats.connectionsTotal ∧
      (updatedRole q s role db).2.stats.dropped = db.stats.dropped := by
  unfold updatedRole
  by_cases h : role = .tbd
  · rw [if_pos h]
    exact unsafeDiscoverRedisServerRole_tally q s db
  · rw [if_neg h]
    exact ⟨rfl, rfl⟩

theorem unsafeAddRedisServer_tally (input : AddInput) (rules : List WeightRule) (location : Bytes) (role : Role)
    (db : Db) :
    (unsafeAddRedisServer input rules location role db).2.stats.connectionsTotal = db.stats.connectionsTotal ∧
      (unsafeAddRedisServer input rules location role db).2.stats.dropped = db.stats.dropped := by
  unfold unsafeAddRedisServer
  cases findServer db location with
  | none =>
    cases newRedisServer db location role with
    | none => exact ⟨rfl, rfl⟩
    | some v =>
      exact createdRole_tally input.query db.nextServer v.role ({ db with nextServer := db.nextServer + 1 }.setServer
        db.nextServer v)
  | some p =>
    obtain ⟨b, s⟩ := p
    let d : Db := { db with servers := Function.update db.servers b ((db.servers b).erase s) }
    let e := (updatedRole input.query s role d).2
    let f := e.setServer s { e.server s with role := (updatedRole input.query s role d).1 }
    have hflush : (flushSickness input.now s f).stats = e.stats := flushSickness_stats input.now s f
    have hrole := updatedRole_tally input.query s role d
    change (flushSickness input.now s f).stats.connectionsTotal = _ ∧ (flushSickness input.now s f).stats.dropped = _
    rw [hflush]
    exact hrole

theorem unsafeAddRedisServer_leaves (h : WellPlaced db) (input : AddInput) (rules : List WeightRule)
    (location : Bytes) (role : Role) : Leaves db (unsafeAddRedisServer input rules location role db).2 where
  retains := unsafeAddRedisServer_retains h input rules location role
  wellPlaced := unsafeAddRedisServer_wellPlaced h input rules location role
  total := (unsafeAddRedisServer_tally input rules location role db).1
  dropped := (unsafeAddRedisServer_tally input rules location role db).2
  pool t := by
    rcases unsafeAddRedisServer_spec h input rules location role with ⟨s, db', he, ha, -, -⟩ | ⟨-, he⟩
    · rw [he]
      by_cases hts : t = s
      · subst hts
        by_cases hr : db.Registered t
        · exact Or.inl (ha.kept hr).2.2.2.2
        · exact Or.inr ⟨hr, (ha.created hr).2.2⟩
      · exact Or.inl (congrArg Server.pool (ha.others t hts))
    · rw [he]
      exact Or.inl rfl

theorem flagSickness_leaves (h : WellPlaced db) (now : ℤ) (s : ServerId) : Leaves db (flagSickness now s db) := by
  have honly := flagSickness_only now s db
  exact .of_eq (retains_of_same honly.same) (h.same honly.same) honly.pool (flagSickness_stats now s db)

theorem unsafeAddNode_leaves (h : WellPlaced db) (now : ℤ) (rules : List WeightRule) (node : Node) :
    Leaves db (unsafeAddNode now rules node db).2 := by
  have hadd := unsafeAddRedisServer_leaves h ⟨⟨now, false, none⟩, now⟩ rules node.location node.role
  unfold unsafeAddNode
  by_cases hlong : 256 ≤ node.location.length
  · rw [if_pos hlong]
    exact .refl h
  · rw [if_neg hlong]
    obtain ⟨⟨found, d⟩, hr⟩ : ∃ r, r = unsafeAddRedisServer ⟨⟨now, false, none⟩, now⟩ rules node.location
        node.role db := ⟨_, rfl⟩
    rw [← hr] at hadd ⊢
    cases found with
    | none => exact hadd
    | some s =>
      dsimp only at hadd ⊢
      cases node.healthy with
      | true => exact hadd
      | false => exact hadd.trans (flagSickness_leaves hadd.wellPlaced now s)

theorem registerNode_leaves (h : WellPlaced db) (ranges : List SlotRange) (first : Bool) (s : ServerId) :
    Leaves db (registerNode ranges first s db) := by
  have honly := registerNode_only ranges first s db
  refine .of_eq honly.retains (honly.wellPlaced h) ?_ honly.stats
  intro t
  obtain ⟨slots, hs⟩ := honly.server t
  unfold SharedPool.pool
  rw [hs]

theorem discoverNode_leaves {topology : Topology} (h : WellPlaced topology.db) (rules : List WeightRule)
    (host : Bytes) (ranges : List SlotRange) (reply : Reply) :
    Leaves topology.db (discoverNode rules host ranges topology reply).db := by
  unfold discoverNode
  cases parseNode topology.db.tls host reply with
  | none => exact .refl h
  | some node =>
    have hnode := unsafeAddNode_leaves h (topology.clock 0) rules node
    obtain ⟨⟨found, d⟩, hr⟩ : ∃ r, r = unsafeAddNode (topology.clock 0) rules node topology.db := ⟨_, rfl⟩
    dsimp only
    rw [← hr] at hnode ⊢
    cases found with
    | none => exact hnode
    | some s =>
      exact hnode.trans (registerNode_leaves hnode.wellPlaced ranges (!ranges.isEmpty && !topology.reset) s)

theorem foldl_leaves {σ α : Type} {f : σ → α → σ} (view : σ → Db)
    (hstep : ∀ a x, WellPlaced (view a) → Leaves (view a) (view (f a x))) (l : List α) {a : σ}
    (h : WellPlaced (view a)) : Leaves (view a) (view (l.foldl f a)) := by
  induction l generalizing a with
  | nil => exact .refl h
  | cons x l ih => exact (hstep a x h).trans (ih (hstep a x h).wellPlaced)

theorem discoverShard_leaves {topology : Topology} (h : WellPlaced topology.db) (rules : List WeightRule)
    (host : Bytes) (shard : Reply) : Leaves topology.db (discoverShard rules host topology shard).db := by
  unfold discoverShard
  cases parseShard shard with
  | none => exact .refl h
  | some parsed =>
    obtain ⟨slots, nodes⟩ := parsed
    exact foldl_leaves Topology.db (fun _ reply hw => discoverNode_leaves hw rules host (shardRanges slots) reply) nodes h

theorem countDiscovery_leaves (h : WellPlaced db) (done : Bool) : Leaves db (countDiscovery done db) where
  retains := countDiscovery_retains done db
  wellPlaced := countDiscovery_wellPlaced h done
  pool s := by
    unfold SharedPool.pool
    rw [countDiscovery_server]
    exact Or.inl rfl
  total := by cases done <;> rfl
  dropped := by cases done <;> rfl

theorem unsafeDiscoverSlotsAux_leaves (h : WellPlaced db) (clock : ℕ → ℤ) (rules : List WeightRule)
    (reply : Option Reply) (s : ServerId) : Leaves db (unsafeDiscoverSlotsAux clock rules reply s db).2 := by
  unfold unsafeDiscoverSlotsAux
  split
  · next shards =>
    let start : Topology := ⟨db, 0, false, clock⟩
    have hshards : Leaves start.db (shards.foldl (discoverShard rules (hostname (db.server s).address)) start).db :=
      foldl_leaves Topology.db (fun _ shard hw => discoverShard_leaves hw rules _ shard) shards h
    exact hshards.trans (countDiscovery_leaves hshards.wellPlaced _)
  · exact countDiscovery_leaves h false

theorem changeRole_apart (role : Role) (s : ServerId) (db : Db) :
    (∀ t, SharedPool.pool (changeRole role s db) t = SharedPool.pool db t) ∧
      (changeRole role s db).stats = db.stats := by
  unfold changeRole
  by_cases h : (db.server s).role = role
  · rw [if_neg (not_not.mpr h)]
    exact ⟨fun _ => rfl, rfl⟩
  · rw [if_pos h]
    refine ⟨fun t => ?_, rfl⟩
    change (Function.update db.server s { db.server s with role := role } t).pool = (db.server t).pool
    by_cases ht : t = s
    · subst ht
      rw [Function.update_self]
    · rw [Function.update_of_ne ht]

theorem changeSickness_stats (down : Bool) (now : ℤ) (s : ServerId) (db : Db) :
    (changeSickness down now s db).stats = db.stats := by
  unfold changeSickness
  dsimp only
  split_ifs <;> rfl

theorem unsafeUpdateDbsAux_apart (inventory : List Discovered) (now : ℤ) (s : ServerId) (db : Db) :
    (∀ t, SharedPool.pool (unsafeUpdateDbsAux inventory now s db) t = SharedPool.pool db t) ∧
      (unsafeUpdateDbsAux inventory now s db).stats = db.stats := by
  unfold unsafeUpdateDbsAux
  split
  · next d _ =>
    obtain ⟨hpool, hstats⟩ := changeRole_apart d.role s db
    have honly := changeSickness_only d.down now s (changeRole d.role s db)
    exact ⟨fun t => (honly.pool t).trans (hpool t), (changeSickness_stats _ _ _ _).trans hstats⟩
  · exact ⟨fun _ => rfl, rfl⟩

theorem foldl_apart {α : Type} {f : Db → α → Db}
    (hstep : ∀ d x, (∀ t, SharedPool.pool (f d x) t = SharedPool.pool d t) ∧ (f d x).stats = d.stats) (l : List α)
    (db : Db) : (∀ t, SharedPool.pool (l.foldl f db) t = SharedPool.pool db t) ∧ (l.foldl f db).stats = db.stats := by
  induction l generalizing db with
  | nil => exact ⟨fun _ => rfl, rfl⟩
  | cons x l ih =>
    obtain ⟨hpool, hstats⟩ := ih (f db x)
    obtain ⟨hpool', hstats'⟩ := hstep db x
    exact ⟨fun t => (hpool t).trans (hpool' t), hstats.trans hstats'⟩

theorem unsafeUpdateDbs_leaves (h : WellPlaced db) (inventory : List Discovered) (clock : Bucket → ServerId → ℤ) :
    Leaves db (unsafeUpdateDbs inventory clock db) := by
  obtain ⟨hr, hw⟩ := unsafeUpdateDbs_spec h inventory clock
  suffices ha : (∀ t, SharedPool.pool (unsafeUpdateDbs inventory clock db) t = SharedPool.pool db t) ∧
      (unsafeUpdateDbs inventory clock db).stats = db.stats from .of_eq hr hw ha.1 ha.2
  unfold unsafeUpdateDbs
  by_cases hc : db.clusterEnabled = true
  · rw [if_pos hc]
    exact ⟨fun _ => rfl, rfl⟩
  · rw [if_neg hc]
    apply foldl_apart
    intro d b
    apply foldl_apart
    intro d s
    by_cases hhost : (d.server s).address.isHost = true
    · rw [if_pos hhost]
      exact unsafeUpdateDbsAux_apart inventory (clock b s) s d
    · rw [if_neg hhost]
      exact ⟨fun _ => rfl, rfl⟩

theorem planExecution_leaves {input : PlanInput} {heap : Heap} {maxSize : ℕ} {server : Option ServerId}
    {master : Bool} {slot : ℕ} {task task' : Task} {plan : Option Plan} (hw : WellPlaced db)
    (hshared : db.sharedConnections = true)
    (h : planExecution input heap maxSize server master slot task db = .ok (plan, task', db')) : Leaves db db' := by
  have hscan : ∀ suitable, contextsOf suitable input heap maxSize task db =
      ⟨[], task.contexts, task.ncontexts, db, false⟩ := fun _ => if_pos hshared
  suffices hr : Rotated db db' from
    .of_eq hr.retains (hr.wellPlaced hw) (fun s => by unfold SharedPool.pool; rw [hr.server]) hr.stats
  rcases planExecution_cases h with ⟨-, -, -, rfl⟩ | ⟨-, p, -, ⟨s, -, hp⟩ | ⟨-, hp⟩⟩
  · exact .refl db'
  · unfold populateSimpleExecutionPlan at hp
    simp only [hscan] at hp
    split_ifs at hp <;> cases hp <;> exact .refl _
  · unfold populateExecutionPlan at hp
    simp only [hscan, Bool.false_eq_true, if_false, List.length_nil, Nat.mul_zero, Nat.not_lt_zero] at hp
    split_ifs at hp <;> cases hp
    · exact (serversOf_spec input.probe.now master slot input.serversWs _ db).rotated
    · exact .refl _

end VmodRedis.ConnectionTally
