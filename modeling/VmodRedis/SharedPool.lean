import VmodRedis.Registry

namespace VmodRedis.SharedPool

open Database Connections

/-- What a section of `lock_shared_redis_context` meets: the clock read on entry and the answers to
the validity checks, whether a new connection is established, and the identity of its context. -/
structure LockInput where
  probe : Probe
  connected : Bool
  created : ContextId

inductive Locked where
  | context (c : ContextId)
  | waiting
  | failed

def takeFree (probe : Probe) (heap : Heap) (s : ServerId) :
    List ContextId → Db → Option ContextId × Db
  | [], db => (none, db)
  | c :: queue, db =>
    let pool := (db.server s).pool
    let db := db.setPool s { pool with free := queue, busy := pool.busy ++ [c] }
    let (valid, db) := isValidRedisContext probe heap db c
    if valid then (some c, db)
    else
      let pool := (db.server s).pool
      takeFree probe heap s queue
        (db.setPool s { pool with busy := pool.busy.erase c, ncontexts := pool.ncontexts - 1 })

/-- `lock_shared_redis_context` from its `retry` label until it returns or waits. -/
def lockSection (input : LockInput) (s : ServerId) (heap : Heap) (db : Db) : Locked × Heap × Db :=
  match takeFree input.probe heap s (db.server s).pool.free db with
  | (some c, db) => (.context c, heap, db)
  | (none, db) =>
    if db.maxConnections ≤ (db.server s).pool.ncontexts then (.waiting, heap, db)
    else
      let db := newRcontext input.probe.now false input.connected s db
      if input.connected then
        let c := input.created
        let heap := Function.update heap c (newRedisContext db s (input.probe.version c) input.probe.now)
        let pool := (db.server s).pool
        (.context c, heap, db.setPool s { pool with busy := pool.busy ++ [c], ncontexts := pool.ncontexts + 1 })
      else (.failed, heap, db)

def countBlocked (db : Db) : Db :=
  db.setStats { db.stats with workersBlocked := db.stats.workersBlocked + 1 }

def unlockSharedRedisContext (c : ContextId) (heap : Heap) (db : Db) : Db :=
  let s := (heap c).server
  let pool := (db.server s).pool
  db.setPool s { pool with busy := pool.busy.erase c, free := pool.free ++ [c] }

structure Pool.Ok (limit : ℕ) (p : Pool) : Prop where
  ncontexts : p.ncontexts = p.free.length + p.busy.length
  limit : p.ncontexts ≤ limit
  nodup : (p.free ++ p.busy).Nodup

theorem setPool_pool (db : Db) (s : ServerId) (p : Pool) : ((db.setPool s p).server s).pool = p := by
  simp [Db.setPool]

theorem setPool_of_ne (db : Db) {s t : ServerId} (p : Pool) (h : t ≠ s) :
    (db.setPool s p).server t = db.server t := by
  simp [Db.setPool, h]

def checkFree (probe : Probe) (heap : Heap) (s : ServerId) (c : ContextId) (queue : List ContextId) (db : Db) :
    Bool × Db :=
  isValidRedisContext probe heap
    (db.setPool s { (db.server s).pool with free := queue, busy := (db.server s).pool.busy ++ [c] }) c

def dropBusy (s : ServerId) (c : ContextId) (db : Db) : Db :=
  db.setPool s { (db.server s).pool with
    busy := (db.server s).pool.busy.erase c, ncontexts := (db.server s).pool.ncontexts - 1 }

section

variable {probe : Probe} {heap : Heap} {s t : ServerId} {c : ContextId} {queue busy : List ContextId} {n : ℕ} {db : Db}

theorem takeFree_cons (probe : Probe) (heap : Heap) (s : ServerId) (c : ContextId) (queue : List ContextId) (db : Db) :
    takeFree probe heap s (c :: queue) db =
      if (checkFree probe heap s c queue db).1 then (some c, (checkFree probe heap s c queue db).2)
      else takeFree probe heap s queue (dropBusy s c (checkFree probe heap s c queue db).2) := rfl

theorem checkFree_same (probe : Probe) (heap : Heap) (s : ServerId) (c : ContextId) (queue : List ContextId) (db : Db) :
    SameRegistry db (checkFree probe heap s c queue db).2 :=
  (SameRegistry.setPool db s _).trans (isValidRedisContext_same probe heap _ c)

theorem checkFree_of_ne (ht : t ≠ s) : (checkFree probe heap s c queue db).2.server t = db.server t := by
  unfold checkFree
  rw [isValidRedisContext_server]
  exact setPool_of_ne db _ ht

theorem checkFree_pool (probe : Probe) (heap : Heap) (s : ServerId) (c : ContextId) (queue : List ContextId) (db : Db) :
    ((checkFree probe heap s c queue db).2.server s).pool =
      { (db.server s).pool with free := queue, busy := (db.server s).pool.busy ++ [c] } := by
  unfold checkFree
  rw [isValidRedisContext_server]
  exact setPool_pool db s _

theorem dropBusy_same (s : ServerId) (c : ContextId) (db : Db) : SameRegistry db (dropBusy s c db) :=
  .setPool db s _

theorem dropBusy_of_ne (ht : t ≠ s) : (dropBusy s c db).server t = db.server t := setPool_of_ne db _ ht

theorem dropBusy_pool (hp : (db.server s).pool = ⟨n, queue, busy ++ [c]⟩) (hc : c ∉ busy) :
    ((dropBusy s c db).server s).pool = ⟨n - 1, queue, busy⟩ := by
  unfold dropBusy
  rw [setPool_pool, hp]
  simp [List.erase_append_right, hc]

theorem takeFree_same (probe : Probe) (heap : Heap) (s : ServerId) (queue : List ContextId) (db : Db) :
    SameRegistry db (takeFree probe heap s queue db).2 := by
  induction queue generalizing db with
  | nil => exact .refl db
  | cons c queue ih =>
    have hcheck := checkFree_same probe heap s c queue db
    rw [takeFree_cons]
    split_ifs
    · exact hcheck
    · exact (hcheck.trans (dropBusy_same s c _)).trans (ih _)

theorem takeFree_spec (probe : Probe) (heap : Heap) (s : ServerId) (queue : List ContextId) (db : Db)
    (n : ℕ) (busy : List ContextId) (hp : (db.server s).pool = ⟨n, queue, busy⟩)
    (hd : ∀ c ∈ queue, c ∉ busy) :
    (∀ t, t ≠ s → (takeFree probe heap s queue db).2.server t = db.server t) ∧
      ((takeFree probe heap s queue db).1 = none ∧
          ((takeFree probe heap s queue db).2.server s).pool = ⟨n - queue.length, [], busy⟩ ∨
        ∃ dropped c rest, queue = dropped ++ c :: rest ∧
          (takeFree probe heap s queue db).1 = some c ∧
          ((takeFree probe heap s queue db).2.server s).pool =
            ⟨n - dropped.length, rest, busy ++ [c]⟩) := by
  induction queue generalizing db n with
  | nil => exact ⟨fun _ _ => rfl, Or.inl ⟨rfl, hp⟩⟩
  | cons c queue ih =>
    have hpool := checkFree_pool probe heap s c queue db
    rw [hp] at hpool
    rw [takeFree_cons]
    split_ifs
    · exact ⟨fun t ht => checkFree_of_ne ht, Or.inr ⟨[], c, queue, rfl, rfl, hpool⟩⟩
    · have hnext := dropBusy_pool hpool (hd c List.mem_cons_self)
      obtain ⟨hothers, hcases⟩ := ih _ (n - 1) hnext fun x hx => hd x (List.mem_cons_of_mem c hx)
      refine ⟨fun t ht => ?_, ?_⟩
      · rw [hothers t ht, dropBusy_of_ne ht, checkFree_of_ne ht]
      · rcases hcases with ⟨hn, hpn⟩ | ⟨dropped, d, rest, hq, hs, hps⟩
        · refine Or.inl ⟨hn, hpn.trans ?_⟩
          rw [List.length_cons, Nat.sub_sub, Nat.add_comm]
        · refine Or.inr ⟨c :: dropped, d, rest, by rw [hq]; rfl, hs, hps.trans ?_⟩
          rw [List.length_cons, Nat.sub_sub, Nat.add_comm]

end

section

variable {input : LockInput} {s : ServerId} {heap : Heap} {db db' : Db} {c : ContextId}

theorem lockSection_reused (h : takeFree input.probe heap s (db.server s).pool.free db = (some c, db')) :
    lockSection input s heap db = (.context c, heap, db') := by
  unfold lockSection
  rw [h]

theorem lockSection_waiting (h : takeFree input.probe heap s (db.server s).pool.free db = (none, db'))
    (hfull : db'.maxConnections ≤ (db'.server s).pool.ncontexts) :
    lockSection input s heap db = (.waiting, heap, db') := by
  unfold lockSection
  rw [h]
  dsimp only
  rw [if_pos hfull]

theorem lockSection_created (h : takeFree input.probe heap s (db.server s).pool.free db = (none, db'))
    (hroom : ¬ db'.maxConnections ≤ (db'.server s).pool.ncontexts) (hc : input.connected = true) :
    lockSection input s heap db =
      (.context input.created,
        Function.update heap input.created (newRedisContext (newRcontext input.probe.now false true s db') s
          (input.probe.version input.created) input.probe.now),
        (newRcontext input.probe.now false true s db').setPool s
          { ((newRcontext input.probe.now false true s db').server s).pool with
            busy := ((newRcontext input.probe.now false true s db').server s).pool.busy ++ [input.created]
            ncontexts := ((newRcontext input.probe.now false true s db').server s).pool.ncontexts + 1 }) := by
  unfold lockSection
  rw [h]
  dsimp only
  rw [if_neg hroom, hc, if_pos rfl]

theorem lockSection_failed (h : takeFree input.probe heap s (db.server s).pool.free db = (none, db'))
    (hroom : ¬ db'.maxConnections ≤ (db'.server s).pool.ncontexts) (hc : input.connected = false) :
    lockSection input s heap db = (.failed, heap, newRcontext input.probe.now false false s db') := by
  unfold lockSection
  rw [h]
  dsimp only
  rw [if_neg hroom, hc, if_neg Bool.false_ne_true]

theorem lockSection_same (input : LockInput) (s : ServerId) (heap : Heap) (db : Db) :
    SameRegistry db (lockSection input s heap db).2.2 := by
  have htake := takeFree_same input.probe heap s (db.server s).pool.free db
  unfold lockSection
  obtain ⟨⟨found, db'⟩, hr⟩ : ∃ r, r = takeFree input.probe heap s (db.server s).pool.free db := ⟨_, rfl⟩
  rw [← hr] at htake ⊢
  cases found with
  | some c => exact htake
  | none =>
    have hnew := htake.trans (newRcontext_only input.probe.now false input.connected s db').same
    dsimp only
    split_ifs
    · exact htake
    · exact hnew.trans (.setPool _ s _)
    · exact hnew

end

inductive Outcome (input : LockInput) (s : ServerId) (db : Db) (heap : Heap) (p : Pool) :
    Locked → Heap → Pool → Prop
  | reuse (c : ContextId) (dropped rest : List ContextId) (hfree : p.free = dropped ++ c :: rest) :
      Outcome input s db heap p (.context c) heap ⟨rest.length + p.busy.length + 1, rest, p.busy ++ [c]⟩
  | create (hroom : p.busy.length < db.maxConnections) :
      Outcome input s db heap p (.context input.created)
        (Function.update heap input.created (newRedisContext db s (input.probe.version input.created) input.probe.now))
        ⟨p.busy.length + 1, [], p.busy ++ [input.created]⟩
  | wait (hfull : db.maxConnections ≤ p.busy.length) :
      Outcome input s db heap p .waiting heap ⟨p.busy.length, [], p.busy⟩
  | fail (hroom : p.busy.length < db.maxConnections) :
      Outcome input s db heap p .failed heap ⟨p.busy.length, [], p.busy⟩

theorem Pool.Ok.free_not_busy {limit : ℕ} {p : Pool} (h : Pool.Ok limit p) : ∀ c ∈ p.free, c ∉ p.busy :=
  fun _ hf hb => List.disjoint_of_nodup_append h.nodup hf hb

/-- A section keeps the registry and the pools of the other servers, and does one of four things to
the pool of its own. -/
theorem lockSection_spec (input : LockInput) (s : ServerId) (heap : Heap) (db : Db)
    (h : Pool.Ok db.maxConnections (db.server s).pool) :
    SameRegistry db (lockSection input s heap db).2.2 ∧
      (∀ t, t ≠ s → (lockSection input s heap db).2.2.server t = db.server t) ∧
      Outcome input s db heap (db.server s).pool (lockSection input s heap db).1
        (lockSection input s heap db).2.1 ((lockSection input s heap db).2.2.server s).pool := by
  refine ⟨lockSection_same input s heap db, ?_⟩
  obtain ⟨hothers, hcases⟩ := takeFree_spec input.probe heap s (db.server s).pool.free db
    (db.server s).pool.ncontexts (db.server s).pool.busy rfl h.free_not_busy
  have hsame := takeFree_same input.probe heap s (db.server s).pool.free db
  obtain ⟨⟨found, db'⟩, hr⟩ : ∃ r, r = takeFree input.probe heap s (db.server s).pool.free db := ⟨_, rfl⟩
  rw [← hr] at hsame hothers hcases
  have hmax : db'.maxConnections = db.maxConnections := congrArg Options.maxConnections hsame.options
  have hn := h.ncontexts
  rcases hcases with ⟨rfl, hpool⟩ | ⟨dropped, c, rest, hfree, rfl, hpool⟩
  · rw [show (db.server s).pool.ncontexts - (db.server s).pool.free.length = (db.server s).pool.busy.length by omega]
      at hpool
    have hcount : (db'.server s).pool.ncontexts = (db.server s).pool.busy.length := by rw [hpool]
    by_cases hfull : db'.maxConnections ≤ (db'.server s).pool.ncontexts
    · rw [lockSection_waiting hr.symm hfull]
      refine ⟨hothers, ?_⟩
      rw [hpool]
      exact .wait (hmax ▸ hcount ▸ hfull)
    · have hroom : (db.server s).pool.busy.length < db.maxConnections := hmax ▸ hcount ▸ not_le.mp hfull
      cases hc : input.connected with
      | true =>
        have hnew := newRcontext_only input.probe.now false true s db'
        have hid : (newRcontext input.probe.now false true s db').id = db.id :=
          congrArg Options.id (hnew.same.options.trans hsame.options)
        rw [lockSection_created hr.symm hfull hc, newRedisContext, hid]
        refine ⟨fun t ht => ?_, ?_⟩
        · rw [setPool_of_ne _ _ ht, hnew.of_ne ht, hothers t ht]
        · rw [setPool_pool, hnew.pool, hpool]
          exact .create hroom
      | false =>
        have hnew := newRcontext_only input.probe.now false false s db'
        rw [lockSection_failed hr.symm hfull hc]
        refine ⟨fun t ht => (hnew.of_ne ht).trans (hothers t ht), ?_⟩
        rw [hnew.pool, hpool]
        exact .fail hroom
  · have hlen : (db.server s).pool.ncontexts - dropped.length = rest.length + (db.server s).pool.busy.length + 1 := by
      rw [hfree] at hn
      simp only [List.length_append, List.length_cons] at hn
      omega
    rw [lockSection_reused hr.symm]
    refine ⟨hothers, ?_⟩
    rw [hpool, hlen]
    exact .reuse c dropped rest hfree

theorem Outcome.ok {input : LockInput} {s : ServerId} {db : Db} {heap heap' : Heap} {p p' : Pool}
    {locked : Locked} (h : Outcome input s db heap p locked heap' p') (hok : Pool.Ok db.maxConnections p)
    (hfresh : input.created ∉ p.free ++ p.busy) : Pool.Ok db.maxConnections p' := by
  obtain ⟨hn, hl, hd⟩ := hok
  have hbusy : p.busy.Nodup := hd.of_append_right
  cases h with
  | reuse c dropped rest hfree =>
    rw [hfree] at hn hd
    simp only [List.length_append, List.length_cons] at hn
    refine ⟨by simp; omega, by simp only; omega, ?_⟩
    have hsub : (c :: rest ++ p.busy).Nodup := by
      rw [List.append_assoc] at hd
      exact hd.of_append_right
    refine hsub.perm ?_
    simpa [List.append_assoc] using
      (List.perm_append_singleton c (rest ++ p.busy)).symm
  | create hroom =>
    refine ⟨by simp, hroom, ?_⟩
    have hb : input.created ∉ p.busy := fun hc => hfresh (List.mem_append_right _ hc)
    simpa [List.nodup_append', hbusy] using hb
  | wait hfull => exact ⟨by simp, by simp only; omega, by simpa using hbusy⟩
  | fail hroom => exact ⟨by simp, hroom.le, by simpa using hbusy⟩

end VmodRedis.SharedPool
