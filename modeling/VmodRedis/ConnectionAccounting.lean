import VmodRedis.ConnectionTally

namespace VmodRedis.ConnectionAccounting

open CStrings Replies Database Connections Registry Discovery Planning SentinelUpdate SharedPool ConnectionTally
open TransitionSystem

variable {ι : Type} [DecidableEq ι]

/-- The sections of the workers of a database with shared connections, and the other operations on
it, in any order. The servers of a plan are registered. The last step stands for the sections that
only count commands, redirections or failures. -/
inductive Step : State ι → State ι → Prop
  | lock (st : State ι) (w : ι) (s : ServerId) (input : LockInput) (ws' : ι → Worker) (hr : st.db.Registered s)
      (hw : st.workers w = .idle) (hf : Fresh st.db input.created)
      (he : Entered s input.probe.now w st.workers (lockSection input s st.heap st.db).1 ws') :
      Step st ⟨(lockSection input s st.heap st.db).2.2, (lockSection input s st.heap st.db).2.1, ws'⟩
  | resume (st : State ι) (w : ι) (s : ServerId) (input : LockInput) (ws' : ι → Worker)
      (hw : st.workers w = .signalled s input.probe.now ∨ st.workers w = .waiting s input.probe.now)
      (hf : Fresh st.db input.created)
      (he : Entered s input.probe.now w st.workers (lockSection input s st.heap (countBlocked st.db)).1 ws') :
      Step st ⟨(lockSection input s st.heap (countBlocked st.db)).2.2,
        (lockSection input s st.heap (countBlocked st.db)).2.1, ws'⟩
  | execute (st : State ι) (w : ι) (c : ContextId) (err : Bool) (hw : st.workers w = .holding c) :
      Step st { st with heap := Function.update st.heap c { st.heap c with err := err } }
  | unlock (st : State ι) (w : ι) (c : ContextId) (ws' : ι → Worker) (hw : st.workers w = .holding c)
      (hs : Signal (st.heap c).server (Function.update st.workers w .idle) ws') :
      Step st ⟨unlockSharedRedisContext c st.heap st.db, st.heap, ws'⟩
  | plan (st : State ι) (db : Db) (input : PlanInput) (maxSize : ℕ) (server : Option ServerId) (master : Bool)
      (slot : ℕ) (task task' : Task) (plan : Option Plan)
      (h : planExecution input st.heap maxSize server master slot task st.db = .ok (plan, task', db)) :
      Step st { st with db := db }
  | add (st : State ι) (input : AddInput) (rules : List WeightRule) (location : Bytes) (role : Role) :
      Step st { st with db := (unsafeAddRedisServer input rules location role st.db).2 }
  | discover (st : State ι) (clock : ℕ → ℤ) (rules : List WeightRule) (reply : Option Reply) (s : ServerId) :
      Step st { st with db := (unsafeDiscoverSlotsAux clock rules reply s st.db).2 }
  | sentinel (st : State ι) (inventory : List Discovered) (clock : Bucket → ServerId → ℤ) :
      Step st { st with db := unsafeUpdateDbs inventory clock st.db }
  | count (st : State ι) (stats : Stats) (hs : stats.serversTotal = st.db.stats.serversTotal)
      (ht : stats.connectionsTotal = st.db.stats.connectionsTotal) (hd : stats.dropped = st.db.stats.dropped) :
      Step st { st with db := st.db.setStats stats }

def runs (ι : Type) [DecidableEq ι] (options : Options) : System (State ι) where
  init st := st.db = newVmodRedisDb options ∧ ∀ w, st.workers w = .idle
  step := Step

def Balanced (db : Db) : Prop :=
  db.stats.connectionsTotal = ∑ s ∈ db.allServers.toFinset, size (pool db s) + rejected db.stats.dropped

theorem Balanced.settle {s : ServerId} {db db' : Db} (h : Balanced db) (hr : db.Registered s)
    (hall : db'.allServers = db.allServers) (hothers : ∀ t, t ≠ s → pool db' t = pool db t)
    (hs : Settles s db db') : Balanced db' := by
  have hmem : s ∈ db.allServers.toFinset := by
    rw [List.mem_toFinset, Db.mem_allServers]
    exact hr
  have hrest : ∑ t ∈ db.allServers.toFinset.erase s, size (pool db' t) =
      ∑ t ∈ db.allServers.toFinset.erase s, size (pool db t) := by
    apply Finset.sum_congr rfl
    intro t ht
    rw [hothers t (Finset.ne_of_mem_erase ht)]
  have hold := Finset.add_sum_erase db.allServers.toFinset (fun t => size (pool db t)) hmem
  have hnew := Finset.add_sum_erase db.allServers.toFinset (fun t => size (pool db' t)) hmem
  unfold Balanced Settles at *
  rw [hall]
  omega

theorem Balanced.leave {db db' : Db} (h : Balanced db) (hempty : ∀ s, ¬ db.Registered s → pool db s = .empty)
    (hl : Leaves db db') : Balanced db' := by
  have hpool : ∀ s, pool db' s = pool db s := by
    intro s
    obtain hs | ⟨hr, he⟩ := hl.pool s
    · exact hs
    · rw [he, hempty s hr]
  have hsum : ∑ s ∈ db'.allServers.toFinset, size (pool db' s) = ∑ s ∈ db.allServers.toFinset, size (pool db s) := by
    symm
    simp only [hpool]
    apply Finset.sum_subset
    · intro s hs
      rw [List.mem_toFinset, Db.mem_allServers] at hs ⊢
      exact hl.retains.registered s hs
    · intro s _ hs
      rw [List.mem_toFinset, Db.mem_allServers] at hs
      rw [hempty s hs]
      rfl
  unfold Balanced at *
  rw [hsum, hl.total, hl.dropped, h]

def Awaited (ws : ι → Worker) (s : ServerId) : Prop :=
  ∃ w now, ws w = .waiting s now ∨ ws w = .signalled s now

theorem awaited_signal {s t : ServerId} {ws ws' : ι → Worker} (h : Signal s ws ws') (ht : Awaited ws' t) :
    Awaited ws t := by
  cases h with
  | none _ => exact ht
  | wake v now hv =>
    obtain ⟨w, n, hw⟩ := ht
    by_cases hwv : w = v
    · subst hwv
      rw [Function.update_self] at hw
      obtain hw | hw := hw
      · exact absurd hw nofun
      · obtain ⟨rfl, rfl⟩ := Worker.signalled.inj hw
        exact ⟨w, now, Or.inl hv⟩
    · rw [Function.update_of_ne hwv] at hw
      exact ⟨w, n, hw⟩

theorem awaited_update {ws : ι → Worker} {w : ι} {a : Worker} {t : ServerId}
    (h : Awaited (Function.update ws w a) t) : Awaited ws t ∨ ∃ now, a = .waiting t now ∨ a = .signalled t now := by
  obtain ⟨v, now, hv⟩ := h
  by_cases hvw : v = w
  · subst hvw
    rw [Function.update_self] at hv
    exact Or.inr ⟨now, hv⟩
  · rw [Function.update_of_ne hvw] at hv
    exact Or.inl ⟨v, now, hv⟩

theorem awaited_idle {ws : ι → Worker} {w : ι} {t : ServerId} (h : Awaited (Function.update ws w .idle) t) :
    Awaited ws t := by
  obtain h | ⟨now, h | h⟩ := awaited_update h
  · exact h
  · exact absurd h nofun
  · exact absurd h nofun

theorem awaited_entered {s t : ServerId} {now : ℤ} {w : ι} {ws ws' : ι → Worker} {locked : Locked}
    (h : Entered s now w ws locked ws') (ht : Awaited ws' t) : Awaited ws t ∨ t = s := by
  cases h with
  | context c =>
    obtain ht | ⟨n, ht | ht⟩ := awaited_update ht
    · exact Or.inl ht
    · exact absurd ht nofun
    · exact absurd ht nofun
  | waiting =>
    obtain ht | ⟨n, ht | ht⟩ := awaited_update ht
    · exact Or.inl ht
    · obtain ⟨rfl, -⟩ := Worker.waiting.inj ht
      exact Or.inr rfl
    · exact absurd ht nofun
  | failed _ hs => exact Or.inl (awaited_idle (awaited_signal hs ht))

structure Inv (st : State ι) : Prop where
  pools : SharedPool.Inv st
  wellPlaced : WellPlaced st.db
  shared : st.db.sharedConnections = true
  empty : ∀ s, ¬ st.db.Registered s → pool st.db s = .empty
  awaited : ∀ s, Awaited st.workers s → st.db.Registered s
  balanced : Balanced st.db

theorem Inv.enter {st : State ι} (h : Inv st) {w : ι} {s : ServerId} {input : LockInput} {now : ℤ}
    {ws' : ι → Worker} (hr : st.db.Registered s) (hw : ∀ c, st.workers w ≠ .holding c)
    (hf : Fresh st.db input.created)
    (he : Entered s now w st.workers (lockSection input s st.heap st.db).1 ws') :
    Inv ⟨(lockSection input s st.heap st.db).2.2, (lockSection input s st.heap st.db).2.1, ws'⟩ := by
  have hpools := h.pools.enter hw hf he
  obtain ⟨hsame, hothers, -⟩ := lockSection_spec input s st.heap st.db (h.pools.ok s)
  have hsettles := lockSection_settles input s st.heap st.db (h.pools.ok s).free_not_busy
  constructor
  case pools => exact hpools
  case wellPlaced => exact h.wellPlaced.same hsame
  case shared => exact (congrArg Options.sharedConnections hsame.options).trans h.shared
  case empty =>
    intro t ht
    have ht' : ¬ st.db.Registered t := fun hreg => ht ((hsame.registered t).mpr hreg)
    have hne : t ≠ s := by
      rintro rfl
      exact ht' hr
    exact (congrArg Server.pool (hothers t hne)).trans (h.empty t ht')
  case awaited =>
    intro t ht
    apply (hsame.registered t).mpr
    obtain ht | rfl := awaited_entered he ht
    · exact h.awaited t ht
    · exact hr
  case balanced =>
    exact h.balanced.settle hr hsame.allServers (fun t ht => congrArg Server.pool (hothers t ht)) hsettles

theorem Inv.unlock {st : State ι} (h : Inv st) {w : ι} {c : ContextId} {ws' : ι → Worker}
    (hw : st.workers w = .holding c)
    (hs : Signal (st.heap c).server (Function.update st.workers w .idle) ws') :
    Inv ⟨unlockSharedRedisContext c st.heap st.db, st.heap, ws'⟩ := by
  have hc : c ∈ (pool st.db (st.heap c).server).busy := (h.pools.busy _ c).mpr ⟨rfl, w, hw⟩
  have hr : st.db.Registered (st.heap c).server := by
    by_contra hn
    rw [h.empty _ hn] at hc
    exact List.not_mem_nil hc
  have hothers : ∀ t, t ≠ (st.heap c).server →
      pool (unlockSharedRedisContext c st.heap st.db) t = pool st.db t := by
    intro t ht
    rw [pool_unlock, if_neg ht]
  constructor
  case pools => exact h.pools.unlock hw hs
  case wellPlaced => exact h.wellPlaced.same (.setPool st.db _ _)
  case shared => exact h.shared
  case empty =>
    intro t ht
    have hne : t ≠ (st.heap c).server := by
      rintro rfl
      exact ht hr
    exact (hothers t hne).trans (h.empty t ht)
  case awaited =>
    intro t ht
    exact h.awaited t (awaited_idle (awaited_signal hs ht))
  case balanced => exact h.balanced.settle hr rfl hothers (unlockSharedRedisContext_settles hc)

theorem Inv.leaves {st : State ι} (h : Inv st) {db : Db} (hl : Leaves st.db db) : Inv { st with db := db } := by
  have hpool : ∀ s, pool db s = pool st.db s := by
    intro s
    obtain hs | ⟨hr, he⟩ := hl.pool s
    · exact hs
    · rw [he, h.empty s hr]
  constructor
  case pools => exact h.pools.step (.other st db hl.retains.options hpool)
  case wellPlaced => exact hl.wellPlaced
  case shared => exact (congrArg Options.sharedConnections hl.retains.options).trans h.shared
  case empty =>
    intro s hs
    rw [hpool]
    exact h.empty s fun hr => hs (hl.retains.registered s hr)
  case awaited =>
    intro s hs
    exact hl.retains.registered s (h.awaited s hs)
  case balanced => exact h.balanced.leave h.empty hl

theorem Inv.step {st st' : State ι} (h : Inv st) (hs : Step st st') : Inv st' := by
  cases hs with
  | lock w s input ws' hr hw hf he => exact h.enter hr (by simp [hw]) hf he
  | resume w s input ws' hw hf he =>
    have hcount : Leaves st.db (countBlocked st.db) :=
      ⟨retains_of_same (.setStats st.db _ rfl rfl rfl), h.wellPlaced.same (.setStats st.db _ rfl rfl rfl),
        fun _ => Or.inl rfl, rfl, rfl⟩
    have hr : st.db.Registered s := h.awaited s ⟨w, input.probe.now, hw.symm⟩
    exact (h.leaves hcount).enter (w := w) hr (by rcases hw with hw | hw <;> simp [hw]) hf he
  | execute w c err hw =>
    exact ⟨h.pools.step (.execute st w c err hw), h.wellPlaced, h.shared, h.empty, h.awaited, h.balanced⟩
  | unlock w c ws' hw hs => exact h.unlock hw hs
  | plan db input maxSize server master slot task task' plan hp =>
    exact h.leaves (planExecution_leaves h.wellPlaced h.shared hp)
  | add input rules location role => exact h.leaves (unsafeAddRedisServer_leaves h.wellPlaced input rules location role)
  | discover clock rules reply s => exact h.leaves (unsafeDiscoverSlotsAux_leaves h.wellPlaced clock rules reply s)
  | sentinel inventory clock => exact h.leaves (unsafeUpdateDbs_leaves h.wellPlaced inventory clock)
  | count stats hs ht hd =>
    have hw : WellPlaced (st.db.setStats stats) := h.wellPlaced.congr rfl rfl rfl hs (fun _ => rfl) (fun _ => rfl)
      fun _ => rfl
    have hr : Retains st.db (st.db.setStats stats) := ⟨rfl, fun _ h => h, fun _ _ => rfl, fun _ _ => rfl, fun _ _ => rfl⟩
    exact h.leaves ⟨hr, hw, fun _ => Or.inl rfl, ht, hd⟩

theorem Inv.init {options : Options} (hshared : options.sharedConnections = true) {st : State ι}
    (h : (runs ι options).init st) : Inv st := by
  obtain ⟨hdb, hw⟩ := h
  have hempty : ∀ s, pool st.db s = .empty := by
    intro s
    rw [hdb]
    rfl
  constructor
  case pools => exact SharedPool.Inv.init hempty hw
  case wellPlaced =>
    rw [hdb]
    exact newVmodRedisDb_wellPlaced options
  case shared =>
    rw [hdb]
    exact hshared
  case empty => exact fun s _ => hempty s
  case awaited =>
    rintro s ⟨w, now, hs | hs⟩
    · exact absurd ((hw w).symm.trans hs) nofun
    · exact absurd ((hw w).symm.trans hs) nofun
  case balanced =>
    rw [hdb]
    rfl

/-- Every connection of the workers that was ever opened is in the pool of its server or was
dropped for one counted reason. -/
theorem connections_accounted {options : Options} (hshared : options.sharedConnections = true) {st : State ι}
    (h : (runs ι options).Reachable st) :
    st.db.stats.connectionsTotal =
      ∑ s ∈ st.db.allServers.toFinset, ((pool st.db s).free.length + (pool st.db s).busy.length) +
        (st.db.stats.dropped.error + st.db.stats.dropped.hungUp + st.db.stats.dropped.ttl +
          st.db.stats.dropped.version + st.db.stats.dropped.sick) := by
  have hinv : Inv st := by
    refine System.invariant (P := Inv) ?_ ?_ h
    · exact fun st hst => Inv.init hshared hst
    · exact fun st st' _ hi hs => hi.step hs
  exact hinv.balanced

def sharing : Options := ⟨0, 0, 0, true, 1, .off, 0, false, false, 0⟩

def renewing : LockInput := ⟨⟨0, fun _ => 1, fun _ => false⟩, true, 1⟩

def unused : State Bool := ⟨newVmodRedisDb sharing, fun _ => ⟨0, 0, false, 0, 0⟩, fun _ => .idle⟩

def served : State Bool :=
  { unused with
    db := (unsafeAddRedisServer ⟨⟨0, false, none⟩, 0⟩ [] (bytes "redis:6379") .master unused.db).2 }

def opened : State Bool :=
  ⟨(lockSection connecting 0 served.heap served.db).2.2, (lockSection connecting 0 served.heap served.db).2.1,
    Function.update served.workers true (.holding 0)⟩

theorem served_pool (s : ServerId) : pool served.db s = .empty := by
  obtain hs | ⟨-, he⟩ := (unsafeAddRedisServer_leaves (newVmodRedisDb_wellPlaced sharing) ⟨⟨0, false, none⟩, 0⟩ []
    (bytes "redis:6379") .master).pool s
  · exact hs
  · exact he

theorem served_fresh (c : ContextId) : Fresh served.db c := by
  intro s
  rw [served_pool]
  exact List.not_mem_nil

theorem opened_reachable : (runs Bool sharing).Reachable opened := by
  have hunused : (runs Bool sharing).Reachable unused := System.reachable_init ⟨rfl, fun _ => rfl⟩
  have hserved : (runs Bool sharing).Reachable served := hunused.step (.add unused _ _ _ _)
  exact hserved.step (.lock served true 0 connecting _ (by decide +kernel) rfl (served_fresh 0) (.context 0))

def released : State Bool :=
  ⟨unlockSharedRedisContext 0 opened.heap opened.db, opened.heap, Function.update opened.workers true .idle⟩

theorem released_fresh : Fresh released.db 1 := by
  intro s
  by_cases hs : s = 0
  · subst hs
    decide +kernel
  · have hok : Pool.Ok served.db.maxConnections (pool served.db 0) := by
      rw [served_pool]
      exact ⟨rfl, Nat.zero_le _, List.nodup_nil⟩
    have hopened : opened.db.server s = served.db.server s := (lockSection_spec connecting 0 served.heap served.db hok).2.1 s hs
    have hreleased : released.db.server s = opened.db.server s := setPool_of_ne opened.db _ hs
    unfold SharedPool.pool
    rw [hreleased, hopened]
    exact served_fresh 1 s

def renewed : State Bool :=
  ⟨(lockSection renewing 0 released.heap released.db).2.2, (lockSection renewing 0 released.heap released.db).2.1,
    Function.update released.workers true (.holding 1)⟩

theorem renewed_reachable : (runs Bool sharing).Reachable renewed := by
  have hreleased : (runs Bool sharing).Reachable released := by
    refine opened_reachable.step (.unlock opened true 0 _ rfl (.none fun v now => ?_))
    cases v <;> exact nofun
  exact hreleased.step (.lock released true 0 renewing _ (by decide +kernel) rfl released_fresh (.context 1))

theorem connections_accounted_renewed :
    renewed.db.stats.connectionsTotal = 2 ∧ renewed.db.stats.dropped.version = 1 ∧
      ∑ s ∈ renewed.db.allServers.toFinset, ((pool renewed.db s).free.length + (pool renewed.db s).busy.length) = 1 := by
  have htotal : renewed.db.stats.connectionsTotal = 2 := by decide +kernel
  have hdropped : renewed.db.stats.dropped = ⟨0, 0, 0, 0, 1, 0⟩ := rfl
  have haccounted := connections_accounted rfl renewed_reachable
  simp only [htotal, hdropped] at haccounted
  exact ⟨htotal, congrArg Dropped.version hdropped, by omega⟩

end VmodRedis.ConnectionAccounting
