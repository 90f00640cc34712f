import VmodRedis.CommandRule
import VmodRedis.LifecycleProgress

namespace VmodRedis.Execution

open CStrings Replies Database Connections Registry Planning ClusterExecution SharedPool TransitionSystem

def Live (w : World) (c : ContextId) : Prop := c ∈ w.task.contexts ∨ ∃ s, c ∈ pooled w.db s

theorem takeFree_version {probe : Probe} {heap : Heap} {s : ServerId} {queue : List ContextId} {db : Db} {c : ContextId}
    (h : (takeFree probe heap s queue db).1 = some c) : (heap c).version = probe.version c := by
  induction queue generalizing db with
  | nil => cases h
  | cons d queue ih =>
    rw [takeFree_cons] at h
    by_cases hv : (checkFree probe heap s d queue db).1 = true
    · rw [if_pos hv, Option.some.injEq] at h
      subst h
      exact ((accepted_iff _ _ _ _).mp ((isValidRedisContext_iff _ _ _ _).mp hv)).2.1
    · rw [if_neg hv] at h
      exact ih h

theorem lockSection_versions (input : LockInput) (s : ServerId) (heap : Heap) (db : Db) :
    (∀ t, ∀ c ∈ pooled (lockSection input s heap db).2.2 t,
      c ∈ pooled db t ∨ (lockSection input s heap db).1 = .context c) ∧
    ∀ c, (lockSection input s heap db).1 = .context c →
      ((lockSection input s heap db).2.1 c).version = input.probe.version c := by
  obtain ⟨hmem, -⟩ := takeFree_members input.probe heap s (db.server s).pool.free db
  obtain ⟨⟨found, db'⟩, hr⟩ : ∃ r, r = takeFree input.probe heap s (db.server s).pool.free db := ⟨_, rfl⟩
  have hpool : ∀ t, ∀ c ∈ pooled db' t, c ∈ pooled db t := by
    intro t c hc
    rw [← hr] at hmem
    obtain hc | ⟨rfl, hc⟩ := hmem t c hc
    · exact hc
    · exact List.mem_append_left _ hc
  cases found with
  | some d =>
    rw [lockSection_reused hr.symm]
    refine ⟨fun t c hc => Or.inl (hpool t c hc), ?_⟩
    rintro c ⟨⟩
    exact takeFree_version (congrArg Prod.fst hr.symm)
  | none =>
    by_cases hfull : db'.maxConnections ≤ (db'.server s).pool.ncontexts
    · rw [lockSection_waiting hr.symm hfull]
      exact ⟨fun t c hc => Or.inl (hpool t c hc), fun c hc => by cases hc⟩
    · have hkeep : ∀ connected t, pooled (newRcontext input.probe.now false connected s db') t = pooled db' t :=
        fun connected t => by rw [pooled, (newRcontext_only input.probe.now false connected s db').pool, pooled]
      cases hconnected : input.connected with
      | false =>
        rw [lockSection_failed hr.symm hfull hconnected]
        exact ⟨fun t c hc => Or.inl (hpool t c (hkeep false t ▸ hc)), fun c hc => by cases hc⟩
      | true =>
        rw [lockSection_created hr.symm hfull hconnected]
        constructor
        · intro t c hc
          by_cases ht : t = s
          · subst ht
            rw [pooled_setPool, ← List.append_assoc, List.mem_append, List.mem_singleton] at hc
            obtain hc | rfl := hc
            · exact Or.inl (hpool t c (hkeep true t ▸ hc))
            · exact Or.inr rfl
          · rw [pooled_setPool_of_ne _ _ ht, hkeep] at hc
            exact Or.inl (hpool t c hc)
        · rintro c ⟨⟩
          simp [newRedisContext]

structure Known (K : ContextId → Prop) (w : World) : Prop where
  live : ∀ c, Live w c → K c ∧ c < w.nextContext
  later : ∀ c, w.nextContext ≤ c → K c

def Current (K : ContextId → Prop) (V : ℕ → Prop) (w : World) (c : ContextId) : Prop :=
  K c ∧ c < w.nextContext ∧ V (w.heap c).version

structure Draws (K : ContextId → Prop) (V : ℕ → Prop) (w w' : World) : Prop where
  known : Known K w'
  next : w.nextContext ≤ w'.nextContext
  version : ∀ c < w.nextContext, (w'.heap c).version = (w.heap c).version
  live : ∀ c, Live w' c → Live w c ∨ Current K V w' c
  sent : Logs (fun e => ∀ s c commands reply err, e = .exchange s c commands reply err → Current K V w' c) w w'

variable {K : ContextId → Prop} {V : ℕ → Prop} {w w' w'' : World}

theorem Draws.current {c : ContextId} (h : Draws K V w w') (hc : Current K V w c) : Current K V w' c := by
  obtain ⟨hk, hlt, hv⟩ := hc
  refine ⟨hk, hlt.trans_le h.next, ?_⟩
  rwa [h.version c hlt]

theorem Draws.trans (h : Draws K V w w') (h' : Draws K V w' w'') : Draws K V w w'' where
  known := h'.known
  next := h.next.trans h'.next
  version c hc := (h'.version c (hc.trans_le h.next)).trans (h.version c hc)
  live c hc := by
    obtain hc | hc := h'.live c hc
    · exact (h.live c hc).imp_right h'.current
    · exact Or.inr hc
  sent := by
    refine (h.sent.mono fun e he s c commands reply err hx => ?_).trans h'.sent
    exact h'.current (he s c commands reply err hx)

theorem Draws.of_live (h : Known K w) (hnext : w.nextContext ≤ w'.nextContext)
    (hversion : ∀ c < w.nextContext, (w'.heap c).version = (w.heap c).version)
    (hlive : ∀ c, Live w' c → Live w c ∨ Current K V w' c) (htrace : w'.trace = w.trace) : Draws K V w w' := by
  refine ⟨⟨fun c hc => ?_, fun c hc => h.later c (hnext.trans hc)⟩, hnext, hversion, hlive, .of_eq htrace⟩
  obtain hc | ⟨hk, hlt, -⟩ := hlive c hc
  · exact ⟨(h.live c hc).1, (h.live c hc).2.trans_le hnext⟩
  · exact ⟨hk, hlt⟩

theorem Draws.quiet (h : Known K w) (hnext : w'.nextContext = w.nextContext)
    (hversion : ∀ c, (w'.heap c).version = (w.heap c).version) (hlive : ∀ c, Live w' c → Live w c)
    (hlogs : Logs (fun e => e.isExchange = false) w w') : Draws K V w w' where
  known := ⟨fun c hc => by rw [hnext]; exact h.live c (hlive c hc), fun c hc => h.later c (by rwa [← hnext])⟩
  next := hnext.ge
  version c _ := hversion c
  live c hc := Or.inl (hlive c hc)
  sent := by
    refine hlogs.mono ?_
    rintro e he s c commands reply err rfl
    cases he

theorem Draws.silent (h : Known K w) (hnext : w'.nextContext = w.nextContext) (hheap : w'.heap = w.heap)
    (hlive : ∀ c, Live w' c → Live w c) (htrace : w'.trace = w.trace) : Draws K V w w' :=
  .quiet h hnext (fun c => by rw [hheap]) hlive (.of_eq htrace)

theorem live_of_pools {db : Db} (hp : PoolsKept w.db db) (task : Task) (ht : ∀ c ∈ task.contexts, c ∈ w.task.contexts)
    (c : ContextId) : Live { w with task := task, db := db } c → Live w c := by
  rintro (hc | ⟨s, hc⟩)
  · exact Or.inl (ht c hc)
  · unfold pooled at hc
    obtain hs | hs := hp s
    · exact Or.inr ⟨s, by rw [pooled, ← hs]; exact hc⟩
    · simp [hs, Pool.empty] at hc

theorem runSection_draws (probe : Probe) (connected : Bool) (s : ServerId) (h : Known K w)
    (hv : ∀ c, V (probe.version c)) :
    Draws K V w (runSection probe connected s w).2 ∧
      ∀ c, (runSection probe connected s w).1 = .context c → Current K V (runSection probe connected s w).2 c := by
  obtain ⟨hheap, hmem, hcontext⟩ := lockSection_members ⟨probe, connected, w.nextContext⟩ s w.heap w.db
  obtain ⟨hadded, hversion⟩ := lockSection_versions ⟨probe, connected, w.nextContext⟩ s w.heap w.db
  have hcurrent : ∀ c, (runSection probe connected s w).1 = .context c →
      Current K V (runSection probe connected s w).2 c := by
    intro c hc
    have hv' : V ((runSection probe connected s w).2.heap c).version := by
      rw [show ((runSection probe connected s w).2.heap c).version = probe.version c from hversion c hc]
      exact hv c
    obtain hc | ⟨rfl, -⟩ := hcontext c hc
    · obtain ⟨hk, hlt⟩ := h.live c (Or.inr ⟨s, hc⟩)
      exact ⟨hk, Nat.lt_succ_of_lt hlt, hv'⟩
    · exact ⟨h.later _ le_rfl, Nat.lt_succ_self _, hv'⟩
  have hlive : ∀ c, Live (runSection probe connected s w).2 c →
      Live w c ∨ Current K V (runSection probe connected s w).2 c := by
    rintro c (hc | ⟨t, hc⟩)
    · exact Or.inl (Or.inl hc)
    · exact (hadded t c hc).imp (fun hc => Or.inr ⟨t, hc⟩) (hcurrent c)
  exact ⟨.of_live h (Nat.le_succ _) (fun c hc => congrArg Context.version (hheap c hc.ne)) hlive rfl, hcurrent⟩

theorem unlock_draws {c : ContextId} (h : Known K w) (hc : Live w c ∨ Current K V w c) :
    Draws K V w { w with db := unlockSharedRedisContext c w.heap w.db } := by
  refine .of_live h le_rfl (fun _ _ => rfl) ?_ rfl
  rintro d (hd | ⟨t, hd⟩)
  · exact Or.inl (Or.inl hd)
  · unfold unlockSharedRedisContext at hd
    by_cases ht : t = (w.heap c).server
    · subst ht
      rw [pooled_setPool, List.append_assoc, List.mem_append, List.mem_append, List.mem_singleton] at hd
      obtain hd | rfl | hd := hd
      · exact Or.inl (Or.inr ⟨_, List.mem_append_left _ hd⟩)
      · exact hc
      · exact Or.inl (Or.inr ⟨_, List.mem_append_right _ (List.mem_of_mem_erase hd)⟩)
    · rw [pooled_setPool_of_ne _ _ ht] at hd
      exact Or.inl (Or.inr ⟨t, hd⟩)

theorem act_draws (h : Known K w) {a : PoolAction} (ha : a.Reads fun probe => ∀ c, V (probe.version c)) :
    Draws K V w (act w a) := by
  cases a with
  | lock probe connected s => exact (runSection_draws probe connected s h ha).1
  | unlock c =>
    unfold act
    dsimp only
    by_cases hc : c ∈ (w.db.server (w.heap c).server).pool.busy
    · rw [if_pos hc]
      exact unlock_draws h (Or.inl (Or.inr ⟨_, List.mem_append_right _ hc⟩))
    · rw [if_neg hc]
      exact .silent h rfl rfl (fun _ => id) rfl
  | fail c =>
    refine .quiet h rfl (fun d => ?_) (fun _ => id) (.of_eq rfl)
    by_cases hd : d = c
    · subst hd
      simp [act]
    · simp [act, hd]

theorem createPrivate_draws (input : AttemptInput) (s : ServerId) (h : Known K w)
    (hv : ∀ c, V (input.probe.version c)) :
    Draws K V w (createPrivate input s w).2 ∧
      ∀ c, (createPrivate input s w).1 = some c → Current K V (createPrivate input s w).2 c := by
  have hpools : PoolsKept w.db (newRcontext input.probe.now false input.connected s w.db) :=
    .of_eq (newRcontext_only input.probe.now false input.connected s w.db).pool
  have hkept : ∀ c, Live { w with db := newRcontext input.probe.now false input.connected s w.db } c → Live w c :=
    live_of_pools hpools w.task fun _ => id
  cases hconnected : input.connected with
  | false =>
    rw [hconnected] at hkept
    simp only [createPrivate, hconnected]
    exact ⟨.silent h rfl rfl hkept rfl, nofun⟩
  | true =>
    rw [hconnected] at hkept
    have hcurrent : Current K V (createPrivate input s w).2 w.nextContext := by
      refine ⟨h.later _ le_rfl, ?_, ?_⟩ <;> simp [createPrivate, hconnected, newRedisContext, hv]
    simp only [createPrivate, hconnected, if_true] at hcurrent ⊢
    refine ⟨.of_live h (Nat.le_succ _) (fun c hc => ?_) ?_ rfl, ?_⟩
    · simp [hc.ne]
    · rintro c (hc | hc)
      · obtain hc | hc := List.mem_append.mp hc
        · exact Or.inl (Or.inl hc)
        · obtain rfl := List.mem_singleton.mp hc
          exact Or.inr hcurrent
      · exact Or.inl (hkept c (Or.inr hc))
    · rintro c ⟨⟩
      exact hcurrent

theorem evict_draws (h : Known K w) (he : evict w = some w') : Draws K V w w' := by
  unfold evict at he
  by_cases hfull : w.db.maxConnections ≤ w.task.ncontexts
  · rw [if_pos hfull] at he
    cases hc : w.task.contexts with
    | nil => simp [hc] at he
    | cons c rest =>
      rw [hc] at he
      cases he
      refine .silent h rfl rfl ?_ rfl
      exact live_of_pools (.of_eq fun _ => rfl) _ fun d hd => by simp [hc, hd]
  · rw [if_neg hfull] at he
    cases he
    exact .silent h rfl rfl (fun _ => id) rfl

theorem getRedisRepy_draws (answer : Command → Option Reply) (asking : Bool) {c : ContextId} (args : List Bytes)
    (h : Known K w) (hc : Current K V w c) : Draws K V w (getRedisRepy answer asking c args w).1 := by
  have hversion : ∀ d, ((getRedisRepy answer asking c args w).1.heap d).version = (w.heap d).version := by
    intro d
    by_cases hd : d = c
    · subst hd
      simp [getRedisRepy, World.log]
    · simp [getRedisRepy, World.log, hd]
  refine ⟨⟨h.live, h.later⟩, le_rfl, fun d _ => hversion d, fun d hd => Or.inl hd, ⟨[_], rfl, ?_⟩⟩
  intro e he s d commands reply err hx
  rw [List.mem_singleton.mp he, Event.exchange.injEq] at hx
  obtain ⟨hk, hlt, hv⟩ := hc
  exact hx.2.1 ▸ ⟨hk, hlt, by rw [hversion]; exact hv⟩

theorem planExecution_accepted {input : PlanInput} {size : ℕ} {server : Option ServerId} {master : Bool} {slot : ℕ}
    {task : Task} {db : Db} {plan : Option Plan}
    (h : planExecution input w.heap size server master slot w.task w.db = .ok (plan, task, db)) :
    ∀ p ∈ plan, ∀ c ∈ p.contexts, (w.heap c).version = input.probe.version c := by
  obtain ⟨-, rfl, -⟩ | ⟨-, p, rfl, ⟨s, rfl, hp⟩ | ⟨rfl, hp⟩⟩ := planExecution_cases h
  · exact nofun
  · rintro q ⟨⟩ c hc
    obtain ⟨hplanned, -⟩ := populateSimpleExecutionPlan_spec hp
    exact ((accepted_iff _ _ _ _).mp (hplanned.usable hc).2.2).2.1
  · rintro q ⟨⟩ c hc
    obtain ⟨_, hplanned, -⟩ := populateExecutionPlan_spec hp
    exact ((accepted_iff _ _ _ _).mp (hplanned.usable hc).2.2).2.1

theorem commandRule_draws (K : ContextId → Prop) (V : ℕ → Prop) :
    CommandRule (fun probe => ∀ c, V (probe.version c)) (fun _ => True) (fun _ => True) (fun _ => True)
      (fun w => WellPlaced w.db ∧ Known K w) (fun w w' => WellPlaced w'.db ∧ Draws K V w w') (Current K V) where
  wellPlaced hw := hw.1
  refl hw := ⟨hw.1, .silent hw.2 rfl rfl (fun _ => id) rfl⟩
  trans h h' := ⟨h'.1, h.2.trans h'.2⟩
  inv h := ⟨h.1, h.2.known⟩
  context h hc := h.2.current hc
  log e hw he := ⟨hw.1, .quiet hw.2 rfl (fun _ => rfl) (fun _ => id) ⟨[e], rfl, by simpa using he⟩⟩
  stats stats hw hs ht hf := ⟨hw.1.same (.setStats _ _ hs ht hf), .silent hw.2 rfl rfl
    (live_of_pools (.of_eq fun _ => rfl) _ fun _ => id) rfl⟩
  lock probe connected s hw hp _ := by
    obtain ⟨hdraws, hcurrent⟩ := runSection_draws probe connected s hw.2 hp
    exact ⟨⟨hw.1.same (lockSection_same _ s _ _), hdraws⟩, hcurrent⟩
  act a hw ha := ⟨hw.1.same (act_same _ a), act_draws hw.2 ha⟩
  unlock c hw hc := ⟨hw.1.same (.setPool _ _ _), unlock_draws hw.2 (Or.inr hc)⟩
  evict hw he := ⟨hw.1.same (evict_same he), evict_draws hw.2 he⟩
  create input s hw hp _ := by
    obtain ⟨hdraws, hcurrent⟩ := createPrivate_draws input s hw.2 hp
    exact ⟨⟨hw.1.same (createPrivate_same input s _), hdraws⟩, hcurrent⟩
  exchange answer asking c args hw hc := ⟨hw.1, getRedisRepy_draws answer asking args hw.2 hc⟩
  plan {w input size server master slot plan task db} hw hp h := by
    obtain ⟨htask, hplanned⟩ := planExecution_planned h
    refine ⟨⟨(planExecution_grows h hw.1).wellPlaced, .silent hw.2 rfl rfl ?_ rfl⟩, fun p hm => ⟨fun c hc => ?_, fun _ _ => trivial⟩⟩
    · obtain ⟨-, hserver, -⟩ := planExecution_keeps h
      exact live_of_pools (.of_eq fun s => by rw [hserver]) task htask
    · obtain ⟨hk, hlt⟩ := hw.2.live c (Or.inl ((hplanned p hm).contexts c hc))
      refine ⟨hk, hlt, ?_⟩
      rw [planExecution_accepted h p hm c hc]
      exact hp c
  add input rules location role hw _ := by
    have hgrows := unsafeAddRedisServer_grows hw.1 input rules location role
    exact ⟨hgrows.wellPlaced, .silent hw.2 rfl rfl (live_of_pools hgrows.pools _ fun _ => id) rfl⟩
  discover hw _ _ h := by
    have hgrows := unsafeDiscoverSlots_grows hw.1 h
    exact ⟨hgrows.wellPlaced, .silent hw.2 rfl rfl (live_of_pools hgrows.pools _ fun _ => id) rfl⟩

/-- What `vmod_state.version` may be read as while the number of warm events goes from `first` to `last`. -/
def Between (first last version : ℕ) : Prop := ∃ n, first ≤ n ∧ n ≤ last ∧ version = n % 2 ^ 32

/-- A thread with its world, the number of warm events so far, and for each context the number of them at the moment
when `new_redis_context` stamped it with the version. -/
structure Tenure where
  world : World
  warms : ℕ
  stamped : ContextId → ℕ

/-- While the number of warm events goes from `t.warms` to `last` the world becomes `w`, and the contexts made meanwhile
are stamped at moments between the two. -/
structure Tenure.Stamps (t : Tenure) (last : ℕ) (w : World) (stamped : ContextId → ℕ) : Prop where
  kept : ∀ c < t.world.nextContext, stamped c = t.stamped c
  made : ∀ c, t.world.nextContext ≤ c → c < w.nextContext → Between t.warms last (w.heap c).version →
    t.warms ≤ stamped c ∧ stamped c ≤ last ∧ (w.heap c).version = stamped c % 2 ^ 32

section

variable (sha1 : Bytes → Bytes)

/-- The commands of a thread, during which VCLs may become warm, and what happens between them: warm and cold
events, the end of a task, the other workers, and changes to the registry. -/
inductive Tenure.Step : Tenure → Tenure → Prop
  | warm (t : Tenure) : Step t { t with warms := t.warms + 1 }
  | cold (t : Tenure) : Step t { t with world := { t.world with db := (Lifecycle.releaseContexts t.world.db).1 } }
  | finish (t : Tenure) : Step t { t with world := { t.world with task := ⟨0, []⟩ } }
  | register (t : Tenure) (db : Db) (h : Grows t.world.db db) : Step t { t with world := { t.world with db := db } }
  | act (t : Tenure) (last : ℕ) (a : PoolAction) (stamped : ContextId → ℕ) (hle : t.warms ≤ last)
      (ha : a.Reads fun probe => ∀ c, Between t.warms last (probe.version c))
      (hs : t.Stamps last (act t.world a) stamped) : Step t ⟨act t.world a, last, stamped⟩
  | command (t : Tenure) (last fuel : ℕ) (input : ClusterInput) (maxRetries : ℕ) (master : Bool) (argv : Argv)
      (stamped : ContextId → ℕ) (hle : t.warms ≤ last)
      (hr : ∀ i, (input.call i).Reads fun probe => ∀ c, Between t.warms last (probe.version c))
      (hs : t.Stamps last (dbExecute sha1 fuel input maxRetries master argv t.world).world stamped) :
      Step t ⟨(dbExecute sha1 fuel input maxRetries master argv t.world).world, last, stamped⟩

def tenure : System Tenure where
  init t := WellPlaced t.world.db ∧ t.world.task = ⟨0, []⟩ ∧ ∀ s, (t.world.db.server s).pool = .empty
  step := Tenure.Step sha1

end

structure Tenure.Inv (t : Tenure) : Prop where
  wellPlaced : WellPlaced t.world.db
  live : ∀ c, Live t.world c → c < t.world.nextContext ∧ (t.world.heap c).version = t.stamped c % 2 ^ 32

variable {t t' : Tenure} {last : ℕ} {stamped : ContextId → ℕ}

def Tenure.known (t : Tenure) (c : ContextId) : Prop := Live t.world c ∨ t.world.nextContext ≤ c

theorem Tenure.Inv.known (h : t.Inv) : Known t.known t.world :=
  ⟨fun c hc => ⟨Or.inl hc, (h.live c hc).1⟩, fun _ hc => Or.inr hc⟩

theorem Tenure.Inv.current (h : t.Inv) (hd : Draws t.known (Between t.warms last) t.world w')
    (hs : t.Stamps last w' stamped) {c : ContextId} (hc : Current t.known (Between t.warms last) w' c) :
    (w'.heap c).version = stamped c % 2 ^ 32 ∧ (c < t.world.nextContext ∨ t.warms ≤ stamped c) := by
  obtain ⟨hk, hlt, hv⟩ := hc
  by_cases hold : c < t.world.nextContext
  · have hlive : Live t.world c := hk.resolve_right (Nat.not_le.mpr hold)
    refine ⟨?_, Or.inl hold⟩
    rw [hd.version c hold, hs.kept c hold]
    exact (h.live c hlive).2
  · obtain ⟨hfirst, -, hversion⟩ := hs.made c (Nat.not_lt.mp hold) hlt hv
    exact ⟨hversion, Or.inr hfirst⟩

theorem Tenure.Inv.after (h : t.Inv) (hwell : WellPlaced w'.db) (hd : Draws t.known (Between t.warms last) t.world w')
    (hs : t.Stamps last w' stamped) : Tenure.Inv ⟨w', last, stamped⟩ where
  wellPlaced := hwell
  live c hc := by
    refine ⟨(hd.known.live c hc).2, ?_⟩
    obtain hc | hc := hd.live c hc
    · obtain ⟨hlt, hv⟩ := h.live c hc
      dsimp only
      rw [hd.version c hlt, hs.kept c hlt]
      exact hv
    · exact (h.current hd hs hc).1

theorem Tenure.Inv.step {sha1 : Bytes → Bytes} (h : t.Inv) (hs : Tenure.Step sha1 t t') : t'.Inv := by
  have hsmaller : ∀ (db : Db) (task : Task), WellPlaced db → PoolsKept t.world.db db →
      (∀ c ∈ task.contexts, c ∈ t.world.task.contexts) →
      Tenure.Inv { t with world := { t.world with task := task, db := db } } :=
    fun db task hwell hp ht => ⟨hwell, fun c hc => h.live c (live_of_pools hp task ht c hc)⟩
  cases hs with
  | warm => exact ⟨h.wellPlaced, h.live⟩
  | cold =>
    exact hsmaller _ _ (h.wellPlaced.same (Lifecycle.releaseContexts_same _)) (Lifecycle.releaseContexts_pools _) fun _ => id
  | finish => exact hsmaller _ _ h.wellPlaced (.of_eq fun _ => rfl) fun _ hc => by cases hc
  | register db hg => exact hsmaller _ _ hg.wellPlaced hg.pools fun _ => id
  | act last a stamped hle ha hs => exact h.after (h.wellPlaced.same (act_same _ a)) (act_draws h.known ha) hs
  | command last fuel input maxRetries master argv stamped hle hr hs =>
    obtain ⟨hwell, hd⟩ := (commandRule_draws t.known (Between t.warms last)).dbExecute sha1 fuel hr
      (fun _ => ⟨trivial, trivial⟩) maxRetries master argv ⟨h.wellPlaced, h.known⟩
    exact h.after hwell hd hs

theorem tenure_inv {sha1 : Bytes → Bytes} (h : (tenure sha1).Reachable t) : t.Inv := by
  refine System.invariant (P := Tenure.Inv) ?_ (fun t t' _ ht hs => ht.step hs) h
  rintro t ⟨hwell, htask, hpools⟩
  refine ⟨hwell, fun c hc => ?_⟩
  obtain hc | ⟨s, hc⟩ := hc
  · simp [htask] at hc
  · simp [pooled, hpools, Pool.empty] at hc

/-- A command, with all its retries and redirections, is sent on no context stamped before the last warm event that
precedes it, as long as the 32-bit version has not come round since. -/
theorem connections_current {sha1 : Bytes → Bytes} (h : (tenure sha1).Reachable t) {last : ℕ} (fuel : ℕ) {input : ClusterInput}
    (maxRetries : ℕ) (master : Bool) (argv : Argv)
    (hr : ∀ i, (input.call i).Reads fun probe => ∀ c, Between t.warms last (probe.version c)) {stamped : ContextId → ℕ}
    (hs : t.Stamps last (dbExecute sha1 fuel input maxRetries master argv t.world).world stamped) :
    Logs (fun e => ∀ s c commands reply err, e = .exchange s c commands reply err →
        t.warms ≤ stamped c ∨ stamped c + 2 ^ 32 ≤ last)
      t.world (dbExecute sha1 fuel input maxRetries master argv t.world).world := by
  have hinv := tenure_inv h
  obtain ⟨-, hd⟩ := (commandRule_draws t.known (Between t.warms last)).dbExecute sha1 fuel hr
    (fun _ => ⟨trivial, trivial⟩) maxRetries master argv ⟨hinv.wellPlaced, hinv.known⟩
  refine hd.sent.mono fun e he s c commands reply err hx => ?_
  have hc := he s c commands reply err hx
  obtain ⟨hversion, hstamp⟩ := hinv.current hd hs hc
  obtain hold | hnew := hstamp
  · obtain ⟨-, -, n, hfirst, hlast, hn⟩ := hc
    rw [hn] at hversion
    omega
  · exact Or.inl hnew

def reading (version : ℕ) : ClusterInput where
  call _ := ⟨⟨true, ⟨0, fun _ => version, fun _ => false⟩, 1024, 1024⟩,
    fun _ => { answering (.string (bytes "v")) with probe := ⟨0, fun _ => version, fun _ => false⟩ }⟩
  redirect := (redirecting []).redirect

theorem reading_reads {n version : ℕ} (h : version = n % 2 ^ 32) (i : ℕ) :
    ((reading version).call i).Reads fun probe => ∀ c, Between n n (probe.version c) :=
  ⟨fun _ => ⟨n, le_rfl, le_rfl, h⟩, fun _ => ⟨fun _ => ⟨n, le_rfl, le_rfl, h⟩, nofun⟩⟩

def Tenure.idle (db : Db) : Tenure := ⟨idleWorld db, 0, fun _ => 0⟩

theorem idle_reachable {sha1 : Bytes → Bytes} {db : Db} (h : WellPlaced db) (hp : ∀ s, (db.server s).pool = .empty) :
    (tenure sha1).Reachable (.idle db) :=
  System.reachable_init ⟨h, rfl, hp⟩

def busy : Tenure :=
  ⟨(dbExecute id 5 (reading 0) 3 false getKey (Tenure.idle DiscoveryWalk.masters).world).world, 0, fun _ => 0⟩

def warmed : Tenure := { busy with warms := busy.warms + 1 }

theorem warmed_reachable : (tenure id).Reachable warmed := by
  have hidle : (tenure id).Reachable (.idle DiscoveryWalk.masters) :=
    idle_reachable DiscoveryWalk.masters_fresh.1 DiscoveryWalk.masters_fresh.2
  have hbusy : (tenure id).Reachable busy := by
    refine hidle.step (.command _ 0 5 (reading 0) 3 false getKey (fun _ => 0) le_rfl (reading_reads rfl) ⟨fun _ _ => rfl, ?_⟩)
    rintro c - - ⟨n, -, hn, hv⟩
    obtain rfl := Nat.le_zero.mp hn
    exact ⟨le_rfl, le_rfl, hv⟩
  exact hbusy.step (.warm busy)

def sentOn : Event → Option ContextId
  | .exchange _ c _ _ _ => some c
  | _ => none

theorem connections_current_warmed :
    (dbExecute id 5 (reading 1) 3 false getKey warmed.world).world.trace.filterMap sentOn = [1, 0] ∧
      warmed.world.trace.filterMap sentOn = [0] ∧
      Logs (fun e => ∀ s c commands reply err, e = .exchange s c commands reply err →
          warmed.warms ≤ min c 1 ∨ min c 1 + 2 ^ 32 ≤ 1)
        warmed.world (dbExecute id 5 (reading 1) 3 false getKey warmed.world).world := by
  have hnext : warmed.world.nextContext = 1 := by decide +kernel
  refine ⟨by decide +kernel, by decide +kernel, connections_current warmed_reachable 5 3 false getKey (reading_reads rfl)
    ⟨fun c hc => ?_, ?_⟩⟩
  · rw [hnext, Nat.lt_one_iff] at hc
    rw [hc]
    rfl
  · rintro c hc - ⟨n, hfirst, hlast, hv⟩
    rw [hnext] at hc
    obtain rfl : n = 1 := Nat.le_antisymm hlast hfirst
    rw [Nat.min_eq_right hc]
    exact ⟨le_rfl, le_rfl, hv⟩

end VmodRedis.Execution
