import VmodRedis.ExecutionTrace
import VmodRedis.RegistryInvariant

namespace VmodRedis.Registry

open CStrings Database Connections Planning Discovery DiscoveryWalk RegistryInvariant

structure Grows (db db' : Db) : Prop where
  retains : Retains db db'
  pools : PoolsKept db db'
  wellPlaced : WellPlaced db'

namespace Grows

variable {a b c : Db}

theorem refl (h : WellPlaced a) : Grows a a := ⟨.refl a, .of_eq fun _ => rfl, h⟩

theorem trans (h : Grows a b) (h' : Grows b c) : Grows a c :=
  ⟨h.retains.trans h'.retains, h.pools.trans h'.pools, h'.wellPlaced⟩

theorem of_same (hs : SameRegistry a b) (hp : ∀ s, (b.server s).pool = (a.server s).pool) (h : WellPlaced a) :
    Grows a b := ⟨retains_of_same hs, .of_eq hp, h.same hs⟩

end Grows

theorem unsafeAddRedisServer_grows {db : Db} (h : WellPlaced db) (input : AddInput) (rules : List WeightRule)
    (location : Bytes) (role : Role) : Grows db (unsafeAddRedisServer input rules location role db).2 := by
  refine ⟨unsafeAddRedisServer_retains h input rules location role, ?_,
    unsafeAddRedisServer_wellPlaced h input rules location role⟩
  rcases unsafeAddRedisServer_spec h input rules location role with ⟨s, db', he, ha, -, -⟩ | ⟨-, he⟩
  · rw [he]
    exact ha.pools
  · rw [he]
    exact .of_eq fun _ => rfl

theorem planExecution_grows {input : PlanInput} {heap : Heap} {maxSize : ℕ} {server : Option ServerId}
    {master : Bool} {slot : ℕ} {task task' : Task} {db db' : Db} {plan : Option Plan}
    (h : planExecution input heap maxSize server master slot task db = .ok (plan, task', db'))
    (hw : WellPlaced db) : Grows db db' := by
  obtain ⟨hr, hw'⟩ := planExecution_retains h hw
  suffices hs : db'.server = db.server from ⟨hr, .of_eq fun s => by rw [hs], hw'⟩
  rcases planExecution_cases h with ⟨-, -, -, rfl⟩ | ⟨-, p, -, ⟨s, -, hp⟩ | ⟨-, hp⟩⟩
  · rfl
  · exact (populateSimpleExecutionPlan_spec hp).1.counts.server
  · obtain ⟨dbc, hc, -, -, ⟨-, -, rfl⟩ | ⟨-, -, hs⟩⟩ := populateExecutionPlan_spec hp
    · exact hc.counts.server
    · exact hs.rotated.server.trans hc.counts.server

theorem unsafeDiscoverSlotsAux_grows {db : Db} (h : WellPlaced db) (clock : ℕ → ℤ) (rules : List WeightRule)
    (reply : Option Replies.Reply) (s : ServerId) : Grows db (unsafeDiscoverSlotsAux clock rules reply s db).2 := by
  obtain ⟨hr, hw⟩ := unsafeDiscoverSlotsAux_retains h clock rules reply s
  refine ⟨hr, ?_, hw⟩
  unfold unsafeDiscoverSlotsAux
  split
  · next shards =>
    have hv := (Visited.start h (hostname (db.server s).address) clock).shards rules shards
    exact hv.pools.trans (.of_eq fun t => by rw [countDiscovery_server])
  · exact .of_eq fun t => by rw [countDiscovery_server]

theorem query_grows (walk : Walk) (h : WellPlaced walk.db) (input : DiscoveryInput) (s : ServerId) :
    Grows walk.db (query input s walk).2.db :=
  unsafeDiscoverSlotsAux_grows h _ _ _ _

theorem visitFrom_grows {input : DiscoveryInput} {start : ServerId} {fuel : ℕ} {s : Option ServerId} {walk : Walk}
    {r : Bool × Walk} (h : WellPlaced walk.db) (hr : visitFrom input start fuel s walk = some r) :
    Grows walk.db r.2.db := by
  induction fuel generalizing s walk with
  | zero =>
    cases s with
    | none =>
      rw [visitFrom] at hr
      cases hr
      exact .refl h
    | some s => simp [visitFrom] at hr
  | succ fuel ih =>
    cases s with
    | none =>
      rw [visitFrom] at hr
      cases hr
      exact .refl h
    | some s =>
      have hq := query_grows walk h input s
      simp only [visitFrom] at hr
      by_cases hs : s ≠ start
      · rw [if_pos hs] at hr
        by_cases hd : (query input s walk).1 = true
        · rw [if_pos hd] at hr
          cases hr
          exact hq
        · rw [if_neg hd] at hr
          exact hq.trans (ih hq.wellPlaced hr)
      · rw [if_neg hs] at hr
        exact ih h hr

theorem visitBuckets_grows {input : DiscoveryInput} {start : ServerId} {fuel : ℕ} {bs : List Bucket} {walk : Walk}
    {r : Bool × Walk} (h : WellPlaced walk.db) (hr : visitBuckets input start fuel bs walk = some r) :
    Grows walk.db r.2.db := by
  induction bs generalizing walk with
  | nil =>
    rw [visitBuckets] at hr
    cases hr
    exact .refl h
  | cons b bs ih =>
    obtain ⟨v, hv⟩ : ∃ v, visitFrom input start fuel (walk.db.servers b).head? walk = v := ⟨_, rfl⟩
    rw [visitBuckets, hv] at hr
    rcases v with _ | ⟨_ | _, walk'⟩
    · cases hr
    · have hg : Grows walk.db walk'.db := visitFrom_grows h hv
      exact hg.trans (ih hg.wellPlaced hr)
    · cases hr
      exact visitFrom_grows h hv

theorem unsafeDiscoverSlots_grows {input : DiscoveryInput} {start : ServerId} {fuel : ℕ} {db : Db}
    {r : Bool × Walk} (h : WellPlaced db) (hr : unsafeDiscoverSlots fuel input start db = some r) :
    Grows db r.2.db := by
  have hq : Grows db (query input start ⟨db, []⟩).2.db := query_grows ⟨db, []⟩ h input start
  simp only [unsafeDiscoverSlots] at hr
  by_cases hd : (query input start ⟨db, []⟩).1 = true
  · rw [if_pos hd] at hr
    cases hr
    exact hq
  · rw [if_neg hd] at hr
    exact hq.trans (visitBuckets_grows hq.wellPlaced hr)

end VmodRedis.Registry

namespace VmodRedis.Execution

open CStrings Replies Database Connections Registry Planning SharedPool

def pooled (db : Db) (s : ServerId) : List ContextId := (db.server s).pool.free ++ (db.server s).pool.busy

/-- What every operation of a thread keeps. -/
structure Sound (w : World) : Prop where
  wellPlaced : WellPlaced w.db
  allocated : ∀ c ∈ w.task.contexts, c < w.nextContext
  owner : ∀ s, ∀ c ∈ pooled w.db s, (w.heap c).server = s ∧ c < w.nextContext

/-- What a context or a server is for does not change while a thread works. -/
structure Later (w w' : World) : Prop where
  retains : Retains w.db w'.db
  nextContext : w.nextContext ≤ w'.nextContext
  server : ∀ c < w.nextContext, (w'.heap c).server = (w.heap c).server

def Evolves (w w' : World) : Prop := Sound w → Sound w' ∧ Later w w'

theorem Later.refl (w : World) : Later w w := ⟨.refl _, le_refl _, fun _ _ => rfl⟩

theorem Later.trans {a b c : World} (h : Later a b) (h' : Later b c) : Later a c where
  retains := h.retains.trans h'.retains
  nextContext := h.nextContext.trans h'.nextContext
  server x hx := (h'.server x (hx.trans_le h.nextContext)).trans (h.server x hx)

namespace Evolves

variable {a b c : World}

theorem refl (w : World) : Evolves w w := fun h => ⟨h, .refl w⟩

theorem trans (h : Evolves a b) (h' : Evolves b c) : Evolves a c := fun ha => by
  obtain ⟨hb, hab⟩ := h ha
  obtain ⟨hc, hbc⟩ := h' hb
  exact ⟨hc, hab.trans hbc⟩

theorem grow {w : World} {db : Db} (h : WellPlaced w.db → Grows w.db db) : Evolves w { w with db := db } := fun hw => by
  have hg := h hw.wellPlaced
  refine ⟨⟨hg.wellPlaced, hw.allocated, fun s c hc => ?_⟩, hg.retains, le_refl _, fun _ _ => rfl⟩
  unfold pooled at hc
  rcases hg.pools s with hs | hs
  · rw [hs] at hc
    exact hw.owner s c hc
  · rw [hs] at hc
    exact absurd hc List.not_mem_nil

theorem log (h : Evolves a b) (e : Event) : Evolves a (b.log e) := fun ha => by
  obtain ⟨hb, hab⟩ := h ha
  exact ⟨⟨hb.wellPlaced, hb.allocated, hb.owner⟩, hab.retains, hab.nextContext, hab.server⟩

theorem stats {w : World} {stats : Stats} (hs : stats.serversTotal = w.db.stats.serversTotal)
    (ht : stats.discoveriesTotal = w.db.stats.discoveriesTotal)
    (hf : stats.discoveriesFailed = w.db.stats.discoveriesFailed) :
    Evolves w { w with db := w.db.setStats stats } :=
  grow (.of_same (.setStats _ _ hs ht hf) fun _ => rfl)

theorem touch {w : World} (c : ContextId) (x : Context) (hx : x.server = (w.heap c).server) :
    Evolves w { w with heap := Function.update w.heap c x } := fun hw => by
  have hserver : ∀ d, (Function.update w.heap c x d).server = (w.heap d).server := fun d => by
    by_cases hd : d = c
    · rw [hd, Function.update_self, hx]
    · rw [Function.update_of_ne hd]
  refine ⟨⟨hw.wellPlaced, hw.allocated, fun s d hd => ?_⟩, .refl _, le_refl _, fun d _ => hserver d⟩
  have := hw.owner s d hd
  exact ⟨(hserver d).trans this.1, this.2⟩

end Evolves

theorem pooled_setPool_of_ne (db : Db) {s t : ServerId} (p : Pool) (h : t ≠ s) :
    pooled (db.setPool s p) t = pooled db t := by
  rw [pooled, setPool_of_ne db p h, pooled]

theorem pooled_setPool (db : Db) (s : ServerId) (p : Pool) : pooled (db.setPool s p) s = p.free ++ p.busy := by
  rw [pooled, setPool_pool]

theorem pooled_dropBusy {s t : ServerId} {c x : ContextId} {db : Db} (hx : x ∈ pooled (dropBusy s c db) t) :
    x ∈ pooled db t := by
  by_cases ht : t = s
  · subst ht
    unfold dropBusy at hx
    rw [pooled_setPool] at hx
    rcases List.mem_append.mp hx with hx | hx
    · exact List.mem_append_left _ hx
    · exact List.mem_append_right _ (List.mem_of_mem_erase hx)
  · rwa [pooled, dropBusy_of_ne ht] at hx

theorem takeFree_members (probe : Probe) (heap : Heap) (s : ServerId) (queue : List ContextId) (db : Db) :
    (∀ t, ∀ c ∈ pooled (takeFree probe heap s queue db).2 t, c ∈ pooled db t ∨ (t = s ∧ c ∈ queue)) ∧
      ∀ c, (takeFree probe heap s queue db).1 = some c → c ∈ queue := by
  induction queue generalizing db with
  | nil => exact ⟨fun _ _ hc => Or.inl hc, nofun⟩
  | cons c queue ih =>
    have hmem : ∀ t, ∀ x ∈ pooled (checkFree probe heap s c queue db).2 t,
        x ∈ pooled db t ∨ (t = s ∧ x ∈ c :: queue) := by
      intro t x hx
      by_cases ht : t = s
      · subst ht
        rw [pooled, checkFree_pool, ← List.append_assoc, List.mem_append, List.mem_append, List.mem_singleton] at hx
        rcases hx with (hx | hx) | rfl
        · exact Or.inr ⟨rfl, List.mem_cons_of_mem c hx⟩
        · exact Or.inl (List.mem_append_right _ hx)
        · exact Or.inr ⟨rfl, List.mem_cons_self⟩
      · rw [pooled, checkFree_of_ne ht] at hx
        exact Or.inl hx
    rw [takeFree_cons]
    split_ifs
    · refine ⟨hmem, ?_⟩
      rintro d ⟨⟩
      exact List.mem_cons_self
    · obtain ⟨hpooled, htaken⟩ := ih (dropBusy s c (checkFree probe heap s c queue db).2)
      refine ⟨fun t x hx => ?_, fun x hx => List.mem_cons_of_mem c (htaken x hx)⟩
      rcases hpooled t x hx with hm | ⟨ht, hm⟩
      · exact hmem t x (pooled_dropBusy hm)
      · exact Or.inr ⟨ht, List.mem_cons_of_mem c hm⟩

theorem lockSection_members (input : LockInput) (s : ServerId) (heap : Heap) (db : Db) :
    (∀ c, c ≠ input.created → (lockSection input s heap db).2.1 c = heap c) ∧
      (∀ t, ∀ c ∈ pooled (lockSection input s heap db).2.2 t,
        c ∈ pooled db t ∨ (t = s ∧ c = input.created ∧ ((lockSection input s heap db).2.1 c).server = s)) ∧
      ∀ c, (lockSection input s heap db).1 = .context c →
        c ∈ pooled db s ∨ (c = input.created ∧ ((lockSection input s heap db).2.1 c).server = s) := by
  obtain ⟨hmem, htaken⟩ := takeFree_members input.probe heap s (db.server s).pool.free db
  obtain ⟨⟨found, db'⟩, hr⟩ : ∃ r, r = takeFree input.probe heap s (db.server s).pool.free db := ⟨_, rfl⟩
  rw [← hr] at hmem htaken
  have hpool : ∀ t, ∀ c ∈ pooled db' t, c ∈ pooled db t := fun t c hc => by
    rcases hmem t c hc with hc | ⟨rfl, hc⟩
    · exact hc
    · exact List.mem_append_left _ hc
  cases found with
  | some c =>
    rw [lockSection_reused hr.symm]
    refine ⟨fun _ _ => rfl, fun t d hd => Or.inl (hpool t d hd), ?_⟩
    rintro d ⟨⟩
    exact Or.inl (List.mem_append_left _ (htaken c rfl))
  | none =>
    by_cases hfull : db'.maxConnections ≤ (db'.server s).pool.ncontexts
    · rw [lockSection_waiting hr.symm hfull]
      exact ⟨fun _ _ => rfl, fun t d hd => Or.inl (hpool t d hd), nofun⟩
    · have hkeep : ∀ connected t, pooled (newRcontext input.probe.now false connected s db') t = pooled db' t :=
        fun connected t => by rw [pooled, (newRcontext_only input.probe.now false connected s db').pool, pooled]
      cases hc : input.connected with
      | true =>
        rw [lockSection_created hr.symm hfull hc]
        have hserver : (Function.update heap input.created (newRedisContext
            (newRcontext input.probe.now false true s db') s (input.probe.version input.created) input.probe.now)
              input.created).server = s := by
          rw [Function.update_self]
          rfl
        refine ⟨fun c hc => Function.update_of_ne hc _ _, fun t c hc => ?_, ?_⟩
        · by_cases ht : t = s
          · subst ht
            rw [pooled_setPool, ← List.append_assoc, List.mem_append, List.mem_singleton] at hc
            rcases hc with hc | rfl
            · exact Or.inl (hpool t c (hkeep true t ▸ hc))
            · exact Or.inr ⟨rfl, rfl, hserver⟩
          · rw [pooled_setPool_of_ne _ _ ht, hkeep] at hc
            exact Or.inl (hpool t c hc)
        · rintro c ⟨⟩
          exact Or.inr ⟨rfl, hserver⟩
      | false =>
        rw [lockSection_failed hr.symm hfull hc]
        refine ⟨fun _ _ => rfl, fun t c hc => Or.inl (hpool t c ?_), nofun⟩
        rwa [hkeep] at hc

theorem runSection_evolves (probe : Probe) (connected : Bool) (s : ServerId) (w : World) :
    Evolves w (runSection probe connected s w).2 := fun hw => by
  have hsame := lockSection_same ⟨probe, connected, w.nextContext⟩ s w.heap w.db
  obtain ⟨hheap, hmem, -⟩ := lockSection_members ⟨probe, connected, w.nextContext⟩ s w.heap w.db
  refine ⟨⟨hw.wellPlaced.same hsame, fun c hc => Nat.lt_succ_of_lt (hw.allocated c hc), fun t c hc => ?_⟩,
    retains_of_same hsame, Nat.le_succ _, fun c hc => congrArg Context.server (hheap c (Nat.ne_of_lt hc))⟩
  rcases hmem t c hc with hc | ⟨rfl, rfl, hserver⟩
  · obtain ⟨hs, hlt⟩ := hw.owner t c hc
    exact ⟨(congrArg Context.server (hheap c (Nat.ne_of_lt hlt))).trans hs, Nat.lt_succ_of_lt hlt⟩
  · exact ⟨hserver, Nat.lt_succ_self _⟩

theorem runSection_context (probe : Probe) (connected : Bool) (s : ServerId) {w : World} (hw : Sound w)
    {c : ContextId} (h : (runSection probe connected s w).1 = .context c) :
    c < (runSection probe connected s w).2.nextContext ∧ ((runSection probe connected s w).2.heap c).server = s := by
  obtain ⟨hheap, -, hcontext⟩ := lockSection_members ⟨probe, connected, w.nextContext⟩ s w.heap w.db
  rcases hcontext c h with hc | ⟨rfl, hserver⟩
  · obtain ⟨hs, hlt⟩ := hw.owner s c hc
    exact ⟨Nat.lt_succ_of_lt hlt, (congrArg Context.server (hheap c (Nat.ne_of_lt hlt))).trans hs⟩
  · exact ⟨Nat.lt_succ_self _, hserver⟩

theorem unlock_evolves (c : ContextId) (w : World) (hc : c < w.nextContext) :
    Evolves w { w with db := unlockSharedRedisContext c w.heap w.db } := fun hw => by
  have hsame : SameRegistry w.db (unlockSharedRedisContext c w.heap w.db) := .setPool _ _ _
  refine ⟨⟨hw.wellPlaced.same hsame, hw.allocated, fun t d hd => ?_⟩, retains_of_same hsame, le_refl _, fun _ _ => rfl⟩
  unfold unlockSharedRedisContext at hd
  by_cases ht : t = (w.heap c).server
  · subst ht
    rw [pooled_setPool, List.append_assoc, List.mem_append, List.mem_append, List.mem_singleton] at hd
    rcases hd with hd | rfl | hd
    · exact hw.owner _ d (List.mem_append_left _ hd)
    · exact ⟨rfl, hc⟩
    · exact hw.owner _ d (List.mem_append_right _ (List.mem_of_mem_erase hd))
  · rw [pooled_setPool_of_ne _ _ ht] at hd
    exact hw.owner t d hd

theorem act_evolves (w : World) (a : PoolAction) : Evolves w (act w a) := fun hw => by
  cases a with
  | lock probe connected s => exact runSection_evolves probe connected s w hw
  | unlock c =>
    unfold act
    dsimp only
    by_cases hc : c ∈ (w.db.server (w.heap c).server).pool.busy
    · rw [if_pos hc]
      exact unlock_evolves c w (hw.owner _ c (List.mem_append_right _ hc)).2 hw
    · rw [if_neg hc]
      exact Evolves.refl w hw
  | fail c => exact Evolves.touch c _ rfl hw

theorem acts_evolve (w : World) (actions : List PoolAction) : Evolves w (actions.foldl act w) := by
  induction actions generalizing w with
  | nil => exact .refl w
  | cons a actions ih => exact (act_evolves w a).trans (ih (act w a))

theorem countBlocked_evolves (w : World) : Evolves w { w with db := countBlocked w.db } := .stats rfl rfl rfl

theorem lockSections_evolves (input : AttemptInput) (s : ServerId) (meanwhile : List (List PoolAction)) (w : World) :
    Evolves w (lockSections input s meanwhile w).1 := by
  induction meanwhile generalizing w with
  | nil =>
    have he := runSection_evolves input.probe input.connected s w
    obtain ⟨⟨locked, w'⟩, hr⟩ : ∃ r, r = runSection input.probe input.connected s w := ⟨_, rfl⟩
    unfold lockSections
    rw [← hr] at he ⊢
    cases locked <;> exact he
  | cons actions rest ih =>
    have he := runSection_evolves input.probe input.connected s w
    obtain ⟨⟨locked, w'⟩, hr⟩ : ∃ r, r = runSection input.probe input.connected s w := ⟨_, rfl⟩
    unfold lockSections
    rw [← hr] at he ⊢
    cases locked with
    | waiting => exact he.trans ((acts_evolve w' actions).trans ((countBlocked_evolves _).trans (ih _)))
    | _ => exact he

theorem lockSections_context (input : AttemptInput) (s : ServerId) (meanwhile : List (List PoolAction)) {w : World}
    (hw : Sound w) {c : ContextId} (h : (lockSections input s meanwhile w).2 = .ok (some c)) :
    c < (lockSections input s meanwhile w).1.nextContext ∧
      ((lockSections input s meanwhile w).1.heap c).server = s := by
  induction meanwhile generalizing w with
  | nil =>
    have hc := fun d => runSection_context input.probe input.connected s hw (c := d)
    obtain ⟨⟨locked, w'⟩, hr⟩ : ∃ r, r = runSection input.probe input.connected s w := ⟨_, rfl⟩
    unfold lockSections at h ⊢
    rw [← hr] at h hc ⊢
    cases locked with
    | context d =>
      cases h
      exact hc c rfl
    | _ => cases h
  | cons actions rest ih =>
    have hc := fun d => runSection_context input.probe input.connected s hw (c := d)
    have he := runSection_evolves input.probe input.connected s w
    obtain ⟨⟨locked, w'⟩, hr⟩ : ∃ r, r = runSection input.probe input.connected s w := ⟨_, rfl⟩
    unfold lockSections at h ⊢
    rw [← hr] at h hc he ⊢
    cases locked with
    | context d =>
      cases h
      exact hc c rfl
    | failed => cases h
    | waiting =>
      have hs := (he.trans ((acts_evolve w' actions).trans (countBlocked_evolves _)) hw).1
      exact ih hs h

theorem evict_evolves {w w' : World} (h : evict w = some w') : Evolves w w' := fun hw => by
  unfold evict at h
  by_cases hfull : w.db.maxConnections ≤ w.task.ncontexts
  · rw [if_pos hfull] at h
    cases hc : w.task.contexts with
    | nil => rw [hc] at h; cases h
    | cons c rest =>
      rw [hc] at h
      cases h
      refine ⟨⟨hw.wellPlaced.same (.setStats w.db _ rfl rfl rfl), fun d hd => hw.allocated d ?_, hw.owner⟩,
        retains_of_same (.setStats w.db _ rfl rfl rfl), le_refl _, fun _ _ => rfl⟩
      rw [hc]
      exact List.mem_cons_of_mem c hd
  · rw [if_neg hfull] at h
    cases h
    exact Evolves.refl w hw

theorem newRcontext_grows {db : Db} (h : WellPlaced db) (now : ℤ) (ephemeral connected : Bool) (s : ServerId) :
    Grows db (newRcontext now ephemeral connected s db) :=
  .of_same (newRcontext_only now ephemeral connected s db).same (newRcontext_only now ephemeral connected s db).pool h

theorem createPrivate_evolves (input : AttemptInput) (s : ServerId) (w : World) :
    Evolves w (createPrivate input s w).2 := fun hw => by
  unfold createPrivate
  by_cases hc : input.connected = true
  · have hg := newRcontext_grows hw.wellPlaced input.probe.now false input.connected s
    obtain ⟨hg', hlater⟩ := Evolves.grow (fun _ => hg) hw
    simp only [if_pos hc]
    refine ⟨⟨hg.wellPlaced, fun d hd => ?_, fun t d hd => ?_⟩, hg.retains, Nat.le_succ _,
      fun d hd => congrArg Context.server (Function.update_of_ne (Nat.ne_of_lt hd) _ _)⟩
    · rcases List.mem_append.mp hd with hd | hd
      · exact Nat.lt_succ_of_lt (hw.allocated d hd)
      · exact Nat.lt_succ_of_le (Nat.le_of_eq (List.mem_singleton.mp hd))
    · obtain ⟨ho, hlt⟩ := hg'.owner t d hd
      exact ⟨(congrArg Context.server (Function.update_of_ne (Nat.ne_of_lt hlt) _ _)).trans ho, Nat.lt_succ_of_lt hlt⟩
  · simp only [if_neg hc]
    exact Evolves.grow (fun h => newRcontext_grows h _ _ _ _) hw

theorem createPrivate_context {input : AttemptInput} {s : ServerId} {w : World} {c : ContextId}
    (h : (createPrivate input s w).1 = some c) :
    c < (createPrivate input s w).2.nextContext ∧ ((createPrivate input s w).2.heap c).server = s := by
  unfold createPrivate at h ⊢
  by_cases hc : input.connected = true
  · simp only [if_pos hc] at h ⊢
    cases h
    refine ⟨Nat.lt_succ_self _, ?_⟩
    rw [Function.update_self]
    rfl
  · simp only [if_neg hc] at h
    cases h

/-- What a plan may name: contexts of the task, and nothing but the given server if one is given. -/
structure Planned (w : World) (server : Option ServerId) (plan : Plan) : Prop where
  contexts : ∀ c ∈ plan.contexts, c ∈ w.task.contexts
  context : ∀ c ∈ plan.contexts, ∀ s ∈ server, (w.heap c).server = s
  servers : ∀ t ∈ plan.servers, ∀ s ∈ server, t = s

theorem planExecution_planned {input : PlanInput} {maxSize : ℕ} {server : Option ServerId} {master : Bool} {slot : ℕ}
    {w : World} {task : Task} {db : Db} {plan : Option Plan}
    (h : planExecution input w.heap maxSize server master slot w.task w.db = .ok (plan, task, db)) :
    (∀ c ∈ task.contexts, c ∈ w.task.contexts) ∧ ∀ p ∈ plan, Planned w server p := by
  rcases planExecution_cases h with ⟨-, rfl, rfl, -⟩ | ⟨-, p, rfl, ⟨s, rfl, hp⟩ | ⟨rfl, hp⟩⟩
  · exact ⟨fun _ hc => hc, nofun⟩
  · obtain ⟨hc, -, -, hservers⟩ := populateSimpleExecutionPlan_spec hp
    refine ⟨fun c => hc.subset, ?_⟩
    rintro q ⟨⟩
    refine ⟨fun c hm => (hc.mem hm).1, ?_, ?_⟩
    · rintro c hm t ⟨⟩
      have := (hc.mem hm).2
      simp only [suitableForServer, decide_eq_true_eq] at this
      exact this.2
    · rintro t ht u ⟨⟩
      rcases hservers with ⟨-, -, hs⟩ | ⟨-, hs⟩ <;> rw [hs] at ht
      · exact List.mem_singleton.mp ht
      · exact absurd ht List.not_mem_nil
  · obtain ⟨dbc, hc, -⟩ := populateExecutionPlan_spec hp
    refine ⟨fun c => hc.subset, ?_⟩
    rintro q ⟨⟩
    exact ⟨fun c hm => (hc.mem hm).1, fun _ _ => nofun, fun _ _ => nofun⟩

theorem planned_evolves {input : PlanInput} {maxSize : ℕ} {server : Option ServerId} {master : Bool} {slot : ℕ}
    {w : World} {task : Task} {db : Db} {plan : Option Plan}
    (h : planExecution input w.heap maxSize server master slot w.task w.db = .ok (plan, task, db)) :
    Evolves w { w with task := task, db := db } := fun hw => by
  obtain ⟨hs, hl⟩ := Evolves.grow (fun hw => planExecution_grows h hw) hw
  exact ⟨⟨hs.wellPlaced, fun c hc => hw.allocated c ((planExecution_planned h).1 c hc), hs.owner⟩, hl.retains,
    hl.nextContext, hl.server⟩

theorem Sound.idle {db : Db} (h : WellPlaced db) (hp : ∀ s, (db.server s).pool = .empty) :
    Sound (ClusterExecution.idleWorld db) := by
  refine ⟨h, fun c hc => absurd hc List.not_mem_nil, fun s c hc => ?_⟩
  unfold pooled at hc
  change c ∈ (db.server s).pool.free ++ (db.server s).pool.busy at hc
  rw [hp] at hc
  exact absurd hc List.not_mem_nil

theorem masters_sound : Sound (ClusterExecution.idleWorld DiscoveryWalk.masters) :=
  .idle DiscoveryWalk.masters_fresh.1 DiscoveryWalk.masters_fresh.2

end VmodRedis.Execution
