import VmodRedis.SicknessFlags

namespace VmodRedis.SicknessFlags

open CStrings Replies Database Connections Registry RegistryInvariant Discovery SentinelUpdate TransitionSystem

/-- A database and its open connections. Operations are numbered: `opened` has the one that opened
each connection, and `raised` the last one that raised the flag of each server. -/
structure State where
  db : Db
  heap : Heap
  clock : ℤ
  count : ℕ
  opened : ContextId → Option ℕ
  raised : ServerId → ℕ

def Raises (t0 t1 : ℤ) (v v' : Sickness) : Prop := t1 < v'.exp ∧ (v'.exp ≠ v.exp ∨ t0 ≤ v'.tst)

instance (t0 t1 : ℤ) (v v' : Sickness) : Decidable (Raises t0 t1 v v') := inferInstanceAs (Decidable (_ ∧ _))

def State.after (st : State) (t : ℤ) (db : Db) : State :=
  { st with
    db := db
    clock := t
    count := st.count + 1
    raised := fun s =>
      if Raises st.clock t (st.db.server s).sickness (db.server s).sickness then st.count + 1 else st.raised s }

def State.openContext (st : State) (c : ContextId) (s : ServerId) (version : ℕ) : State :=
  { st.after st.clock (newRcontext st.clock false true s st.db) with
    heap := Function.update st.heap c (newRedisContext st.db s version st.clock)
    opened := Function.update st.opened c (some (st.count + 1)) }

abbrev Rule := State → List Discovered → (Bucket → ServerId → ℤ) → Prop

/-- The operations on a database, each with the clock that it reads while it runs. The last step
stands for the sections of any other function: they leave servers and flags alone. -/
inductive Step (rule : Rule) : State → State → Prop
  | tick (st : State) (t : ℤ) (h : st.clock ≤ t) : Step rule st { st with clock := t }
  | connect (st : State) (s : ServerId) (ephemeral connected : Bool) (hs : st.db.Registered s)
      (hc : connected = false ∨ ephemeral = true) :
      Step rule st (st.after st.clock (newRcontext st.clock ephemeral connected s st.db))
  | connectContext (st : State) (s : ServerId) (version : ℕ) (c : ContextId) (hs : st.db.Registered s)
      (hc : st.opened c = none) : Step rule st (st.openContext c s version)
  | close (st : State) (c : ContextId) : Step rule st { st with opened := Function.update st.opened c none }
  | execute (st : State) (c : ContextId) (err : Bool) :
      Step rule st { st with heap := Function.update st.heap c { st.heap c with err := err } }
  | check (st : State) (p : Probe) (c : ContextId) (hp : p.now = st.clock) :
      Step rule st (st.after st.clock (isValidRedisContext p st.heap st.db c).2)
  | add (st : State) (t : ℤ) (input : AddInput) (rules : List WeightRule) (location : Bytes) (role : Role)
      (hq : input.query.now ∈ Set.Icc st.clock t) (hn : input.now ∈ Set.Icc st.clock t) :
      Step rule st (st.after t (unsafeAddRedisServer input rules location role st.db).2)
  | discover (st : State) (t : ℤ) (clock : ℕ → ℤ) (rules : List WeightRule) (reply : Option Reply) (s : ServerId)
      (hs : st.db.Registered s) (ht : ∀ i, clock i ∈ Set.Icc st.clock t) :
      Step rule st (st.after t (unsafeDiscoverSlotsAux clock rules reply s st.db).2)
  | sentinel (st : State) (t : ℤ) (inventory : List Discovered) (clock : Bucket → ServerId → ℤ)
      (ht : ∀ b s, clock b s ∈ Set.Icc st.clock t) (hrule : rule st inventory clock) :
      Step rule st (st.after t (unsafeUpdateDbs inventory clock st.db))
  | other (st : State) (db : Db) (hsame : SameRegistry st.db db)
      (hsick : ∀ s, (db.server s).sickness = (st.db.server s).sickness) : Step rule st { st with db := db }

def runs (options : Options) (rule : Rule) : System State where
  init st := st.db = newVmodRedisDb options ∧ ∀ c, st.opened c = none
  step := Step rule

def State.Drops (st : State) : Prop :=
  ∀ (p : Probe) (c : ContextId) (k : ℕ), p.now = st.clock → st.opened c = some k → Accepted p st.heap st.db c →
    st.clock < (st.db.server (st.heap c).server).sickness.exp → st.raised (st.heap c).server < k

/-- No Sentinel update flags a server that has an open connection newer than its stamp. -/
def unstamped : Rule := fun st inventory clock =>
  ∀ s, st.db.Registered s → st.db.clusterEnabled = false → ReportsDown inventory (st.db.server s) →
    (∃ b, (st.db.server s).sickness.exp ≤ clock b s) →
      ∀ c k, st.opened c = some k → (st.heap c).server = s → (st.heap c).tst ≤ (st.db.server s).sickness.tst

structure Inv (st : State) : Prop where
  wellPlaced : WellPlaced st.db
  registered : ∀ c k, st.opened c = some k → st.db.Registered (st.heap c).server
  past : ∀ c k, st.opened c = some k → (st.heap c).tst ≤ st.clock
  stale : ∀ c k, st.opened c = some k → k ≤ st.raised (st.heap c).server →
    st.clock < (st.db.server (st.heap c).server).sickness.exp →
      (st.heap c).tst ≤ (st.db.server (st.heap c).server).sickness.tst

theorem Inv.drops {st : State} (h : Inv st) (httl : 0 < st.db.sicknessTtl) : st.Drops := by
  intro p c k _ hc hvalid hflag
  by_contra hlate
  have hfresh := ((accepted_iff p st.heap st.db c).mp hvalid).2.2.2.1 httl
  exact absurd (h.stale c k hc (not_lt.mp hlate) hflag) (not_le.mpr hfresh)

theorem Inv.after {st : State} (h : Inv st) {t : ℤ} {db : Db} (ht : st.clock ≤ t) (hr : Retains st.db db)
    (hw : WellPlaced db)
    (hs : ∀ s, st.db.Registered s → Stamped st.clock t (st.db.server s).sickness (db.server s).sickness ∨
      ∀ c k, st.opened c = some k → (st.heap c).server = s → (st.heap c).tst ≤ (db.server s).sickness.tst) :
    Inv (st.after t db) where
  wellPlaced := hw
  registered c k hc := hr.registered _ (h.registered c k hc)
  past c k hc := (h.past c k hc).trans ht
  stale c k hc hk hflag := by
    have hpast := h.past c k hc
    obtain ⟨s, hserver⟩ : ∃ s, (st.heap c).server = s := ⟨_, rfl⟩
    have hstale := h.stale c k hc
    change k ≤ (st.after t db).raised (st.heap c).server at hk
    change t < (db.server (st.heap c).server).sickness.exp at hflag
    change (st.heap c).tst ≤ (db.server (st.heap c).server).sickness.tst
    rw [hserver] at hk hflag hstale ⊢
    rcases hs s (hserver ▸ h.registered c k hc) with (hsame | hclear | hstamp) | hold
    · change k ≤ if Raises st.clock t (st.db.server s).sickness (db.server s).sickness then st.count + 1
        else st.raised s at hk
      by_cases hraise : Raises st.clock t (st.db.server s).sickness (db.server s).sickness
      · rcases hraise.2 with hexp | hstamp
        · exact absurd (by rw [hsame]) hexp
        · exact hpast.trans hstamp
      · rw [if_neg hraise] at hk
        rw [hsame] at hflag ⊢
        exact hstale hk (ht.trans_lt hflag)
    · exact absurd hclear (not_le.mpr hflag)
    · exact hpast.trans hstamp
    · exact hold c k hc hserver

theorem Inv.stamps {st : State} (h : Inv st) {t : ℤ} {db : Db} (ht : st.clock ≤ t) (hs : Stamps st.clock t st.db db) :
    Inv (st.after t db) :=
  h.after ht hs.retains hs.wellPlaced fun s hr => Or.inl (hs.sickness s hr)

theorem Inv.openContext {st : State} (h : Inv st) {s : ServerId} (hs : st.db.Registered s) (version : ℕ)
    (c : ContextId) : Inv (st.openContext c s version) := by
  have hstamps : Stamps st.clock st.clock st.db (newRcontext st.clock false true s st.db) :=
    newRcontext_stamps h.wellPlaced (Set.right_mem_Icc.mpr le_rfl) false true s
  have hafter := h.stamps le_rfl hstamps
  have hclear : ((newRcontext st.clock false true s st.db).server s).sickness.exp ≤ st.clock :=
    flushSickness_exp st.clock s st.db
  have hreg := (newRcontext_only st.clock false true s st.db).same.registered s
  have hnew : (st.openContext c s version).heap c = newRedisContext st.db s version st.clock :=
    Function.update_self _ _ _
  have hold : ∀ d k, d ≠ c → (st.openContext c s version).opened d = some k →
      (st.after st.clock (newRcontext st.clock false true s st.db)).opened d = some k ∧
        (st.openContext c s version).heap d = st.heap d := by
    intro d k hd hk
    refine ⟨?_, Function.update_of_ne hd _ _⟩
    rw [← hk]
    exact (Function.update_of_ne hd _ _).symm
  constructor
  case wellPlaced => exact hafter.wellPlaced
  case registered =>
    intro d k hk
    by_cases hd : d = c
    · rw [hd, hnew]
      exact hreg.mpr hs
    · obtain ⟨hk', hheap⟩ := hold d k hd hk
      rw [hheap]
      exact hafter.registered d k hk'
  case past =>
    intro d k hk
    by_cases hd : d = c
    · rw [hd, hnew]
      exact le_rfl
    · obtain ⟨hk', hheap⟩ := hold d k hd hk
      rw [hheap]
      exact hafter.past d k hk'
  case stale =>
    intro d k hk
    by_cases hd : d = c
    · rw [hd, hnew]
      exact fun _ hflag => absurd hclear (not_le.mpr hflag)
    · obtain ⟨hk', hheap⟩ := hold d k hd hk
      rw [hheap]
      exact hafter.stale d k hk'

theorem Inv.close {st : State} (h : Inv st) (c : ContextId) :
    Inv { st with opened := Function.update st.opened c none } := by
  have hold : ∀ d k, Function.update st.opened c none d = some k → st.opened d = some k := by
    intro d k hk
    by_cases hd : d = c
    · rw [hd, Function.update_self] at hk
      exact absurd hk (by simp)
    · rwa [Function.update_of_ne hd] at hk
  exact ⟨h.wellPlaced, fun d k hk => h.registered d k (hold d k hk), fun d k hk => h.past d k (hold d k hk),
    fun d k hk => h.stale d k (hold d k hk)⟩

theorem Inv.setHeap {st : State} (h : Inv st) {heap : Heap} (hserver : ∀ c, (heap c).server = (st.heap c).server)
    (htst : ∀ c, (heap c).tst = (st.heap c).tst) : Inv { st with heap := heap } where
  wellPlaced := h.wellPlaced
  registered c k hc := by
    rw [hserver]
    exact h.registered c k hc
  past c k hc := by
    rw [htst]
    exact h.past c k hc
  stale c k hc := by
    rw [htst, hserver]
    exact h.stale c k hc

theorem Step.inv {st st' : State} (hs : Step unstamped st st') (h : Inv st) : Inv st' := by
  cases hs with
  | tick t ht =>
    exact ⟨h.wellPlaced, h.registered, fun c k hc => (h.past c k hc).trans ht,
      fun c k hc hk hflag => h.stale c k hc hk (ht.trans_lt hflag)⟩
  | connect s ephemeral connected hs hc =>
    exact h.stamps le_rfl (newRcontext_stamps h.wellPlaced (Set.right_mem_Icc.mpr le_rfl) ephemeral connected s)
  | connectContext s version c hs hc => exact h.openContext hs version c
  | close c => exact h.close c
  | execute c err =>
    have hsame : ∀ {α : Type} (f : Context → α) (d : ContextId), f { st.heap c with err := err } = f (st.heap c) →
        f (Function.update st.heap c { st.heap c with err := err } d) = f (st.heap d) := by
      intro α f d hf
      by_cases hd : d = c
      · rw [hd, Function.update_self]
        exact hf
      · rw [Function.update_of_ne hd]
    exact h.setHeap (fun d => hsame Context.server d rfl) fun d => hsame Context.tst d rfl
  | check p c hp =>
    have hsame := isValidRedisContext_same p st.heap st.db c
    have hserver := isValidRedisContext_server p st.heap st.db c
    refine h.after le_rfl (retains_of_same hsame) (h.wellPlaced.same hsame) fun s _ => Or.inl (Or.inl ?_)
    rw [hserver]
  | add t input rules location role hq hn =>
    exact h.stamps (hn.1.trans hn.2) (unsafeAddRedisServer_stamps h.wellPlaced hn.2 rules location role)
  | discover t clock rules reply s hs ht =>
    exact h.stamps ((ht 0).1.trans (ht 0).2) (unsafeDiscoverSlotsAux_stamps h.wellPlaced ht rules reply s)
  | sentinel t inventory clock ht hrule =>
    obtain ⟨hr, hw⟩ := unsafeUpdateDbs_spec h.wellPlaced inventory clock
    have hlate : st.clock ≤ t := (ht (0, .tbd) 0).1.trans (ht (0, .tbd) 0).2
    refine h.after hlate hr hw fun s hs => ?_
    obtain ⟨htst, hstamp | ⟨hc, hdown, hexp⟩⟩ := unsafeUpdateDbs_sickness h.wellPlaced inventory ht hs
    · exact Or.inl hstamp
    · refine Or.inr ?_
      rw [htst]
      exact hrule s hs hc hdown hexp
  | other db hsame hsick =>
    refine ⟨h.wellPlaced.same hsame, fun c k hc => (hsame.registered _).mpr (h.registered c k hc), h.past, ?_⟩
    intro c k hc hk hflag
    dsimp only at hflag ⊢
    rw [hsick] at hflag ⊢
    exact h.stale c k hc hk hflag

theorem Step.options {st st' : State} {rule : Rule} (hs : Step rule st st') (hw : WellPlaced st.db) :
    st'.db.toOptions = st.db.toOptions := by
  cases hs with
  | tick | close | execute => rfl
  | connect s ephemeral connected hs hc => exact (newRcontext_only _ ephemeral connected s st.db).same.options
  | connectContext s version c hs hc => exact (newRcontext_only _ false true s st.db).same.options
  | check p c hp => exact (isValidRedisContext_same p st.heap st.db c).options
  | add t input rules location role hq hn => exact (unsafeAddRedisServer_retains hw input rules location role).options
  | discover t clock rules reply s hs ht => exact (unsafeDiscoverSlotsAux_retains hw clock rules reply s).1.options
  | sentinel t inventory clock ht hrule => exact (unsafeUpdateDbs_spec hw inventory clock).1.options
  | other db hsame hsick => exact hsame.options

theorem reachable_inv {options : Options} {st : State} (hr : (runs options unstamped).Reachable st) :
    Inv st ∧ st.db.toOptions = options := by
  refine System.invariant (P := fun st => Inv st ∧ st.db.toOptions = options) ?_ ?_ hr
  · rintro st ⟨hdb, hopened⟩
    have hnone : ∀ c k, st.opened c ≠ some k := fun c k hc => by
      rw [hopened] at hc
      exact absurd hc (by simp)
    refine ⟨⟨?_, fun c k hc => absurd hc (hnone c k), fun c k hc => absurd hc (hnone c k),
      fun c k hc => absurd hc (hnone c k)⟩, ?_⟩
    · rw [hdb]
      exact newVmodRedisDb_wellPlaced options
    · rw [hdb]
      rfl
  · intro st st' _ h hs
    exact ⟨hs.inv h.1, (hs.options h.1.wellPlaced).trans h.2⟩

/-- In a run in which Sentinel flags no server with connections newer than its last stamp, raising a
flag makes all older connections be dropped. -/
theorem sick_connections_dropped {options : Options} (httl : 0 < options.sicknessTtl) {st : State}
    (hr : (runs options unstamped).Reachable st) : st.Drops := by
  obtain ⟨hinv, hoptions⟩ := reachable_inv hr
  refine hinv.drops ?_
  rw [show st.db.sicknessTtl = options.sicknessTtl from congrArg Options.sicknessTtl hoptions]
  exact httl

def monitored : Options := ⟨0, 0, 0, true, 1, .off, 30, false, false, 0⟩

def blank : State := ⟨newVmodRedisDb monitored, fun _ => ⟨0, 0, false, 0, 0⟩, 0, 0, fun _ => none, fun _ => 0⟩

def served : State :=
  { blank.after 0 (unsafeAddRedisServer ⟨⟨0, true, none⟩, 0⟩ [] (bytes "a:1") .master blank.db).2 with
    clock := 10 }.openContext 0 0 0

theorem served_reachable (rule : Rule) : (runs monitored rule).Reachable served := by
  have h0 : (runs monitored rule).Reachable blank := System.reachable_init ⟨rfl, fun _ => rfl⟩
  have h1 := h0.step (.add blank 0 ⟨⟨0, true, none⟩, 0⟩ [] (bytes "a:1") .master (by decide) (by decide))
  have h2 := h1.step (.tick _ 10 (by decide))
  exact h2.step (.connectContext _ 0 0 0 ⟨(3, .master), by decide +kernel⟩ rfl)

theorem sick_connection_kept :
    ¬ ∀ options st, 0 < options.sicknessTtl → (runs options fun _ _ _ => True).Reachable st → st.Drops := by
  intro h
  have h1 := (served_reachable fun _ _ _ => True).step (.tick served 20 (by decide))
  have h2 := h1.step (.sentinel _ 20 [⟨bytes "a", 1, .master, true⟩] (fun _ _ => 20) (fun _ _ => by decide) trivial)
  have hkept := h monitored _ (by decide) h2 ⟨20, fun _ => 0, fun _ => false⟩ 0 2 rfl rfl (by decide +kernel) (by decide +kernel)
  exact absurd hkept (by decide +kernel)

theorem sick_connections_dropped_failed : ∃ st : State, st.clock < (st.db.server 0).sickness.exp ∧
    st.opened 0 = some 2 ∧ st.Drops := by
  have h1 := (served_reachable unstamped).step (.tick served 20 (by decide))
  have h2 := h1.step (.connect _ 0 false false ⟨(3, .master), by decide +kernel⟩ (Or.inl rfl))
  exact ⟨_, by decide +kernel, rfl, sick_connections_dropped (by decide) h2⟩

end VmodRedis.SicknessFlags
