import VmodRedis.SharedPoolWorkers

namespace VmodRedis.SharedPool

open Database Connections TransitionSystem

/-- A section of `lock_shared_redis_context` at the moment `time`, and what it finds: the probe has the
clock that the worker read on entry, and `waited` is the last moment at which it began to wait. -/
structure Section where
  server : ServerId
  input : LockInput
  heap : Heap
  db : Db
  time : ℤ
  version : ℕ
  waited : ℤ

def Section.result (g : Section) : Locked × Heap × Db := lockSection g.input g.server g.heap g.db

/-- The workers of a database, with the clock, `vmod_state.version`, the workers that have read the
clock and wait for the mutex, and the sections executed so far. -/
structure Timed (ι : Type) where
  base : State ι
  clock : ℤ
  version : ℕ
  entering : ι → Option (ServerId × ℤ)
  waited : ι → ℤ
  sections : List Section

variable {ι : Type} [DecidableEq ι]

def Timed.enter (st : Timed ι) (w : ι) (s : ServerId) (input : LockInput) (db : Db) (ws' : ι → Worker) : Timed ι :=
  { st with
    base := ⟨(lockSection input s st.base.heap db).2.2, (lockSection input s st.base.heap db).2.1, ws'⟩
    entering := Function.update st.entering w none
    waited := match (lockSection input s st.base.heap db).1 with
      | .waiting => Function.update st.waited w st.clock
      | _ => st.waited
    sections := ⟨s, input, st.base.heap, db, st.clock, st.version, st.waited w⟩ :: st.sections }

/-- The sections of `Step` between ticks of the clock. A worker reads the clock when it arrives, and
begins to wait for the mutex then or later. -/
inductive TimedStep : Timed ι → Timed ι → Prop
  | tick (st : Timed ι) (t : ℤ) (h : st.clock ≤ t) : TimedStep st { st with clock := t }
  | warm (st : Timed ι) : TimedStep st { st with version := st.version + 1 }
  | arrive (st : Timed ι) (w : ι) (s : ServerId) (hw : st.base.workers w = .idle) (he : st.entering w = none) :
      TimedStep st { st with
        entering := Function.update st.entering w (some (s, st.clock))
        waited := Function.update st.waited w st.clock }
  | block (st : Timed ι) (w : ι) (hw : ∀ c, st.base.workers w ≠ .holding c) :
      TimedStep st { st with waited := Function.update st.waited w st.clock }
  | lock (st : Timed ι) (w : ι) (s : ServerId) (input : LockInput) (ws' : ι → Worker)
      (hn : st.entering w = some (s, input.probe.now)) (hv : ∀ c, input.probe.version c = st.version)
      (hw : st.base.workers w = .idle) (hf : Fresh st.base.db input.created)
      (he : Entered s input.probe.now w st.base.workers (lockSection input s st.base.heap st.base.db).1 ws') :
      TimedStep st (st.enter w s input st.base.db ws')
  | resume (st : Timed ι) (w : ι) (s : ServerId) (input : LockInput) (ws' : ι → Worker)
      (hv : ∀ c, input.probe.version c = st.version)
      (hw : st.base.workers w = .signalled s input.probe.now ∨ st.base.workers w = .waiting s input.probe.now)
      (hf : Fresh st.base.db input.created)
      (he : Entered s input.probe.now w st.base.workers
        (lockSection input s st.base.heap (countBlocked st.base.db)).1 ws') :
      TimedStep st (st.enter w s input (countBlocked st.base.db) ws')
  | execute (st : Timed ι) (w : ι) (c : ContextId) (err : Bool) (hw : st.base.workers w = .holding c) :
      TimedStep st { st with base := { st.base with
        heap := Function.update st.base.heap c { st.base.heap c with err := err } } }
  | unlock (st : Timed ι) (w : ι) (c : ContextId) (ws' : ι → Worker) (hw : st.base.workers w = .holding c)
      (hs : Signal (st.base.heap c).server (Function.update st.base.workers w .idle) ws') :
      TimedStep st { st with base := ⟨unlockSharedRedisContext c st.base.heap st.base.db, st.base.heap, ws'⟩ }
  | other (st : Timed ι) (db : Db) (ho : db.toOptions = st.base.db.toOptions)
      (hp : ∀ s, pool db s = pool st.base.db s) : TimedStep st { st with base := { st.base with db := db } }

def timed (ι : Type) [DecidableEq ι] (limit : ℕ) : System (Timed ι) where
  init st := (workers ι limit).init st.base ∧ (∀ w, st.entering w = none) ∧ st.sections = []
  step := TimedStep

theorem TimedStep.base {st st' : Timed ι} (hs : TimedStep st st') : st'.base = st.base ∨ Step st.base st'.base := by
  cases hs with
  | tick => exact Or.inl rfl
  | warm => exact Or.inl rfl
  | arrive => exact Or.inl rfl
  | block => exact Or.inl rfl
  | lock w s input ws' hn hv hw hf he => exact Or.inr (.lock st.base w s input ws' hw hf he)
  | resume w s input ws' hv hw hf he => exact Or.inr (.resume st.base w s input ws' hw hf he)
  | execute w c err hw => exact Or.inr (.execute st.base w c err hw)
  | unlock w c ws' hw hs => exact Or.inr (.unlock st.base w c ws' hw hs)
  | other db ho hp => exact Or.inr (.other st.base db ho hp)

def timedRefinement (ι : Type) [DecidableEq ι] (limit : ℕ) : Refinement (timed ι limit) (workers ι limit) where
  abs := Timed.base
  init _ h := h.1
  step st st' _ hs := by
    rcases hs.base with he | he
    · rw [he]
    · exact .single he

structure SameChecks (db db' : Db) : Prop where
  options : db'.toOptions = db.toOptions
  sickness : ∀ s, (db'.server s).sickness = (db.server s).sickness

theorem SameChecks.accepted {db db' : Db} (h : SameChecks db db') (p : Probe) (heap : Heap) (c : ContextId) :
    Accepted p heap db' c ↔ Accepted p heap db c := by
  have httl : db'.connectionTtl = db.connectionTtl := congrArg Options.connectionTtl h.options
  have hsick : db'.sicknessTtl = db.sicknessTtl := congrArg Options.sicknessTtl h.options
  rw [accepted_iff, accepted_iff, httl, hsick, h.sickness]

theorem SameChecks.setPool (db : Db) (s : ServerId) (p : Pool) : SameChecks db (db.setPool s p) where
  options := rfl
  sickness t := by
    by_cases ht : t = s
    · subst ht
      simp [Db.setPool]
    · rw [setPool_of_ne db p ht]

theorem SameChecks.trans {a b c : Db} (h : SameChecks a b) (h' : SameChecks b c) : SameChecks a c :=
  ⟨h'.options.trans h.options, fun s => (h'.sickness s).trans (h.sickness s)⟩

theorem isValidRedisContext_checks (p : Probe) (heap : Heap) (db : Db) (c : ContextId) :
    SameChecks db (isValidRedisContext p heap db c).2 :=
  ⟨(isValidRedisContext_same p heap db c).options, fun s => by rw [isValidRedisContext_server]⟩

def firstValid (p : Probe) (heap : Heap) (db : Db) (l : List ContextId) : Option ContextId :=
  l.find? fun c => decide (Accepted p heap db c)

theorem firstValid_congr {db db' : Db} (h : SameChecks db db') (p : Probe) (heap : Heap) (l : List ContextId) :
    firstValid p heap db' l = firstValid p heap db l := by
  unfold firstValid
  congr 1
  funext c
  exact decide_eq_decide.mpr (h.accepted p heap c)

theorem takeFree_first (p : Probe) (heap : Heap) (s : ServerId) (queue : List ContextId) (db : Db) :
    (takeFree p heap s queue db).1 = firstValid p heap db queue := by
  induction queue generalizing db with
  | nil => rfl
  | cons c queue ih =>
    have htaken : SameChecks db (db.setPool s _) := .setPool db s
      { (db.server s).pool with free := queue, busy := (db.server s).pool.busy ++ [c] }
    have hsame : SameChecks db (checkFree p heap s c queue db).2 :=
      htaken.trans (isValidRedisContext_checks p heap _ c)
    have hv : (checkFree p heap s c queue db).1 = true ↔ Accepted p heap db c :=
      (isValidRedisContext_iff p heap _ c).trans (htaken.accepted p heap c)
    unfold firstValid
    rw [takeFree_cons]
    by_cases ha : Accepted p heap db c
    · rw [if_pos (hv.mpr ha), List.find?_cons_of_pos (by simpa using ha)]
    · rw [if_neg (hv.not.mpr ha), List.find?_cons_of_neg (by simpa using ha), ih]
      exact firstValid_congr (hsame.trans (.setPool _ s _)) p heap queue

theorem lockSection_locked (input : LockInput) (s : ServerId) (heap : Heap) (db : Db)
    (h : Pool.Ok db.maxConnections (db.server s).pool) :
    (lockSection input s heap db).1 =
      match firstValid input.probe heap db (db.server s).pool.free with
      | some c => .context c
      | none =>
        if db.maxConnections ≤ (db.server s).pool.busy.length then .waiting
        else if input.connected then .context input.created else .failed := by
  obtain ⟨-, hcases⟩ := takeFree_spec input.probe heap s (db.server s).pool.free db
    (db.server s).pool.ncontexts (db.server s).pool.busy rfl h.free_not_busy
  have hsame := takeFree_same input.probe heap s (db.server s).pool.free db
  rw [← takeFree_first input.probe heap s (db.server s).pool.free db]
  obtain ⟨⟨found, db'⟩, hr⟩ : ∃ r, r = takeFree input.probe heap s (db.server s).pool.free db := ⟨_, rfl⟩
  rw [← hr] at hsame hcases ⊢
  rcases hcases with ⟨rfl, hpool⟩ | ⟨dropped, c, rest, -, rfl, -⟩
  · have hmax : db'.maxConnections = db.maxConnections := congrArg Options.maxConnections hsame.options
    have hcount : (db'.server s).pool.ncontexts = (db.server s).pool.busy.length := by
      have hn := h.ncontexts
      rw [hpool]
      change (db.server s).pool.ncontexts - (db.server s).pool.free.length = _
      omega
    dsimp only
    rw [← hmax, ← hcount]
    by_cases hfull : db'.maxConnections ≤ (db'.server s).pool.ncontexts
    · rw [lockSection_waiting hr.symm hfull, if_pos hfull]
    · rw [if_neg hfull]
      cases hc : input.connected with
      | true =>
        rw [lockSection_created hr.symm hfull hc]
        rfl
      | false =>
        rw [lockSection_failed hr.symm hfull hc]
        rfl
  · rw [lockSection_reused hr.symm]

structure Section.Ok (g : Section) : Prop where
  pool : Pool.Ok g.db.maxConnections (g.db.server g.server).pool
  fresh : g.input.created ∉ (g.db.server g.server).pool.free
  version : ∀ c, g.input.probe.version c = g.version

/-- A context out of the free list is as good as the documentation says, and a new one is stamped
no earlier than the last wait. -/
def Section.Meets (g : Section) : Prop :=
  ∀ c, g.result.1 = .context c →
    (c ∈ (g.db.server g.server).pool.free → (g.heap c).err = false ∧ (g.heap c).version = g.version ∧
      (0 < g.db.connectionTtl → g.time - (g.heap c).tst ≤ g.db.connectionTtl)) ∧
    (c ∉ (g.db.server g.server).pool.free → g.waited ≤ (g.result.2.1 c).tst)

def Section.Timely (g : Section) : Prop :=
  match firstValid g.input.probe g.heap g.db (g.db.server g.server).pool.free with
  | some c => Accepted { g.input.probe with now := g.time } g.heap g.db c
  | none =>
    (g.db.server g.server).pool.busy.length < g.db.maxConnections → g.input.connected →
      g.waited ≤ g.input.probe.now

theorem Outcome.created_tst {input : LockInput} {s : ServerId} {db : Db} {heap heap' : Heap} {p p' : Pool}
    (h : Outcome input s db heap p (.context input.created) heap' p') (hfresh : input.created ∉ p.free) :
    (heap' input.created).tst = input.probe.now := by
  generalize hlocked : Locked.context input.created = locked at h
  cases h with
  | reuse c dropped rest hfree =>
    obtain rfl : input.created = c := by injection hlocked
    exact absurd (by rw [hfree]; simp) hfresh
  | create hroom => simp [newRedisContext]
  | wait hfull => cases hlocked
  | fail hroom => cases hlocked

theorem Section.Ok.created {g : Section} (h : g.Ok) (hc : g.result.1 = .context g.input.created) :
    (g.result.2.1 g.input.created).tst = g.input.probe.now := by
  have hout := (lockSection_spec g.input g.server g.heap g.db h.pool).2.2
  unfold Section.result at hc ⊢
  rw [hc] at hout
  exact hout.created_tst h.fresh

theorem Section.meets_iff {g : Section} (h : g.Ok) : g.Meets ↔ g.Timely := by
  have hlocked := lockSection_locked g.input g.server g.heap g.db h.pool
  unfold Section.Timely
  rcases hfirst : firstValid g.input.probe g.heap g.db (g.db.server g.server).pool.free with _ | c
  · rw [hfirst] at hlocked
    dsimp only at hlocked ⊢
    constructor
    · intro hmeets hroom hconnected
      rw [if_neg (not_le.mpr hroom), if_pos hconnected] at hlocked
      rw [← h.created hlocked]
      exact (hmeets _ hlocked).2 h.fresh
    · intro htimely c hc
      have hwhole := hlocked.symm.trans hc
      split_ifs at hwhole with hfull hconnected
      obtain rfl : g.input.created = c := by injection hwhole
      refine ⟨fun hfree => absurd hfree h.fresh, fun _ => ?_⟩
      rw [h.created hc]
      exact htimely (not_le.mp hfull) hconnected
  · have hvalid : Accepted g.input.probe g.heap g.db c := by simpa using List.find?_some hfirst
    have hfree : c ∈ (g.db.server g.server).pool.free := List.mem_of_find?_eq_some hfirst
    rw [hfirst] at hlocked
    dsimp only at hlocked ⊢
    obtain ⟨herr, hversion, -, hsick, hhup⟩ := (accepted_iff _ _ _ _).mp hvalid
    constructor
    · intro hmeets
      obtain ⟨-, -, httl⟩ := (hmeets c hlocked).1 hfree
      exact (accepted_iff _ _ _ _).mpr ⟨herr, hversion, httl, hsick, hhup⟩
    · intro htimely d hd
      obtain rfl : c = d := by
        have hwhole := hlocked.symm.trans hd
        injection hwhole
      refine ⟨fun _ => ⟨herr, hversion.trans (h.version c), ?_⟩, fun hn => absurd hfree hn⟩
      exact ((accepted_iff _ _ _ _).mp htimely).2.2.1

theorem Fresh.not_free {db : Db} {c : ContextId} (h : Fresh db c) (s : ServerId) : c ∉ (db.server s).pool.free :=
  fun hc => h s (List.mem_append_left _ hc)

theorem timed_inv {limit : ℕ} {st : Timed ι} (hr : (timed ι limit).Reachable st) : Inv st.base :=
  reachable_inv ((timedRefinement ι limit).reachable hr)

theorem sections_ok {limit : ℕ} {st : Timed ι} (hr : (timed ι limit).Reachable st) :
    ∀ g ∈ st.sections, g.Ok := by
  refine System.invariant (P := fun st => ∀ g ∈ st.sections, Section.Ok g) ?_ ?_ hr
  · intro st hi g hg
    rw [hi.2.2] at hg
    exact absurd hg List.not_mem_nil
  · intro st st' hr ih hs
    have hinv := timed_inv hr
    cases hs with
    | lock w s input ws' hn hv hw hf he =>
      rintro g (_ | ⟨_, hg⟩)
      · exact ⟨hinv.ok s, hf.not_free s, hv⟩
      · exact ih g hg
    | resume w s input ws' hv hw hf he =>
      rintro g (_ | ⟨_, hg⟩)
      · exact ⟨hinv.ok s, hf.not_free s, hv⟩
      · exact ih g hg
    | _ => exact ih

/-- In every run, the sections that return a context as good as promised are those for which the
clock read on entry still decides as the clock of the section itself does. -/
theorem lifetime_kept_iff {limit : ℕ} {st : Timed ι} (hr : (timed ι limit).Reachable st) :
    (∀ g ∈ st.sections, g.Meets) ↔ ∀ g ∈ st.sections, g.Timely := by
  have hok := sections_ok hr
  constructor
  · intro h g hg
    exact (Section.meets_iff (hok g hg)).mp (h g hg)
  · intro h g hg
    exact (Section.meets_iff (hok g hg)).mpr (h g hg)

omit [DecidableEq ι] in
theorem Inv.fresh_lockSection {st : State ι} (h : Inv st) (input : LockInput) (s : ServerId) {c : ContextId}
    (hf : Fresh st.db c) (hne : c ≠ input.created) : Fresh (lockSection input s st.heap st.db).2.2 c := by
  obtain ⟨-, hothers, hout⟩ := lockSection_spec input s st.heap st.db (h.ok s)
  intro t hc
  by_cases ht : t = s
  · subst ht
    rcases hout.mem hc with hold | hlocked
    · exact hf t hold
    · rw [hlocked] at hout
      rcases hout.context_source with hfree | he
      · exact hf t (List.mem_append_left _ hfree)
      · exact hne he
  · rw [show pool (lockSection input s st.heap st.db).2.2 t = pool st.db t from
      congrArg Server.pool (hothers t ht)] at hc
    exact hf t hc

theorem Fresh.unlock {db : Db} {heap : Heap} {c d : ContextId} (h : Fresh db c) (hne : c ≠ d) :
    Fresh (unlockSharedRedisContext d heap db) c := by
  intro t hc
  by_cases ht : t = (heap d).server
  · subst ht
    rw [pool, unlockSharedRedisContext, setPool_pool, List.mem_append, List.mem_append, List.mem_singleton] at hc
    rcases hc with (hfree | he) | hbusy
    · exact h _ (List.mem_append_left _ hfree)
    · exact hne he
    · exact h _ (List.mem_append_right _ (List.mem_of_mem_erase hbusy))
  · rw [pool, unlockSharedRedisContext, setPool_of_ne _ _ ht] at hc
    exact h t hc

def calm : Timed Bool where
  base := ⟨newVmodRedisDb ⟨0, 10, 0, true, 1, .off, 0, false, false, 0⟩, fun _ => ⟨0, 0, false, 0, 0⟩, fun _ => .idle⟩
  clock := 0
  version := 0
  entering _ := none
  waited _ := 0
  sections := []

def input (now : ℤ) (c : ContextId) : LockInput := ⟨⟨now, fun _ => 0, fun _ => false⟩, true, c⟩

theorem lifetime_not_kept : ¬ ∀ (limit : ℕ) (st : Timed Bool), (timed Bool limit).Reachable st →
    ∀ g ∈ st.sections, g.Meets := by
  intro h
  have h0 : (timed Bool 1).Reachable calm :=
    System.reachable_init ⟨⟨rfl, fun _ => rfl, fun _ => rfl⟩, fun _ => rfl, rfl⟩
  have f0 : ∀ c, Fresh calm.base.db c := fun _ _ => List.not_mem_nil
  have h1 := h0.step (.arrive calm true 0 rfl rfl)
  have h2 := h1.step (.lock _ true 0 (input 0 0) _ rfl (fun _ => rfl) rfl (f0 0) (.context 0))
  have f2 := fun c (hc : c ≠ 0) => (timed_inv h1).fresh_lockSection (input 0 0) 0 (f0 c) hc
  have h3 := h2.step (.tick _ 5 (by decide))
  have h4 := h3.step (.arrive _ false 0 rfl rfl)
  have h5 := h4.step (.lock _ false 0 (input 5 1) _ rfl (fun _ => rfl) rfl (f2 1 (by decide)) .waiting)
  have f5 := (timed_inv h4).fresh_lockSection (input 5 1) 0 (f2 2 (by decide)) (by decide)
  have h6 := h5.step (.tick _ 100 (by decide))
  have h7 := h6.step (.unlock _ true 0 _ rfl (.wake false 5 rfl))
  have h8 := h7.step (.resume _ false 0 (input 5 2) _ (fun _ => rfl) (Or.inl rfl) (f5.unlock (by decide)) (.context 0))
  have hold := ((h 1 _ h8 _ List.mem_cons_self 0 rfl).1 (by decide)).2.2 (by decide)
  exact absurd hold (by decide)

theorem lifetime_kept_reused : ∃ st : Timed Bool, st.sections.length = 2 ∧ ∀ g ∈ st.sections, g.Meets := by
  have h0 : (timed Bool 1).Reachable calm :=
    System.reachable_init ⟨⟨rfl, fun _ => rfl, fun _ => rfl⟩, fun _ => rfl, rfl⟩
  have f0 : ∀ c, Fresh calm.base.db c := fun _ _ => List.not_mem_nil
  have h1 := h0.step (.arrive calm true 0 rfl rfl)
  have h2 := h1.step (.lock _ true 0 (input 0 0) _ rfl (fun _ => rfl) rfl (f0 0) (.context 0))
  have f2 := (timed_inv h1).fresh_lockSection (input 0 0) 0 (f0 1) (by decide)
  have h3 := h2.step (.unlock _ true 0 _ rfl (.none nofun))
  have h4 := h3.step (.tick _ 5 (by decide))
  have h5 := h4.step (.arrive _ false 0 rfl rfl)
  have h6 := h5.step (.lock _ false 0 (input 5 1) _ rfl (fun _ => rfl) rfl (f2.unlock (by decide)) (.context 0))
  refine ⟨_, rfl, (lifetime_kept_iff h6).mpr ?_⟩
  rintro g (_ | ⟨_, _ | ⟨_, hg⟩⟩)
  · change Accepted _ _ _ 0
    decide
  · exact fun _ _ => by decide
  · exact absurd hg List.not_mem_nil

end VmodRedis.SharedPool
