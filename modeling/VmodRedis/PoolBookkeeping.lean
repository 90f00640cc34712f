import VmodRedis.DatabaseCreation
import VmodRedis.PrivateReuse

namespace VmodRedis.PoolBookkeeping

open CStrings Replies Database Connections Planning Execution ClusterExecution DatabaseCreation PrivateReuse
open TransitionSystem

/-- The pool of private connections of a thread: the counter is right, and released contexts do not come back. -/
structure Booked (limit : ℕ) (w : World) : Prop where
  counted : w.task.ncontexts = w.task.contexts.length
  bounded : w.task.contexts.length ≤ limit
  distinct : w.task.contexts.Nodup
  fresh : ∀ c ∈ w.task.contexts, c < w.nextContext

def Live (plan : Plan) (w : World) : Prop := ∀ c ∈ plan.contexts.drop plan.nextContext, c ∈ w.task.contexts

namespace Booked

variable {limit limit' : ℕ} {w w' : World}

theorem congr (h : Booked limit w) (ht : w'.task = w.task) (hn : w'.nextContext = w.nextContext) : Booked limit w' := by
  obtain ⟨hcounted, hbounded, hdistinct, hfresh⟩ := h
  constructor
  · rw [ht, hcounted]
  · rw [ht]
    exact hbounded
  · rw [ht]
    exact hdistinct
  · rw [ht, hn]
    exact hfresh

theorem mono (h : Booked limit w) (hl : limit ≤ limit') : Booked limit' w :=
  ⟨h.counted, h.bounded.trans hl, h.distinct, h.fresh⟩

theorem evict (h : Booked limit w) (hmax : w.db.maxConnections ≤ limit) (he : Execution.evict w = some w') :
    Booked limit w' ∧ w'.task.contexts.length < limit ∧ w'.nextContext = w.nextContext := by
  obtain ⟨hcounted, hbounded, hdistinct, hfresh⟩ := h
  unfold Execution.evict at he
  by_cases hfull : w.db.maxConnections ≤ w.task.ncontexts
  · rw [if_pos hfull] at he
    cases hc : w.task.contexts with
    | nil =>
      rw [hc] at he
      cases he
    | cons c rest =>
      rw [hc] at he hcounted hbounded hdistinct hfresh
      obtain rfl := Option.some.inj he
      rw [List.length_cons] at hcounted hbounded
      refine ⟨⟨?_, ?_, hdistinct.of_cons, fun d hd => hfresh d (List.mem_cons_of_mem c hd)⟩, hbounded, rfl⟩
      · rw [hcounted, Nat.add_sub_cancel]
      · exact (Nat.le_succ _).trans hbounded
  · rw [if_neg hfull] at he
    obtain rfl := Option.some.inj he
    refine ⟨⟨hcounted, hbounded, hdistinct, hfresh⟩, ?_, rfl⟩
    rw [← hcounted]
    exact (Nat.lt_of_not_le hfull).trans_le hmax

theorem createPrivate (h : Booked limit w) (hroom : w.task.contexts.length < limit) (input : AttemptInput) (s : ServerId) :
    Booked limit (Execution.createPrivate input s w).2 ∧
      ∀ c, (Execution.createPrivate input s w).1 = some c → c ∈ (Execution.createPrivate input s w).2.task.contexts := by
  obtain ⟨hcounted, hbounded, hdistinct, hfresh⟩ := h
  unfold Execution.createPrivate
  by_cases hc : input.connected = true
  · simp only [if_pos hc]
    refine ⟨⟨?_, ?_, ?_, ?_⟩, ?_⟩
    · rw [hcounted, List.length_append, List.length_singleton]
    · rw [List.length_append, List.length_singleton]
      exact hroom
    · refine List.nodup_append.mpr ⟨hdistinct, List.nodup_singleton _, ?_⟩
      intro a ha b hb
      rw [List.mem_singleton.mp hb]
      exact (hfresh a ha).ne
    · intro c hmem
      rcases List.mem_append.mp hmem with hold | hnew
      · exact (hfresh c hold).trans (Nat.lt_succ_self _)
      · rw [List.mem_singleton.mp hnew]
        exact Nat.lt_succ_self _
    · intro c he
      obtain rfl := Option.some.inj he
      exact List.mem_append_right _ (List.mem_singleton_self _)
  · simp only [if_neg hc]
    exact ⟨⟨hcounted, hbounded, hdistinct, hfresh⟩, nofun⟩

end Booked

def Room (_ : AttemptInput) (plan : Plan) (w : World) : Prop :=
  plan.contexts[plan.nextContext]? = none → plan.servers[plan.nextServer]? ≠ none →
    0 < w.db.maxConnections ∨ w.task.contexts ≠ []

theorem evict_eq_none {limit : ℕ} {w : World} (h : Booked limit w) :
    evict w = none ↔ ¬ (0 < w.db.maxConnections ∨ w.task.contexts ≠ []) := by
  have hcounted := h.counted
  unfold evict
  cases hc : w.task.contexts with
  | nil =>
    rw [hc] at hcounted
    rw [hcounted, List.length_nil]
    by_cases hmax : w.db.maxConnections ≤ 0
    · simp [hmax]
    · simp [hmax, Nat.pos_of_ne_zero fun he => hmax he.le]
  | cons c rest =>
    by_cases hfull : w.db.maxConnections ≤ w.task.ncontexts <;> simp [hfull]

theorem Live.reused {plan : Plan} {w : World} (h : Live plan w) {c : ContextId}
    (hc : plan.contexts[plan.nextContext]? = some c) :
    c ∈ w.task.contexts ∧ Live { plan with nextContext := plan.nextContext + 1 } w := by
  obtain ⟨hlt, rfl⟩ := List.getElem?_eq_some_iff.mp hc
  have hdrop := List.drop_eq_getElem_cons hlt
  constructor
  · apply h
    rw [hdrop]
    exact List.mem_cons_self
  · intro d hd
    apply h
    rw [hdrop]
    exact List.mem_cons_of_mem _ hd

theorem live_of_used {plan : Plan} (h : plan.contexts[plan.nextContext]? = none) (w : World) : Live plan w := by
  intro c hc
  rw [List.drop_eq_nil_of_le (List.getElem?_eq_none_iff.mp h)] at hc
  exact absurd hc List.not_mem_nil

theorem lockPrivateRedisContext_booked {limit : ℕ} {plan : Plan} {w : World} (input : AttemptInput) (h : Booked limit w)
    (hlive : Live plan w) (hmax : w.db.maxConnections ≤ limit) :
    Booked limit (lockPrivateRedisContext input plan w).1 ∧
      (∀ c plan', (lockPrivateRedisContext input plan w).2 = .ok (c, plan') →
        Live plan' (lockPrivateRedisContext input plan w).1 ∧
          ∀ d, c = some d → d ∈ (lockPrivateRedisContext input plan w).1.task.contexts) ∧
      ((lockPrivateRedisContext input plan w).2 = .error .nothingToEvict ↔ ¬ Room input plan w) := by
  unfold lockPrivateRedisContext Room
  cases hc : plan.contexts[plan.nextContext]? with
  | some c =>
    obtain ⟨hmem, hrest⟩ := hlive.reused hc
    refine ⟨h.congr rfl rfl, ?_, by simp⟩
    intro d plan' hd
    obtain ⟨rfl, rfl⟩ := Prod.mk.inj (Except.ok.inj hd)
    refine ⟨hrest, ?_⟩
    rintro _ ⟨⟩
    exact hmem
  | none =>
    cases hs : plan.servers[plan.nextServer]? with
    | none => exact ⟨h, nofun, by simp⟩
    | some s =>
      have hnone := evict_eq_none h
      cases he : evict w with
      | none =>
        rw [he] at hnone
        refine ⟨h, nofun, ?_⟩
        simpa using hnone
      | some w₁ =>
        rw [he] at hnone
        obtain ⟨hbooked, hroom, -⟩ := h.evict hmax he
        have hlogged : Booked limit (w₁.log (.opened s (heldContexts w s).length
          (acceptedContexts input.probe w s).length)) := hbooked.congr rfl rfl
        obtain ⟨hcreated, hnew⟩ := hlogged.createPrivate hroom input s
        refine ⟨hcreated.congr rfl rfl, ?_, ?_⟩
        · intro d plan' hd
          obtain ⟨rfl, rfl⟩ := Prod.mk.inj (Except.ok.inj hd)
          exact ⟨live_of_used hc _, hnew⟩
        · simpa using hnone

def Kept (limit : ℕ) (input : AttemptInput) (plan : Plan) (w : World) : Prop :=
  Booked limit w ∧ Live plan w ∧ Booked limit (lockPrivateRedisContext input plan w).1 ∧
    ∀ c plan', (lockPrivateRedisContext input plan w).2 = .ok (some c, plan') →
      c ∈ (lockPrivateRedisContext input plan w).1.task.contexts

section

variable (sha1 : Bytes → Bytes)

def EachAttempt (P : AttemptInput → Plan → World → Prop) (input : ℕ → AttemptInput) (call : Call) :
    ℕ → ℕ → Plan → Argv → World → Prop
  | 0, i, plan, _, w => P (input i) plan w
  | n + 1, i, plan, argv, w =>
    P (input i) plan w ∧
      let a := attempt sha1 (input i) call.asking plan argv (w.log .attempt)
      (a.outcome = .ok (.done none) →
        EachAttempt P input call n (i + 1) a.plan a.argv (countCommand (call.maxRetries - (n + 1)) none a.world))

end

section

variable {sha1 : Bytes → Bytes}

theorem EachAttempt.first {P : AttemptInput → Plan → World → Prop} {input : ℕ → AttemptInput} {call : Call} {n i : ℕ}
    {plan : Plan} {argv : Argv} {w : World} (h : EachAttempt sha1 P input call n i plan argv w) : P (input i) plan w := by
  cases n with
  | zero => exact h
  | succ n => exact h.1

theorem eachAttempt_last {P : AttemptInput → Plan → World → Prop} {input : ℕ → AttemptInput} {call : Call} {n i : ℕ}
    {plan : Plan} {argv : Argv} {w : World} {a : Attempt}
    (ha : attempt sha1 (input i) call.asking plan argv (w.log .attempt) = a)
    (hlast : a.outcome = .ok (.done none) → n = 0) :
    EachAttempt sha1 P input call n i plan argv w ↔ P (input i) plan w := by
  refine ⟨EachAttempt.first, fun h => ?_⟩
  cases n with
  | zero => exact h
  | succ n =>
    rw [← ha] at hlast
    exact ⟨h, fun ho => absurd (hlast ho) (Nat.succ_ne_zero n)⟩

theorem eachAttempt_succ {P : AttemptInput → Plan → World → Prop} {input : ℕ → AttemptInput} {call : Call} {n i : ℕ}
    {plan : Plan} {argv : Argv} {w : World} {a : Attempt}
    (ha : attempt sha1 (input i) call.asking plan argv (w.log .attempt) = a) (ho : a.outcome = .ok (.done none)) :
    EachAttempt sha1 P input call (n + 1) i plan argv w ↔ P (input i) plan w ∧
      EachAttempt sha1 P input call n (i + 1) a.plan a.argv (countCommand (call.maxRetries - (n + 1)) none a.world) := by
  rw [EachAttempt, ha]
  exact and_congr_right fun _ => ⟨fun h => h ho, fun h _ => h⟩

end

section

variable {sha1 : Bytes → Bytes} {limit : ℕ}

theorem attempt_booked {input : AttemptInput} {asking : Bool} {plan : Plan} {argv : Argv} {w : World}
    (h : Booked limit w) (hlive : Live plan w) (hmax : w.db.maxConnections ≤ limit)
    (hprivate : w.db.sharedConnections = false) :
    Booked limit (attempt sha1 input asking plan argv w).world ∧
      ((attempt sha1 input asking plan argv w).outcome = .ok (.done none) →
        Live (attempt sha1 input asking plan argv w).plan (attempt sha1 input asking plan argv w).world) ∧
      ((attempt sha1 input asking plan argv w).outcome = .error .nothingToEvict ↔ ¬ Room input plan w) := by
  obtain ⟨hbooked, hplan, hroom⟩ := lockPrivateRedisContext_booked input h hlive hmax
  have hregistry := lockPrivateRedisContext_locking input plan w
  have hshared : ¬ w.db.sharedConnections = true := by
    rw [hprivate]
    exact Bool.false_ne_true
  unfold attempt lockRedisContext
  rw [if_neg hshared]
  generalize lockPrivateRedisContext input plan w = r at hbooked hplan hroom hregistry ⊢
  obtain ⟨w', f | ⟨_ | c, plan'⟩⟩ := r
  · refine ⟨hbooked, nofun, ?_⟩
    rw [← hroom]
    exact ⟨fun he => congrArg Except.error (Except.error.inj he), fun he => congrArg Except.error (Except.error.inj he)⟩
  · refine ⟨hbooked, fun _ => (hplan none plan' rfl).1, ?_⟩
    rw [← hroom]
    exact ⟨nofun, nofun⟩
  have hnoroom : ¬ ¬ Room input plan w := by
    rw [← hroom]
    exact nofun
  have hx := (executeOn_exchanged sha1 input asking c argv w').1
  have hfault := @executeOn_fault sha1 input asking c argv w'
  dsimp only at hx hfault ⊢
  generalize executeOn sha1 input asking c argv w' = x at hx hfault ⊢
  obtain ⟨w'', argv', f | result⟩ := x
  · refine ⟨hbooked.congr hx.task hx.nextContext, nofun, ?_⟩
    obtain rfl := hfault rfl
    exact ⟨nofun, fun hn => absurd hn hnoroom⟩
  have htask : (unlockRedisContext c w'').task = w'.task ∧ (unlockRedisContext c w'').nextContext = w'.nextContext := by
    unfold unlockRedisContext
    split_ifs
    · exact ⟨hx.task, hx.nextContext⟩
    · exact ⟨hx.task, hx.nextContext⟩
  refine ⟨hbooked.congr htask.1 htask.2, fun _ => ?_, ⟨nofun, fun hn => absurd hn hnoroom⟩⟩
  unfold Live
  dsimp only
  rw [htask.1]
  exact (hplan (some c) plan' rfl).1

theorem attempts_booked {input : ℕ → AttemptInput} {call : Call} {n i : ℕ} {plan : Plan} {argv : Argv} {w : World}
    (h : Booked limit w) (hlive : Live plan w) (hmax : w.db.maxConnections ≤ limit)
    (hprivate : w.db.sharedConnections = false) :
    Booked limit (attempts sha1 input call n i plan argv w).world ∧
      EachAttempt sha1 (Kept limit) input call n i plan argv w ∧
      ((attempts sha1 input call n i plan argv w).outcome ≠ .error .nothingToEvict ↔
        EachAttempt sha1 Room input call n i plan argv w) := by
  have hkept : Kept limit (input i) plan w := by
    obtain ⟨hbooked, hplan, -⟩ := lockPrivateRedisContext_booked (input i) h hlive hmax
    exact ⟨h, hlive, hbooked, fun c plan' hc => (hplan (some c) plan' hc).2 c rfl⟩
  have hattempt := @attempt_booked sha1 limit (input i) call.asking plan argv (w.log .attempt) (h.congr rfl rfl) hlive hmax
    hprivate
  have hinner := (attempt_inner sha1 (input i) call.asking plan argv (w.log .attempt)).options
  obtain ⟨a, ha⟩ : ∃ a, attempt sha1 (input i) call.asking plan argv (w.log .attempt) = a := ⟨_, rfl⟩
  rw [ha] at hattempt hinner
  obtain ⟨hbooked, hnext, hroom⟩ := hattempt
  have hfirst : Room (input i) plan w ↔ a.outcome ≠ .error .nothingToEvict := by
    rw [Ne, hroom, not_not]
    exact Iff.rfl
  -- unless another attempt follows, the outcome is that of this one
  have hlast : ∀ r : Executed, (r.outcome = .error .nothingToEvict ↔ a.outcome = .error .nothingToEvict) →
      (a.outcome = .ok (.done none) → n = 0) →
      EachAttempt sha1 (Kept limit) input call n i plan argv w ∧
        (r.outcome ≠ .error .nothingToEvict ↔ EachAttempt sha1 Room input call n i plan argv w) := by
    intro r ho hstop
    rw [Ne, ho, ← Ne, ← hfirst]
    exact ⟨(eachAttempt_last ha hstop).mpr hkept, (eachAttempt_last ha hstop).symm⟩
  rcases attempts_cases sha1 input call n i plan argv w ha with ⟨f, ho, hr⟩ | ⟨ho, hr⟩ | ⟨reply, ho, hn, hr⟩ |
      ⟨m, rfl, ho, hr⟩
  · rw [hr]
    exact ⟨hbooked, hlast _ (by rw [ho]; simp) (by rw [ho]; exact nofun)⟩
  · rw [hr]
    exact ⟨hbooked, hlast _ (by rw [ho]; simp) (by rw [ho]; exact nofun)⟩
  · rw [hr]
    refine ⟨hbooked.congr rfl rfl, hlast _ (by rw [ho]; simp) ?_⟩
    rw [ho]
    exact fun he => hn (Result.done.inj (Except.ok.inj he))
  · have hoptions : (countCommand (call.maxRetries - (m + 1)) none a.world).db.toOptions = w.db.toOptions := hinner
    have hmax' : (countCommand (call.maxRetries - (m + 1)) none a.world).db.maxConnections ≤ limit :=
      (congrArg Options.maxConnections hoptions).trans_le hmax
    obtain ⟨hrun, heach, hiff⟩ := @attempts_booked input call m (i + 1) a.plan a.argv
      (countCommand (call.maxRetries - (m + 1)) none a.world) (hbooked.congr rfl rfl) (hnext ho) hmax'
      ((congrArg Options.sharedConnections hoptions).trans hprivate)
    have hroom' : Room (input i) plan w := by
      rw [hfirst, ho]
      exact nofun
    rw [hr, hiff, eachAttempt_succ ha ho, eachAttempt_succ ha ho]
    exact ⟨hrun, ⟨hkept, heach⟩, (and_iff_right hroom').symm⟩

end

def Trimmed (planned : List ContextId) (task task' : Task) : Prop :=
  ∃ freed, task.contexts.Perm (task'.contexts ++ freed) ∧ task'.ncontexts + freed.length = task.ncontexts ∧
    ∀ c ∈ planned, c ∈ task'.contexts ∧ c ∉ freed

theorem trimmed_planned {limit : ℕ} {w : World} (h : Booked limit w) {suitable : ContextId → Bool} {input : PlanInput}
    {size : ℕ} {db db' : Db} {contexts : List ContextId} {task' : Task}
    (hp : ContextsPlanned suitable input w.heap size w.task db contexts task' db') : Trimmed contexts w.task task' := by
  obtain ⟨kept, hperm, hkept, hn⟩ := hp.kept
  obtain ⟨freed, hfreed⟩ := hkept.sublist.exists_perm_append
  have hall : w.task.contexts.Perm (task'.contexts ++ freed) := hfreed.trans (hperm.symm.append_right freed)
  refine ⟨freed, hall, ?_, fun c hc => ⟨hp.kept_mem hc, fun hf => ?_⟩⟩
  · have hlength := hfreed.length_eq
    rw [List.length_append] at hlength
    rw [hn, h.counted]
    omega
  · exact List.disjoint_of_nodup_append (hall.nodup_iff.mp h.distinct) (hp.kept_mem hc) hf

theorem Booked.trimmed {limit : ℕ} {w : World} (h : Booked limit w) {planned : List ContextId} {task : Task}
    (ht : Trimmed planned w.task task) (retries : ℕ) (db : Db) : Booked limit (w.planned retries task db) := by
  obtain ⟨freed, hperm, hn, -⟩ := ht
  have hlength := hperm.length_eq
  rw [List.length_append] at hlength
  have hcounted := h.counted
  have hbounded := h.bounded
  constructor
  · change task.ncontexts = task.contexts.length
    omega
  · change task.contexts.length ≤ limit
    omega
  · exact (hperm.nodup_iff.mp h.distinct).of_append_left
  · exact fun c hc => h.fresh c (hperm.mem_iff.mpr (List.mem_append_left _ hc))

def contextsPlanned (plan : Option Plan) : List ContextId := plan.elim [] Plan.contexts

theorem planExecution_trimmed {limit : ℕ} {w : World} (h : Booked limit w) {input : PlanInput} {call : Call} {size : ℕ}
    {plan : Option Plan} {task : Task} {db : Db}
    (hp : planExecution input w.heap size call.server call.master call.slot w.task w.db = .ok (plan, task, db)) :
    Trimmed (contextsPlanned plan) w.task task := by
  rcases planExecution_cases hp with ⟨-, rfl, rfl, -⟩ | ⟨-, p, rfl, ⟨s, -, hs⟩ | ⟨-, hs⟩⟩
  · exact ⟨[], by rw [List.append_nil], rfl, nofun⟩
  · exact trimmed_planned h (populateSimpleExecutionPlan_spec hs).1
  · obtain ⟨dbc, hplanned, -⟩ := populateExecutionPlan_spec hs
    exact trimmed_planned h hplanned

section

variable (sha1 : Bytes → Bytes)

def EachOf (P : AttemptInput → Plan → World → Prop) (input : CallInput) (call : Call) (argv : Argv) (retries : ℕ)
    (w : World) : Prop :=
  ∀ plan task db,
    planExecution input.plan w.heap (maxSize call.maxRetries retries) call.server call.master call.slot w.task w.db =
      .ok (some plan, task, db) → ¬ (plan.contexts = [] ∧ plan.servers = []) →
    EachAttempt sha1 P input.attempt call (call.maxRetries - retries) 0 plan argv (w.planned retries task db)

end

theorem redisExecute_booked {sha1 : Bytes → Bytes} {limit : ℕ} {input : CallInput} {call : Call} {argv : Argv}
    {retries : ℕ} {w : World} (h : Booked limit w) (hmax : w.db.maxConnections ≤ limit)
    (hprivate : w.db.sharedConnections = false) (hr : retries ≤ call.maxRetries) :
    Booked limit (redisExecute sha1 input call argv retries w).world ∧
      EachOf sha1 (Kept limit) input call argv retries w ∧
      ((redisExecute sha1 input call argv retries w).outcome ≠ .error .nothingToEvict ↔
        EachOf sha1 Room input call argv retries w) := by
  unfold EachOf
  rcases redisExecute_cases sha1 input call argv w hr rfl with ⟨f, hp, hx⟩ | ⟨plan, task, db, hp, hempty, hx⟩ |
      ⟨plan, task, db, hp, hne, hx⟩
  · rw [hx, hp]
    obtain rfl := planExecution_fault hp
    exact ⟨h.congr rfl rfl, nofun, fun _ => nofun, fun _ => nofun⟩
  · have hplanned := h.trimmed (planExecution_trimmed h hp) retries db
    rw [hx, hp]
    refine ⟨hplanned.congr rfl rfl, ?_, fun _ => ?_, fun _ => nofun⟩
    all_goals
      rintro p task' db' ⟨⟩ hne
      exact absurd (hempty p rfl) hne
  · have htrimmed := planExecution_trimmed h hp
    have hplanned := h.trimmed htrimmed retries db
    obtain ⟨hoptions, -⟩ := planExecution_keeps hp
    have hlive : Live plan (w.planned retries task db) := by
      obtain ⟨freed, -, -, hmem⟩ := htrimmed
      exact fun c hc => (hmem c (List.mem_of_mem_drop hc)).1
    have hmax' : (w.planned retries task db).db.maxConnections ≤ limit :=
      (congrArg Options.maxConnections hoptions).trans_le hmax
    obtain ⟨hrun, hkept, hroom⟩ := @attempts_booked sha1 limit input.attempt call (call.maxRetries - retries) 0 plan argv
      (w.planned retries task db) hplanned hlive hmax' ((congrArg Options.sharedConnections hoptions).trans hprivate)
    have hworld : Booked limit (attempts sha1 input.attempt call (call.maxRetries - retries) 0 plan argv
        (w.planned retries task db)).leave.world := by
      rcases leave_cases (attempts sha1 input.attempt call (call.maxRetries - retries) 0 plan argv
        (w.planned retries task db)) with ⟨f, -, hl⟩ | ⟨reply, -, hl⟩
      · rw [hl]
        exact hrun
      · rw [hl]
        exact hrun.congr rfl rfl
    rw [hx, hp, leave_outcome, hroom]
    refine ⟨hworld, ?_, ?_, ?_⟩
    · rintro p task' db' ⟨⟩ -
      exact hkept
    · rintro he p task' db' ⟨⟩ -
      exact he
    · exact fun he => he plan task db rfl hne

structure Thread where
  world : World
  largest : ℕ

section

variable (sha1 : Bytes → Bytes)

/-- Each call is made on an instance with private connections. Between the calls only the pool of the thread
is left alone. -/
inductive PoolStep : Thread → Thread → Prop
  | elsewhere (t : Thread) (w : World) (htask : w.task = t.world.task) (hnext : w.nextContext = t.world.nextContext) :
      PoolStep t { t with world := w }
  | execute (t : Thread) (input : CallInput) (call : Call) (argv : Argv) (retries : ℕ) (reply : Option Reply)
      (hprivate : t.world.db.sharedConnections = false)
      (hreply : (redisExecute sha1 input call argv retries t.world).outcome = .ok reply) :
      PoolStep t ⟨(redisExecute sha1 input call argv retries t.world).world, max t.largest t.world.db.maxConnections⟩

def pool : System Thread where
  init t := t.world.task = ⟨0, []⟩ ∧ t.largest = 0
  step := PoolStep sha1

end

theorem PoolStep.booked {sha1 : Bytes → Bytes} {t t' : Thread} (hs : PoolStep sha1 t t') (h : Booked t.largest t.world) :
    Booked t'.largest t'.world := by
  cases hs with
  | elsewhere w htask hnext => exact h.congr htask hnext
  | execute input call argv retries reply hprivate hreply =>
    have hle : retries ≤ call.maxRetries := by
      by_contra hlt
      rw [redisExecute_exceeded sha1 input call argv t.world (Nat.lt_of_not_le hlt)] at hreply
      cases hreply
    exact (redisExecute_booked (h.mono (le_max_left _ _)) (le_max_right _ _) hprivate hle).1

theorem reachable_booked {sha1 : Bytes → Bytes} {t : Thread} (hr : (pool sha1).Reachable t) : Booked t.largest t.world := by
  refine System.invariant (P := fun t => Booked t.largest t.world) ?_ (fun t t' _ h hs => PoolStep.booked hs h) hr
  rintro t ⟨htask, hlargest⟩
  constructor
  · rw [htask]
    rfl
  · rw [htask]
    exact Nat.zero_le _
  · rw [htask]
    exact List.nodup_nil
  · rw [htask]
    exact nofun

/-- The bookkeeping is right in every run; the eviction finds a context if and only if no instance without
connections meets an empty pool. -/
theorem private_pool_kept {sha1 : Bytes → Bytes} {t : Thread} (hr : (pool sha1).Reachable t) (input : CallInput)
    (call : Call) (argv : Argv) {retries : ℕ} (hle : retries ≤ call.maxRetries)
    (hprivate : t.world.db.sharedConnections = false) :
    Booked t.largest t.world ∧
      (∀ plan task db,
        planExecution input.plan t.world.heap (maxSize call.maxRetries retries) call.server call.master call.slot
          t.world.task t.world.db = .ok (plan, task, db) → Trimmed (contextsPlanned plan) t.world.task task) ∧
      EachOf sha1 (Kept (max t.largest t.world.db.maxConnections)) input call argv retries t.world ∧
      ((redisExecute sha1 input call argv retries t.world).outcome ≠ .error .nothingToEvict ↔
        EachOf sha1 Room input call argv retries t.world) := by
  have h := reachable_booked hr
  obtain ⟨-, hkept, hroom⟩ := @redisExecute_booked sha1 _ input call argv retries t.world (h.mono (le_max_left _ _))
    (le_max_right _ _) hprivate hle
  exact ⟨h, fun plan task db hp => planExecution_trimmed h hp, hkept, hroom⟩

theorem private_pool_kept_once :
    Booked 1 (get true PrivateReuse.idle).world ∧ (get true PrivateReuse.idle).world.task.contexts = [0] ∧
      EachOf id Room answered ⟨0, none, false, false, 0⟩ getKey 0 (get true PrivateReuse.idle).world ∧
      (get false (get true PrivateReuse.idle).world).world.task.contexts = [1] := by
  have hidle : (pool id).Reachable ⟨PrivateReuse.idle, 0⟩ := System.reachable_init ⟨rfl, rfl⟩
  obtain ⟨reply, hreply⟩ := @get_ok true PrivateReuse.idle (by decide +kernel)
  have hone : (pool id).Reachable ⟨(get true PrivateReuse.idle).world, 1⟩ :=
    hidle.step (.execute ⟨PrivateReuse.idle, 0⟩ answered _ _ 0 reply rfl hreply)
  obtain ⟨hbooked, -, -, hroom⟩ := private_pool_kept hone answered ⟨0, none, false, false, 0⟩ getKey (le_refl 0)
    (by decide +kernel)
  dsimp only at hbooked hroom
  obtain ⟨reply', hreply'⟩ := @get_ok false (get true PrivateReuse.idle).world (by decide +kernel)
  unfold PrivateReuse.get at hreply'
  refine ⟨hbooked, by decide +kernel, hroom.mp ?_, by decide +kernel⟩
  unfold PrivateReuse.get
  rw [hreply']
  exact nofun

def unlimited : DbArgs :=
  ⟨some (bytes "10.0.0.1:6379"), .master, 0, 0, 0, 0, false, 0, .default, false, [some [], some [], some [], some [],
    some []], some [], some [], 0, false, 0⟩

def noInput : RedirectInput := ⟨⟨⟨0, false, none⟩, 0⟩, [], ⟨fun _ _ => 0, [], fun _ _ => none⟩⟩

theorem private_pool_may_be_empty : ∃ db, vmodDbInit 0 noInput ⟨true, true⟩ true 0 unlimited = .ok (some db) ∧
    (pool id).Reachable ⟨idleWorld db, 0⟩ ∧ db.sharedConnections = false ∧
    (redisExecute id answered ⟨0, none, false, true, 0⟩ getKey 0 (idleWorld db)).outcome = .error .nothingToEvict := by
  refine ⟨_, rfl, System.reachable_init ⟨rfl, rfl⟩, rfl, failed_of_map ?_⟩
  decide +kernel

end VmodRedis.PoolBookkeeping
