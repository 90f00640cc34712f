import VmodRedis.WorldInvariant

namespace VmodRedis.Execution

open CStrings Replies Database Connections Registry Planning

def suitable (call : Call) (db : Db) (heap : Heap) : ContextId → Bool :=
  match call.server with
  | some s => suitableForServer db heap s
  | none => suitableForCommand db heap call.master call.slot

def plannedContexts (plan : PlanInput) (call : Call) (retries : ℕ) (w : World) : List ContextId :=
  plannable (suitable call w.db w.heap) plan w.heap (maxSize call.maxRetries retries) w.task w.db

/-- The plan of a call has some private contexts, fewer than the attempts of the call, and no server. -/
structure Exhausts (plan : PlanInput) (call : Call) (retries : ℕ) (w : World) : Prop where
  allocated : plan.allocated = true
  contexts : plannedContexts plan call retries w ≠ []
  fit : pointerSize * (plannedContexts plan call retries w).length ≤ plan.contextsWs
  few : (plannedContexts plan call retries w).length < call.maxRetries - retries + 1
  servers : plan.serversWs < pointerSize ∨
    (call.server = none ∧ maxSize call.maxRetries retries ≤ (plannedContexts plan call retries w).length)

theorem selectable_of_suitable {db : Db} (hw : WellPlaced db) {heap : Heap} {master : Bool} {slot : ℕ} {c : ContextId}
    (hs : suitableForCommand db heap master slot c = true) (hr : db.Registered (heap c).server) (now : ℤ) :
    Selectable db now master slot (heap c).server := by
  obtain ⟨b, hb⟩ := hr
  have hrole : b.2 = (db.server (heap c).server).role :=
    congrArg Prod.snd (hw.placed.key_eq b (heap c).server hb).symm
  simp only [suitableForCommand, Bool.and_eq_true, Bool.or_eq_true, decide_eq_true_eq, Bool.not_eq_true'] at hs
  obtain ⟨⟨-, hmaster⟩, hslot⟩ := hs
  have hlist : (!master || decide (b.2 = .master)) = true := by
    rw [hrole]
    rcases hmaster with ⟨-, hm⟩ | ⟨hm, -⟩ <;> simp [hm]
  have howns : ownsSlot db slot (heap c).server = true := by
    rcases hslot with hc | hc <;> simp [ownsSlot, hc]
  by_cases hh : healthy db now (heap c).server = true
  · refine ⟨.first, ?_, b, hb, hlist, ?_⟩
    · cases hc : db.clusterEnabled <;> simp [rounds]
    · simp [serverConsidered, howns, hh]
  · rw [Bool.not_eq_true] at hh
    cases hc : db.clusterEnabled with
    | true => exact ⟨.fourth, by simp [rounds, hc], b, hb, rfl, by simp [serverConsidered, hh]⟩
    | false =>
      refine ⟨.second, by simp [rounds, hc], b, hb, ?_, by simp [serverConsidered, howns, hh]⟩
      simp only [listConsidered]
      rw [Bool.or_eq_true]
      exact Or.inl hlist

theorem planExecution_contexts {plan : PlanInput} {call : Call} {retries : ℕ} {w : World} {p : Plan} {task : Task}
    {db : Db}
    (h : planExecution plan w.heap (maxSize call.maxRetries retries) call.server call.master call.slot w.task w.db =
      .ok (some p, task, db)) :
    plan.allocated = true ∧ p.contexts = plannedContexts plan call retries w ∧ p.nextContext = 0 ∧
      p.nextServer = 0 := by
  unfold plannedContexts suitable
  rcases planExecution_cases h with ⟨-, hp, -⟩ | ⟨hallocated, q, hq, ⟨s, hs, hp⟩ | ⟨hs, hp⟩⟩
  · cases hp
  · cases hq
    obtain ⟨hc, hn, hm, -⟩ := populateSimpleExecutionPlan_spec hp
    rw [hs]
    exact ⟨hallocated, hc.contexts, hn, hm⟩
  · cases hq
    obtain ⟨dbc, hc, hn, hm, -⟩ := populateExecutionPlan_spec hp
    rw [hs]
    exact ⟨hallocated, hc.contexts, hn, hm⟩

theorem planExecution_servers {plan : PlanInput} {call : Call} {retries : ℕ} {w : World} {p : Plan} {task : Task}
    {db : Db} (hw : WellPlaced w.db)
    (hreg : ∀ c ∈ w.task.contexts, (w.heap c).db = w.db.id → w.db.Registered (w.heap c).server)
    (h : planExecution plan w.heap (maxSize call.maxRetries retries) call.server call.master call.slot w.task w.db =
      .ok (some p, task, db)) (hne : ¬(p.contexts = [] ∧ p.servers = [])) :
    p.servers = [] ↔ plan.serversWs < pointerSize ∨
      (call.server = none ∧ maxSize call.maxRetries retries ≤ p.contexts.length) := by
  have hover : ∀ suits, Overflows suits plan w.heap w.task w.db →
      plannable suits plan w.heap (maxSize call.maxRetries retries) w.task w.db = [] := fun suits ho => by
    rw [plannable, if_pos (Or.inr ho.2.1)]
  rcases planExecution_cases h with ⟨-, hp, -⟩ | ⟨-, q, hq, ⟨s, hs, hp⟩ | ⟨hs, hp⟩⟩
  · cases hp
  · cases hq
    obtain ⟨hc, -, -, hservers⟩ := populateSimpleExecutionPlan_spec hp
    rcases hservers with ⟨-, hroom, he⟩ | ⟨hempty, he⟩
    · simp [he, hs, Nat.not_lt.mpr hroom]
    · rcases hempty with ho | hroom
      · exact absurd ⟨hc.contexts.trans (hover _ ho), he⟩ hne
      · simp [he, hroom]
  · cases hq
    obtain ⟨dbc, hc, -, -, hservers⟩ := populateExecutionPlan_spec hp
    rcases hservers with ⟨hempty, he, -⟩ | ⟨-, hlt, hplanned⟩
    · rcases hempty with ho | hfull
      · exact absurd ⟨hc.contexts.trans (hover _ ho), he⟩ hne
      · simp [he, hs, hfull]
    · have hfull : ¬(call.server = none ∧ maxSize call.maxRetries retries ≤ p.contexts.length) :=
        fun hf => absurd hf.2 (Nat.not_le.mpr hlt)
      rw [or_iff_left hfull]
      refine ⟨fun he => ?_, hplanned.starved⟩
      by_contra hroom
      cases hcontexts : p.contexts with
      | nil => exact hne ⟨hcontexts, he⟩
      | cons c rest =>
        obtain ⟨hmem, hsuits⟩ := hc.mem (c := c) (by rw [hcontexts]; exact List.mem_cons_self)
        have hdb : (w.heap c).db = w.db.id := by
          simp only [suitableForCommand, Bool.and_eq_true, decide_eq_true_eq] at hsuits
          exact hsuits.1.1
        have hsel := selectable_of_suitable hw hsuits (hreg c hmem hdb) plan.probe.now
        exact hplanned.found (Nat.not_lt.mp hroom) ⟨_, (selectable_counts hc.counts _ _ _ _).mpr hsel⟩ he

def Suffices (shared : Bool) (n : ℕ) (plan : Plan) : Prop :=
  plan.nextServer < plan.servers.length ∨ (shared = false ∧ plan.nextContext + n + 1 ≤ plan.contexts.length)

theorem nextServerOf_suffices {shared : Bool} {n : ℕ} {plan : Plan} {s : ServerId}
    (hs : plan.servers[plan.nextServer]? = some s) : Suffices shared n (nextServerOf plan) := by
  have hpos : 0 < plan.servers.length := Nat.zero_lt_of_lt (List.getElem?_eq_some_iff.mp hs).choose
  exact Or.inl (Nat.mod_lt _ hpos)

theorem lockRedisContext_suffices (input : AttemptInput) {plan : Plan} {w : World} {n : ℕ}
    (h : Suffices w.db.sharedConnections n plan) :
    (lockRedisContext input plan w).2 ≠ .error .planExhausted ∧
      ∀ m c plan', n = m + 1 → (lockRedisContext input plan w).2 = .ok (c, plan') →
        Suffices w.db.sharedConnections m plan' := by
  unfold lockRedisContext
  by_cases hshared : w.db.sharedConnections = true
  · rw [if_pos hshared]
    have hlt : plan.nextServer < plan.servers.length := by
      rcases h with hlt | ⟨hf, -⟩
      · exact hlt
      · rw [hshared] at hf
        cases hf
    have hs : plan.servers[plan.nextServer]? = some plan.servers[plan.nextServer] := List.getElem?_eq_getElem hlt
    unfold lockSharedRedisContext
    rw [hs]
    dsimp only
    obtain ⟨⟨w', r⟩, hr⟩ : ∃ r, r = lockSections input plan.servers[plan.nextServer] input.meanwhile w := ⟨_, rfl⟩
    rw [← hr]
    cases r with
    | error f =>
      refine ⟨fun hf => ?_, nofun⟩
      have := lockSections_fault (congrArg Prod.snd hr.symm)
      rw [this] at hf
      cases hf
    | ok c =>
      refine ⟨nofun, ?_⟩
      rintro m d q hn ⟨⟩
      exact nextServerOf_suffices hs
  · rw [if_neg hshared]
    unfold lockPrivateRedisContext
    cases hc : plan.contexts[plan.nextContext]? with
    | some c =>
      refine ⟨nofun, ?_⟩
      rintro m d q hn ⟨⟩
      rcases h with hlt | ⟨hf, hle⟩
      · exact Or.inl hlt
      · exact Or.inr ⟨hf, by dsimp only; omega⟩
    | none =>
      have hend := List.getElem?_eq_none_iff.mp hc
      have hlt : plan.nextServer < plan.servers.length := by
        rcases h with hlt | ⟨-, hle⟩
        · exact hlt
        · omega
      have hs : plan.servers[plan.nextServer]? = some plan.servers[plan.nextServer] := List.getElem?_eq_getElem hlt
      rw [hs]
      dsimp only
      cases evict w with
      | none => exact ⟨nofun, nofun⟩
      | some w' =>
        refine ⟨nofun, ?_⟩
        rintro m d q hn ⟨⟩
        exact nextServerOf_suffices hs

section

variable {sha1 : Bytes → Bytes}

variable (sha1) in
theorem attempt_suffices (input : AttemptInput) (asking : Bool) {plan : Plan} (argv : Argv) {w : World} {n : ℕ}
    (h : Suffices w.db.sharedConnections n plan) :
    (attempt sha1 input asking plan argv w).outcome ≠ .error .planExhausted ∧
      ∀ m result, n = m + 1 → (attempt sha1 input asking plan argv w).outcome = .ok result →
        Suffices w.db.sharedConnections m (attempt sha1 input asking plan argv w).plan := by
  obtain ⟨hlock, hplan⟩ := lockRedisContext_suffices input h
  obtain ⟨⟨w', r⟩, hr⟩ : ∃ r, r = lockRedisContext input plan w := ⟨_, rfl⟩
  unfold attempt
  rw [← hr] at hlock hplan ⊢
  rcases r with f | ⟨_ | c, plan'⟩
  · exact ⟨fun hf => hlock (congrArg Except.error (Except.error.inj hf)), nofun⟩
  · exact ⟨nofun, fun m _ hn _ => hplan m none plan' hn rfl⟩
  · obtain ⟨⟨w'', argv', d⟩, hx⟩ : ∃ r, r = executeOn sha1 input asking c argv w' := ⟨_, rfl⟩
    dsimp only
    rw [← hx]
    cases d with
    | error f =>
      refine ⟨fun hf => ?_, nofun⟩
      have := executeOn_fault (congrArg (fun r => r.2.2) hx.symm)
      rw [this] at hf
      cases hf
    | ok result => exact ⟨nofun, fun m _ hn _ => hplan m (some c) plan' hn rfl⟩

theorem attempts_suffice {input : ℕ → AttemptInput} {call : Call} {n i : ℕ} {plan : Plan} {argv : Argv} {w : World}
    (h : Suffices w.db.sharedConnections n plan) :
    (attempts sha1 input call n i plan argv w).outcome ≠ .error .planExhausted := by
  induction n using Nat.strong_induction_on generalizing i plan argv w with
  | _ n ih =>
    have ha := attempt_suffices sha1 (input i) call.asking argv (w := w.log .attempt) h
    have ho := (attempt_inner sha1 (input i) call.asking plan argv (w.log .attempt)).options
    obtain ⟨a, hrun⟩ : ∃ a, attempt sha1 (input i) call.asking plan argv (w.log .attempt) = a := ⟨_, rfl⟩
    rw [hrun] at ha ho
    rcases attempts_cases sha1 input call n i plan argv w hrun with
      ⟨f, hf, hr⟩ | ⟨-, hr⟩ | ⟨reply, -, -, hr⟩ | ⟨m, rfl, hout, hr⟩ <;> rw [hr]
    · rw [hf] at ha
      exact fun he => ha.1 (congrArg Except.error (Except.error.inj he))
    · exact nofun
    · exact nofun
    · have hs := ha.2 m _ rfl hout
      have hshared : (countCommand (call.maxRetries - (m + 1)) none a.world).db.sharedConnections =
          w.db.sharedConnections := congrArg Options.sharedConnections ho
      exact ih m (Nat.lt_succ_self m) (hshared ▸ hs)

end

def refusing : AttemptInput :=
  ⟨⟨0, fun _ => 0, fun _ => false⟩, false, [], ⟨true, true, true⟩, fun _ => none, fun _ => none⟩

theorem readReplies_refused (commands : List Command) :
    (readReplies (fun _ => none) commands).1 = commands.map fun _ => none := by
  cases commands <;> rfl

theorem getRedisRepy_refused (asking : Bool) (c : ContextId) (args : List Bytes) (w : World) :
    (getRedisRepy (fun _ => none) asking c args w).2 = none := by
  unfold getRedisRepy
  dsimp only
  rw [readReplies_refused, List.getElem?_map]
  cases (pipeline (isReadonly w c) asking args)[(isReadonly w c).toNat + asking.toNat]? <;> rfl

theorem send_refused (asking : Bool) (c : ContextId) (args : List Bytes) (w : World) :
    (send (fun _ => none) asking c (args.map some) w).2 = .ok none := by
  unfold send
  rw [mapM_some]
  exact congrArg Except.ok (getRedisRepy_refused asking c args w)

section

variable {sha1 : Bytes → Bytes}

theorem evaluate_refused (asking : Bool) (c : ContextId) (script : Bytes) (rest : List Bytes) (w : World) :
    (evaluate sha1 refusing asking c script (rest.map some) w).2 =
      ((bytes "EVALSHA" :: sha1 script :: rest).map some, .ok (.done none)) := by
  have hs := send_refused asking c (bytes "EVALSHA" :: sha1 script :: rest) w
  obtain ⟨⟨w', r⟩, hr⟩ : ∃ r, r = send (fun _ => none) asking c
    ((bytes "EVALSHA" :: sha1 script :: rest).map some) w := ⟨_, rfl⟩
  rw [← hr] at hs
  obtain rfl : r = .ok none := hs
  simp only [evaluate, refusing, Bool.not_true, Bool.false_eq_true, if_false]
  simp only [List.map_cons] at hr ⊢
  rw [← hr]
  simp [isNoscriptReply]

variable (sha1) in
theorem executeOn_refused (asking : Bool) (c : ContextId) {args : List Bytes} (ha : args ≠ []) (w : World) :
    ∃ args', args' ≠ [] ∧ (executeOn sha1 refusing asking c (args.map some) w).2 =
      (args'.map some, .ok (.done none)) := by
  have hplain : (Result.ofSend (send (fun _ => none) asking c (args.map some) w)).2 = .ok (.done none) := by
    have hs := send_refused asking c args w
    obtain ⟨⟨w', r⟩, hr⟩ : ∃ r, r = send (fun _ => none) asking c (args.map some) w := ⟨_, rfl⟩
    rw [← hr] at hs ⊢
    obtain rfl : r = .ok none := hs
    rfl
  match args, ha with
  | [command], _ => exact ⟨[command], nofun, Prod.ext rfl hplain⟩
  | command :: script :: rest, _ =>
    by_cases he : strcasecmp command (bytes "EVAL") = true
    · refine ⟨bytes "EVALSHA" :: sha1 script :: rest, List.cons_ne_nil _ _,
        Eq.trans ?_ (evaluate_refused asking c script rest w)⟩
      simp only [executeOn, List.map_cons]
      rw [if_pos he]
    · refine ⟨command :: script :: rest, List.cons_ne_nil _ _, ?_⟩
      simp only [executeOn, List.map_cons]
      rw [if_neg he]
      exact Prod.ext rfl hplain

variable (sha1) in
theorem attempt_refused (asking : Bool) {plan : Plan} {c : ContextId} (hc : plan.contexts[plan.nextContext]? = some c)
    {args : List Bytes} (ha : args ≠ []) {w : World} (hs : w.db.sharedConnections = false) :
    (attempt sha1 refusing asking plan (args.map some) w).outcome = .ok (.done none) ∧
      (attempt sha1 refusing asking plan (args.map some) w).plan = { plan with nextContext := plan.nextContext + 1 } ∧
      ∃ args', args' ≠ [] ∧ (attempt sha1 refusing asking plan (args.map some) w).argv = args'.map some := by
  have hlock : lockRedisContext refusing plan w = (w.log (.locked (w.heap c).server (some c)),
      .ok (some c, { plan with nextContext := plan.nextContext + 1 })) := by
    unfold lockRedisContext lockPrivateRedisContext
    rw [hs, hc]
    rfl
  obtain ⟨args', hne, hx⟩ := executeOn_refused sha1 asking c ha (w.log (.locked (w.heap c).server (some c)))
  obtain ⟨⟨w', argv', d⟩, hr⟩ : ∃ r, r = executeOn sha1 refusing asking c (args.map some)
    (w.log (.locked (w.heap c).server (some c))) := ⟨_, rfl⟩
  rw [← hr] at hx
  obtain ⟨rfl, rfl⟩ := Prod.mk.inj hx
  unfold attempt
  rw [hlock]
  dsimp only
  rw [← hr]
  exact ⟨rfl, rfl, args', hne, rfl⟩

variable (sha1) in
theorem attempt_exhausted (asking : Bool) {plan : Plan} (hservers : plan.servers = [])
    (hc : plan.contexts[plan.nextContext]? = none) (argv : Argv) {w : World} (hs : w.db.sharedConnections = false) :
    (attempt sha1 refusing asking plan argv w).outcome = .error .planExhausted := by
  have hlock : lockRedisContext refusing plan w = (w, .error .planExhausted) := by
    unfold lockRedisContext lockPrivateRedisContext
    rw [hs, hc, hservers]
    rfl
  unfold attempt
  rw [hlock]

theorem attempts_refused {call : Call} {n i : ℕ} {plan : Plan} (hservers : plan.servers = [])
    (hn : plan.contexts.length ≤ plan.nextContext + n) {args : List Bytes} (ha : args ≠ []) {w : World}
    (hs : w.db.sharedConnections = false) :
    (attempts sha1 (fun _ => refusing) call n i plan (args.map some) w).outcome = .error .planExhausted := by
  induction n generalizing i plan args w with
  | zero =>
    have hc : plan.contexts[plan.nextContext]? = none := List.getElem?_eq_none_iff.mpr hn
    obtain ⟨a, hrun⟩ : ∃ a, attempt sha1 refusing call.asking plan (args.map some) (w.log .attempt) = a := ⟨_, rfl⟩
    have ho := attempt_exhausted sha1 call.asking hservers hc (args.map some) (w := w.log .attempt) hs
    rw [hrun] at ho
    rw [attempts, hrun, ho]
  | succ n ih =>
    cases hc : plan.contexts[plan.nextContext]? with
    | none =>
      obtain ⟨a, hrun⟩ : ∃ a, attempt sha1 refusing call.asking plan (args.map some) (w.log .attempt) = a := ⟨_, rfl⟩
      have ho := attempt_exhausted sha1 call.asking hservers hc (args.map some) (w := w.log .attempt) hs
      rw [hrun] at ho
      rw [attempts, hrun, ho]
    | some c =>
      obtain ⟨ho, hp, args', ha', hargs⟩ := attempt_refused sha1 call.asking hc ha
        (w := w.log .attempt) hs
      have hopt := (attempt_inner sha1 refusing call.asking plan (args.map some) (w.log .attempt)).options
      obtain ⟨a, hrun⟩ : ∃ a, attempt sha1 refusing call.asking plan (args.map some) (w.log .attempt) = a := ⟨_, rfl⟩
      rw [hrun] at ho hp hargs hopt
      rw [attempts, hrun, ho]
      dsimp only
      rw [hp, hargs]
      have hs' : (countCommand (call.maxRetries - (n + 1)) none a.world).db.sharedConnections = false :=
        (congrArg Options.sharedConnections hopt).trans hs
      have hservers' : { plan with nextContext := plan.nextContext + 1 }.servers = [] := hservers
      exact ih hservers' (by dsimp only; omega) ha' hs'

theorem contextsOf_planned {suits : ContextId → Bool} {plan : PlanInput} {heap : Heap} {size : ℕ} {task : Task}
    {db : Db} (hne : plannable suits plan heap size task db ≠ []) :
    db.sharedConnections = false ∧ ∃ scan, contextsOf suits plan heap size task db = scan ∧ ¬ scan.overflow = true ∧
      scan.planned = plannable suits plan heap size task db := by
  have hroom : ¬(db.sharedConnections = true ∨ plan.contextsWs < pointerSize) := fun hn => by
    apply hne
    rw [plannable, if_pos hn]
  rw [not_or] at hroom
  obtain ⟨hplanned, hover⟩ := contextsOf_spec suits plan heap size task db
  exact ⟨Bool.eq_false_iff.mpr hroom.1, _, rfl, fun ho => hroom.2 (hover.mp ho).2.1, hplanned.contexts⟩

theorem planExecution_fits {plan : PlanInput} {call : Call} {retries : ℕ} {w : World}
    (hallocated : plan.allocated = true) (hne : plannedContexts plan call retries w ≠ []) :
    w.db.sharedConnections = false ∧
      (plan.contextsWs < pointerSize * (plannedContexts plan call retries w).length →
        planExecution plan w.heap (maxSize call.maxRetries retries) call.server call.master call.slot w.task w.db =
          .error .workspaceOverrun) ∧
      (pointerSize * (plannedContexts plan call retries w).length ≤ plan.contextsWs →
        (plan.serversWs < pointerSize ∨ (call.server = none ∧
          maxSize call.maxRetries retries ≤ (plannedContexts plan call retries w).length)) →
        ∃ p task db, planExecution plan w.heap (maxSize call.maxRetries retries) call.server call.master call.slot w.task
          w.db = .ok (some p, task, db)) := by
  unfold plannedContexts suitable at hne ⊢
  unfold planExecution
  rw [if_pos hallocated]
  cases hs : call.server with
  | some s =>
    rw [hs] at hne
    obtain ⟨hshared, scan, hscan, ho, hplanned⟩ := contextsOf_planned hne
    dsimp only
    rw [← hplanned]
    unfold populateSimpleExecutionPlan
    rw [hscan]
    dsimp only
    rw [if_neg ho]
    refine ⟨hshared, fun hws => by rw [if_pos hws]; rfl, fun hws _ => ?_⟩
    rw [if_neg (Nat.not_lt.mpr hws)]
    split_ifs <;> exact ⟨_, _, _, rfl⟩
  | none =>
    rw [hs] at hne
    obtain ⟨hshared, scan, hscan, ho, hplanned⟩ := contextsOf_planned hne
    dsimp only
    rw [← hplanned]
    unfold populateExecutionPlan
    rw [hscan]
    dsimp only
    rw [if_neg ho]
    refine ⟨hshared, fun hws => by rw [if_pos hws]; rfl, fun hws hservers => ?_⟩
    rw [if_neg (Nat.not_lt.mpr hws)]
    by_cases hlt : scan.planned.length < maxSize call.maxRetries retries
    · have hsmall : plan.serversWs < pointerSize := hservers.resolve_right fun hfull => Nat.not_le.mpr hlt hfull.2
      have hstarved := (serversOf_spec plan.probe.now call.master call.slot plan.serversWs
        (maxSize call.maxRetries retries - scan.planned.length) scan.db).starved hsmall
      rw [if_pos hlt, hstarved, if_neg (by simp)]
      exact ⟨_, _, _, rfl⟩
    · rw [if_neg hlt]
      exact ⟨_, _, _, rfl⟩

variable (sha1)

/-- A call may find nothing to use for an attempt exactly when its plan exhausts. -/
theorem redisExecute_exhausts (plan : PlanInput) (call : Call) (args : List Bytes) (ha : args ≠ []) (retries : ℕ)
    (w : World) (hr : retries ≤ call.maxRetries) (hw : WellPlaced w.db)
    (hreg : ∀ c ∈ w.task.contexts, (w.heap c).db = w.db.id → w.db.Registered (w.heap c).server) :
    (∀ attempt : ℕ → AttemptInput,
        (redisExecute sha1 ⟨plan, attempt⟩ call (args.map some) retries w).outcome ≠ .error .planExhausted) ↔
      ¬ Exhausts plan call retries w := by
  obtain ⟨p, hp⟩ : ∃ p, planExecution plan w.heap (maxSize call.maxRetries retries) call.server call.master
    call.slot w.task w.db = p := ⟨_, rfl⟩
  constructor
  · intro hall hex
    obtain ⟨hshared, -, hok⟩ := planExecution_fits hex.allocated hex.contexts
    obtain ⟨q, task, db, hq⟩ := hok hex.fit hex.servers
    obtain ⟨-, hcontexts, hnext, -⟩ := planExecution_contexts hq
    have hne : ¬(q.contexts = [] ∧ q.servers = []) := fun he => hex.contexts (hcontexts.symm.trans he.1)
    apply hall fun _ => refusing
    rcases redisExecute_cases sha1 ⟨plan, fun _ => refusing⟩ call (args.map some) w hr hp with
      ⟨f, hf, -⟩ | ⟨q', task', db', hq', hempty, -⟩ | ⟨q', task', db', hq', -, he⟩
    · cases (hp.symm.trans hq).symm.trans hf
    · cases (hp.symm.trans hq).symm.trans hq'
      exact absurd (hempty q rfl) hne
    · cases (hp.symm.trans hq).symm.trans hq'
      rw [he, leave_outcome]
      refine attempts_refused ((planExecution_servers hw hreg hq hne).mpr (hcontexts ▸ hex.servers)) ?_ ha ?_
      · have := hex.few
        rw [hcontexts, hnext]
        omega
      · exact (congrArg Options.sharedConnections (RegistryInvariant.planExecution_retains hq hw).1.options).trans hshared
  · intro hno attempt
    rcases redisExecute_cases sha1 ⟨plan, attempt⟩ call (args.map some) w hr hp with
      ⟨f, hf, he⟩ | ⟨q, task, db, -, -, he⟩ | ⟨q, task, db, hq, hne, he⟩ <;> rw [he]
    · rw [planExecution_fault (hp.trans hf)]
      exact nofun
    · exact nofun
    · rw [leave_outcome]
      have hq := hp.trans hq
      obtain ⟨hallocated, hcontexts, hnext, hnext'⟩ := planExecution_contexts hq
      refine attempts_suffice ?_
      by_cases hs : q.servers = []
      · have hcne : plannedContexts plan call retries w ≠ [] := fun hc => hne ⟨hcontexts.trans hc, hs⟩
        obtain ⟨hshared, hoverrun, -⟩ := planExecution_fits hallocated hcne
        have hfit : pointerSize * (plannedContexts plan call retries w).length ≤ plan.contextsWs :=
          Nat.not_lt.mp fun hlt => by cases (hoverrun hlt).symm.trans hq
        have hcond := (planExecution_servers hw hreg hq hne).mp hs
        rw [hcontexts] at hcond
        have hfew := Nat.not_lt.mp fun hfew => hno ⟨hallocated, hcne, hfit, hfew, hcond⟩
        refine Or.inr ⟨?_, ?_⟩
        · exact (congrArg Options.sharedConnections (RegistryInvariant.planExecution_retains hq hw).1.options).trans hshared
        · rw [hcontexts, hnext]
          omega
      · refine Or.inl ?_
        rw [hnext']
        exact List.length_pos_iff.mpr hs

end

def standalone : Db :=
  [bytes "10.0.0.1:6379"].foldl DiscoveryWalk.addMaster (newVmodRedisDb ⟨0, 0, 0, false, 1, .off, 0, false, false, 0⟩)

theorem standalone_fresh : WellPlaced standalone ∧ ∀ s, (standalone.server s).pool = .empty := by
  have h := newVmodRedisDb_wellPlaced ⟨0, 0, 0, false, 1, .off, 0, false, false, 0⟩
  unfold standalone
  exact DiscoveryWalk.addMasters_fresh _ h fun _ => rfl

def connected : World := { ClusterExecution.idleWorld standalone with task := ⟨1, [0]⟩, nextContext := 1 }

theorem connected_sound : Sound connected := by
  have hi := Sound.idle standalone_fresh.1 standalone_fresh.2
  refine ⟨hi.wellPlaced, fun c hc => ?_, fun s c hc => absurd (hi.owner s c hc).2 (Nat.not_lt_zero c)⟩
  rw [List.mem_singleton.mp hc]
  exact Nat.zero_lt_one

def getKeyArgs : List Bytes := [bytes "GET", bytes "key"]

theorem connected_registered : standalone.Registered 0 := ⟨(3, .master), by decide +kernel⟩

theorem redisExecute_exhausts_connected :
    (redisExecute id ⟨⟨true, ⟨0, fun _ => 0, fun _ => false⟩, 8, 8⟩, fun _ => refusing⟩ ⟨1, none, false, true, 0⟩
      (getKeyArgs.map some) 0 connected).outcome ≠ .error .planExhausted := by
  have hreg : ∀ c ∈ connected.task.contexts, (connected.heap c).db = connected.db.id →
      connected.db.Registered (connected.heap c).server := fun _ _ _ => connected_registered
  refine (redisExecute_exhausts id _ _ getKeyArgs (List.cons_ne_nil _ _) 0 connected (Nat.zero_le 1)
    connected_sound.wellPlaced hreg).mpr (fun h => ?_) fun _ => refusing
  have hfew := h.few
  rcases h.servers with hs | ⟨-, hs⟩
  · exact absurd hs (lt_irrefl 8)
  · change 2 ≤ _ at hs
    dsimp only at hfew
    omega

theorem failed_of_map {outcome : Except Fault (Option Reply)} {f : Fault}
    (h : outcome.map (fun _ => ()) = .error f) : outcome = .error f := by
  cases outcome with
  | error g => exact congrArg Except.error (Except.error.inj h)
  | ok reply => cases h

def starved : ClusterExecution.ClusterInput where
  call _ := ⟨⟨true, ⟨0, fun _ => 0, fun _ => false⟩, 8, 0⟩, fun _ => refusing⟩
  redirect := (ClusterExecution.redirecting []).redirect

theorem dbExecute_may_exhaust :
    ¬ ∀ (input : ClusterExecution.ClusterInput) (maxRetries : ℕ) (master : Bool) (args : List Bytes) (w : World),
      Sound w → args ≠ [] →
        (ClusterExecution.dbExecute id 0 input maxRetries master (args.map some) w).outcome ≠ .error .planExhausted := by
  intro h
  apply h starved 1 true getKeyArgs connected connected_sound (List.cons_ne_nil _ _)
  apply failed_of_map
  decide +kernel

end VmodRedis.Execution
