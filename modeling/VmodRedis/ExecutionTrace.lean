import VmodRedis.ClusterExecution

namespace VmodRedis.Execution

open CStrings Replies Database Connections Planning SharedPool

def Logs (P : Event → Prop) (w w' : World) : Prop := ∃ events, w'.trace = events ++ w.trace ∧ ∀ e ∈ events, P e

namespace Logs

variable {P Q : Event → Prop} {w w' w'' : World}

theorem of_eq (h : w'.trace = w.trace) : Logs P w w' := ⟨[], h, by simp⟩

theorem refl (w : World) : Logs P w w := of_eq rfl

theorem trans (h : Logs P w w') (h' : Logs P w' w'') : Logs P w w'' := by
  obtain ⟨events, he, hP⟩ := h
  obtain ⟨events', he', hP'⟩ := h'
  refine ⟨events' ++ events, by rw [he', he, List.append_assoc], fun e hm => ?_⟩
  exact (List.mem_append.mp hm).elim (hP' e) (hP e)

theorem log (h : Logs P w w') {e : Event} (he : P e) : Logs P w (w'.log e) := by
  obtain ⟨events, ht, hP⟩ := h
  refine ⟨e :: events, by simp [World.log, ht], fun f hf => ?_⟩
  rcases List.mem_cons.mp hf with rfl | hf
  · exact he
  · exact hP f hf

theorem congr (h : Logs P w w') (ht : w''.trace = w'.trace) : Logs P w w'' := by
  obtain ⟨events, he, hP⟩ := h
  exact ⟨events, ht.trans he, hP⟩

theorem mono (h : Logs P w w') (hPQ : ∀ e, P e → Q e) : Logs Q w w' := by
  obtain ⟨events, he, hP⟩ := h
  exact ⟨events, he, fun e hm => hPQ e (hP e hm)⟩

end Logs

def Event.isLocking : Event → Bool
  | .opened _ _ _ | .locked _ _ => true
  | _ => false

def Event.isInner : Event → Bool
  | .opened _ _ _ | .locked _ _ | .exchange _ _ _ _ _ => true
  | _ => false

theorem Event.isInner_of_isLocking {e : Event} (h : e.isLocking = true) : e.isInner = true := by
  cases e <;> first | rfl | cases h

structure Changes (P : Event → Prop) (w w' : World) : Prop where
  logs : Logs P w w'
  options : w'.db.toOptions = w.db.toOptions

abbrev Locking (w w' : World) : Prop := Changes (fun e => e.isLocking = true) w w'

abbrev Inner (w w' : World) : Prop := Changes (fun e => e.isInner = true) w w'

namespace Changes

variable {P Q : Event → Prop} {w w' w'' : World}

theorem refl (w : World) : Changes P w w := ⟨.refl w, rfl⟩

theorem trans (h : Changes P w w') (h' : Changes P w' w'') : Changes P w w'' :=
  ⟨h.logs.trans h'.logs, h'.options.trans h.options⟩

theorem log (h : Changes P w w') {e : Event} (he : P e) : Changes P w (w'.log e) := ⟨h.logs.log he, h.options⟩

theorem congr (h : Changes P w w') (ht : w''.trace = w'.trace) (ho : w''.db.toOptions = w'.db.toOptions) :
    Changes P w w'' := ⟨h.logs.congr ht, ho.trans h.options⟩

theorem mono (h : Changes P w w') (hPQ : ∀ e, P e → Q e) : Changes Q w w' := ⟨h.logs.mono hPQ, h.options⟩

end Changes

theorem runSection_options (probe : Probe) (connected : Bool) (s : ServerId) (w : World) :
    (runSection probe connected s w).2.db.toOptions = w.db.toOptions :=
  (lockSection_same _ s w.heap w.db).options

theorem act_options (w : World) (a : PoolAction) : (act w a).db.toOptions = w.db.toOptions := by
  cases a with
  | lock probe connected s => exact runSection_options probe connected s w
  | unlock c =>
    unfold act
    dsimp only
    split_ifs <;> rfl
  | fail c => rfl

theorem acts_options (w : World) (actions : List PoolAction) :
    (actions.foldl act w).db.toOptions = w.db.toOptions := by
  induction actions generalizing w with
  | nil => rfl
  | cons a actions ih => rw [List.foldl_cons, ih, act_options]

theorem lockSections_options (input : AttemptInput) (s : ServerId) (meanwhile : List (List PoolAction)) (w : World) :
    (lockSections input s meanwhile w).1.db.toOptions = w.db.toOptions := by
  induction meanwhile generalizing w with
  | nil =>
    have ho := runSection_options input.probe input.connected s w
    obtain ⟨⟨locked, w'⟩, hr⟩ : ∃ r, r = runSection input.probe input.connected s w := ⟨_, rfl⟩
    unfold lockSections
    rw [← hr] at ho ⊢
    cases locked <;> exact ho
  | cons actions rest ih =>
    have ho := runSection_options input.probe input.connected s w
    obtain ⟨⟨locked, w'⟩, hr⟩ : ∃ r, r = runSection input.probe input.connected s w := ⟨_, rfl⟩
    unfold lockSections
    rw [← hr] at ho ⊢
    cases locked with
    | waiting => exact (ih _).trans ((acts_options w' actions).trans ho)
    | _ => exact ho

theorem act_trace (w : World) (a : PoolAction) : (act w a).trace = w.trace := by
  cases a with
  | unlock c =>
    unfold act
    dsimp only
    split_ifs <;> rfl
  | _ => rfl

theorem acts_trace (w : World) (actions : List PoolAction) : (actions.foldl act w).trace = w.trace := by
  induction actions generalizing w with
  | nil => rfl
  | cons a actions ih => rw [List.foldl_cons, ih, act_trace]

theorem evict_inner {w w' : World} (h : evict w = some w') : w'.trace = w.trace ∧ Locking w w' := by
  unfold evict at h
  by_cases hfull : w.db.maxConnections ≤ w.task.ncontexts
  · rw [if_pos hfull] at h
    cases hc : w.task.contexts <;> rw [hc] at h <;> cases h
    exact ⟨rfl, (Changes.refl w).congr rfl rfl⟩
  · rw [if_neg hfull] at h
    cases h
    exact ⟨rfl, .refl w⟩

theorem createPrivate_inner (input : AttemptInput) (s : ServerId) (w : World) :
    (createPrivate input s w).2.trace = w.trace ∧ Locking w (createPrivate input s w).2 := by
  have ho := (newRcontext_only input.probe.now false input.connected s w.db).same.options
  unfold createPrivate
  dsimp only
  split_ifs
  · exact ⟨rfl, (Changes.refl w).congr rfl ho⟩
  · exact ⟨rfl, (Changes.refl w).congr rfl ho⟩

theorem lockPrivateRedisContext_locking (input : AttemptInput) (plan : Plan) (w : World) :
    Locking w (lockPrivateRedisContext input plan w).1 := by
  unfold lockPrivateRedisContext
  split
  · exact (Changes.refl w).log rfl
  · split
    · exact .refl w
    · split
      · exact .refl w
      · next hw =>
        dsimp only
        exact (((evict_inner hw).2.log (by rfl)).trans (createPrivate_inner input _ _).2).log (by rfl)

theorem lockSections_trace (input : AttemptInput) (s : ServerId) (meanwhile : List (List PoolAction)) (w : World) :
    (lockSections input s meanwhile w).1.trace = w.trace := by
  induction meanwhile generalizing w with
  | nil =>
    obtain ⟨⟨locked, w'⟩, hr⟩ : ∃ r, r = runSection input.probe input.connected s w := ⟨_, rfl⟩
    have ht : w'.trace = w.trace := congrArg (fun r => World.trace r.2) hr
    unfold lockSections
    rw [← hr]
    cases locked <;> exact ht
  | cons actions rest ih =>
    obtain ⟨⟨locked, w'⟩, hr⟩ : ∃ r, r = runSection input.probe input.connected s w := ⟨_, rfl⟩
    have ht : w'.trace = w.trace := congrArg (fun r => World.trace r.2) hr
    unfold lockSections
    rw [← hr]
    cases locked with
    | waiting => exact (ih _).trans ((acts_trace w' actions).trans ht)
    | _ => exact ht

theorem lockSharedRedisContext_locking (input : AttemptInput) (plan : Plan) (w : World) :
    Locking w (lockSharedRedisContext input plan w).1 := by
  unfold lockSharedRedisContext
  split
  · exact .refl w
  · next s _ =>
    have hs : Locking w (lockSections input s input.meanwhile w).1 :=
      (Changes.refl w).congr (lockSections_trace input s input.meanwhile w) (lockSections_options input s input.meanwhile w)
    split
    · next he => rw [he] at hs; exact hs
    · next he => rw [he] at hs; exact hs.log rfl

theorem lockRedisContext_locking (input : AttemptInput) (plan : Plan) (w : World) :
    Locking w (lockRedisContext input plan w).1 := by
  unfold lockRedisContext
  split_ifs
  · exact lockSharedRedisContext_locking input plan w
  · exact lockPrivateRedisContext_locking input plan w

theorem unlockRedisContext_trace (c : ContextId) (w : World) : (unlockRedisContext c w).trace = w.trace := by
  unfold unlockRedisContext
  split_ifs <;> rfl

theorem unlockRedisContext_options (c : ContextId) (w : World) :
    (unlockRedisContext c w).db.toOptions = w.db.toOptions := by
  unfold unlockRedisContext
  split_ifs <;> rfl

theorem send_inner (answer : Command → Option Reply) (asking : Bool) (c : ContextId) (argv : Argv) (w : World) :
    Inner w (send answer asking c argv w).1 := by
  unfold send
  split
  · exact .refl w
  · exact ⟨⟨[_], rfl, fun e he => by rw [List.mem_singleton.mp he]; rfl⟩, rfl⟩

theorem mapM_some (args : List Bytes) : (args.map some).mapM id = some args := by
  induction args with
  | nil => rfl
  | cons a args ih => simp [List.mapM_cons, ih]

def replied : Except Fault (Option Reply) → Option Reply
  | .ok reply => reply
  | .error _ => none

def resultReply : Except Fault Result → Option Reply
  | .ok (.done reply) => reply
  | _ => none

theorem ofSend_replied (r : World × Except Fault (Option Reply)) :
    resultReply (Result.ofSend r).2 = replied r.2 := by
  obtain ⟨w, outcome⟩ := r
  cases outcome <;> rfl

theorem ofSend_world (r : World × Except Fault (Option Reply)) : (Result.ofSend r).1 = r.1 := by
  obtain ⟨w, outcome⟩ := r
  cases outcome <;> rfl

section

variable (sha1 : Bytes → Bytes)

theorem evaluate_inner (input : AttemptInput) (asking : Bool) (c : ContextId) (script : Bytes) (rest : Argv)
    (w : World) : Inner w (evaluate sha1 input asking c script rest w).1 := by
  have hs := send_inner input.first asking c (some (bytes "EVALSHA") :: some (sha1 script) :: rest) w
  unfold evaluate
  cases input.copies.evalsha with
  | false => exact .refl w
  | true =>
    cases input.copies.sha with
    | false => exact .refl w
    | true =>
      obtain ⟨⟨w', outcome⟩, hr⟩ : ∃ r, r = send input.first asking c
        (some (bytes "EVALSHA") :: some (sha1 script) :: rest) w := ⟨_, rfl⟩
      simp only [← hr, Bool.not_true, Bool.false_eq_true, if_false] at hs ⊢
      cases outcome with
      | error f => exact hs
      | ok reply =>
        dsimp only at hs ⊢
        by_cases hn : isNoscriptReply w' c reply = true
        · rw [if_pos hn]
          cases input.copies.eval with
          | false => exact hs
          | true =>
            refine hs.trans ?_
            simp only [Bool.not_true, Bool.false_eq_true, if_false, ofSend_world]
            have hcount : Inner w' (countNoscript w') := (Changes.refl w').congr rfl rfl
            exact hcount.trans (send_inner input.second asking c _ _)
        · rw [if_neg hn]
          exact hs

theorem executeOn_inner (input : AttemptInput) (asking : Bool) (c : ContextId) (argv : Argv) (w : World) :
    Inner w (executeOn sha1 input asking c argv w).1 := by
  unfold executeOn
  split
  · split_ifs
    · exact evaluate_inner sha1 input asking c _ _ w
    · dsimp only
      rw [ofSend_world]
      exact send_inner _ _ _ _ _
  · dsimp only
    rw [ofSend_world]
    exact send_inner _ _ _ _ _
  · exact .refl w

theorem attempt_inner (input : AttemptInput) (asking : Bool) (plan : Plan) (argv : Argv) (w : World) :
    Inner w (attempt sha1 input asking plan argv w).world := by
  have hl : Inner w _ := (lockRedisContext_locking input plan w).mono fun _ => Event.isInner_of_isLocking
  unfold attempt
  split
  · next he => rw [he] at hl; exact hl
  · next he => rw [he] at hl; exact hl
  · next w' c _ he =>
    rw [he] at hl
    have hx := executeOn_inner sha1 input asking c argv w'
    split
    · next hxe => rw [hxe] at hx; exact hl.trans hx
    · next hxe =>
      rw [hxe] at hx
      exact (hl.trans hx).congr (unlockRedisContext_trace c _) (unlockRedisContext_options c _)

theorem countCommand_trace (retries : ℕ) (reply : Option Reply) (w : World) :
    (countCommand retries reply w).trace = w.trace := rfl

theorem attempts_cases (input : ℕ → AttemptInput) (call : Call) (n i : ℕ) (plan : Plan) (argv : Argv) (w : World)
    {a : Attempt} (ha : attempt sha1 (input i) call.asking plan argv (w.log .attempt) = a) :
    (∃ f, a.outcome = .error f ∧
      attempts sha1 input call n i plan argv w = ⟨a.world, a.argv, call.maxRetries - n, .error f⟩) ∨
    (a.outcome = .ok .failedWs ∧
      attempts sha1 input call n i plan argv w = ⟨a.world, a.argv, call.maxRetries, .ok none⟩) ∨
    (∃ reply, a.outcome = .ok (.done reply) ∧ (reply = none → n = 0) ∧
      attempts sha1 input call n i plan argv w =
        ⟨countCommand (call.maxRetries - n) reply a.world, a.argv, call.maxRetries - n, .ok reply⟩) ∨
    (∃ m, n = m + 1 ∧ a.outcome = .ok (.done none) ∧
      attempts sha1 input call n i plan argv w =
        attempts sha1 input call m (i + 1) a.plan a.argv (countCommand (call.maxRetries - n) none a.world)) := by
  rcases ho : a.outcome with f | _ | _ | reply
  · refine .inl ⟨f, rfl, ?_⟩
    rw [attempts, ha, ho]
  · refine .inr (.inl ⟨rfl, ?_⟩)
    rw [attempts, ha, ho]
  · cases n with
    | zero =>
      refine .inr (.inr (.inl ⟨none, rfl, fun _ => rfl, ?_⟩))
      rw [attempts, ha, ho]
    | succ n =>
      refine .inr (.inr (.inr ⟨n, rfl, rfl, ?_⟩))
      rw [attempts, ha, ho]
  · refine .inr (.inr (.inl ⟨some reply, rfl, nofun, ?_⟩))
    rw [attempts, ha, ho]

def World.planned (w : World) (retries : ℕ) (task : Task) (db : Db) : World :=
  { w with task := task, db := db, trace := .enter retries :: w.trace }

theorem redisExecute_exceeded (input : CallInput) (call : Call) (argv : Argv) {retries : ℕ} (w : World)
    (hr : call.maxRetries < retries) : redisExecute sha1 input call argv retries w =
      ⟨w.log (.enter retries), argv, retries, .error .retriesExceeded⟩ := by
  unfold redisExecute
  exact if_pos hr

theorem redisExecute_cases (input : CallInput) (call : Call) (argv : Argv) {retries : ℕ} (w : World)
    (hr : retries ≤ call.maxRetries)
    {p : Except Fault (Option Plan × Task × Db)}
    (hp : planExecution input.plan w.heap (maxSize call.maxRetries retries) call.server call.master call.slot
      w.task w.db = p) :
    (∃ f, p = .error f ∧ redisExecute sha1 input call argv retries w = ⟨w.log (.enter retries), argv, retries, .error f⟩) ∨
    (∃ plan task db, p = .ok (plan, task, db) ∧
      (∀ q, plan = some q → q.contexts = [] ∧ q.servers = []) ∧
      redisExecute sha1 input call argv retries w =
        ⟨(w.planned retries task db).log (.leave call.maxRetries), argv, call.maxRetries, .ok none⟩) ∨
    (∃ plan task db, p = .ok (some plan, task, db) ∧ ¬(plan.contexts = [] ∧ plan.servers = []) ∧
      redisExecute sha1 input call argv retries w =
        (attempts sha1 input.attempt call (call.maxRetries - retries) 0 plan argv
          (w.planned retries task db)).leave) := by
  unfold redisExecute
  dsimp only
  rw [if_neg (Nat.not_lt.mpr hr)]
  have hp' : planExecution input.plan (w.log (.enter retries)).heap (maxSize call.maxRetries retries) call.server
    call.master call.slot (w.log (.enter retries)).task (w.log (.enter retries)).db = p := hp
  rw [hp']
  rcases p with f | ⟨_ | plan, task, db⟩
  · exact .inl ⟨f, rfl, rfl⟩
  · exact .inr (.inl ⟨none, task, db, rfl, nofun, rfl⟩)
  · by_cases he : (plan.contexts.isEmpty && plan.servers.isEmpty) = true
    · refine .inr (.inl ⟨some plan, task, db, rfl, ?_, ?_⟩)
      · rintro q ⟨⟩
        simpa using he
      · dsimp only
        rw [if_pos he]
        rfl
    · refine .inr (.inr ⟨plan, task, db, rfl, by simpa using he, ?_⟩)
      dsimp only
      rw [if_neg he]
      rfl

theorem leave_cases (r : Executed) : (∃ f, r.outcome = .error f ∧ r.leave = r) ∨
    (∃ reply, r.outcome = .ok reply ∧ r.leave = { r with world := r.world.log (.leave r.retries) }) := by
  unfold Executed.leave
  cases r.outcome with
  | error f => exact .inl ⟨f, rfl, rfl⟩
  | ok reply => exact .inr ⟨reply, rfl, rfl⟩

theorem leave_outcome (r : Executed) : r.leave.outcome = r.outcome := by
  rcases leave_cases r with ⟨f, -, h⟩ | ⟨reply, -, h⟩ <;> rw [h]

end

/-- The faults of a call of `redis_execute` that respects its assertion: only with shared connections can
it wait for ever. -/
def ofCall (w : World) : Fault → Bool
  | .workspaceOverrun | .planExhausted | .nothingToEvict | .nullArgument => true
  | .blocked => w.db.sharedConnections
  | _ => false

theorem planExecution_fault {input : PlanInput} {heap : Heap} {maxSize : ℕ} {server : Option ServerId}
    {master : Bool} {slot : ℕ} {task : Task} {db : Db} {f : Fault}
    (h : planExecution input heap maxSize server master slot task db = .error f) : f = .workspaceOverrun := by
  unfold planExecution at h
  by_cases ha : input.allocated = true
  · rw [if_pos ha] at h
    cases server with
    | some s =>
      unfold populateSimpleExecutionPlan at h
      dsimp only at h
      split_ifs at h <;> cases h
      rfl
    | none =>
      unfold populateExecutionPlan at h
      dsimp only at h
      split_ifs at h <;> cases h <;> rfl
  · rw [if_neg ha] at h
    cases h

theorem lockSections_fault {input : AttemptInput} {s : ServerId} {meanwhile : List (List PoolAction)} {w : World}
    {f : Fault} (h : (lockSections input s meanwhile w).2 = .error f) : f = .blocked := by
  induction meanwhile generalizing w with
  | nil =>
    obtain ⟨⟨locked, w'⟩, hr⟩ : ∃ r, r = runSection input.probe input.connected s w := ⟨_, rfl⟩
    unfold lockSections at h
    rw [← hr] at h
    cases locked <;> cases h
    rfl
  | cons actions rest ih =>
    obtain ⟨⟨locked, w'⟩, hr⟩ : ∃ r, r = runSection input.probe input.connected s w := ⟨_, rfl⟩
    unfold lockSections at h
    rw [← hr] at h
    cases locked with
    | waiting => exact ih h
    | _ => cases h

theorem lockRedisContext_fault {input : AttemptInput} {plan : Plan} {w : World} {f : Fault}
    (h : (lockRedisContext input plan w).2 = .error f) : ofCall (lockRedisContext input plan w).1 f = true := by
  unfold lockRedisContext lockSharedRedisContext lockPrivateRedisContext at h ⊢
  by_cases hs : w.db.sharedConnections = true
  · rw [if_pos hs] at h ⊢
    cases hp : plan.servers[plan.nextServer]? with
    | none => rw [hp] at h; cases h; rfl
    | some s =>
      have ho := lockSections_options input s input.meanwhile w
      obtain ⟨⟨w', r⟩, hl⟩ : ∃ r, r = lockSections input s input.meanwhile w := ⟨_, rfl⟩
      rw [← hl] at ho
      simp only [hp, ← hl] at h ⊢
      cases r with
      | error g =>
        cases h
        rw [lockSections_fault (congrArg Prod.snd hl.symm)]
        exact (congrArg Options.sharedConnections ho).trans hs
      | ok c => cases h
  · rw [if_neg hs] at h
    cases hc : plan.contexts[plan.nextContext]? with
    | some c => rw [hc] at h; cases h
    | none =>
      rw [hc] at h
      cases hp : plan.servers[plan.nextServer]? with
      | none => rw [hp] at h; cases h; rfl
      | some s =>
        rw [hp] at h
        dsimp only at h
        cases he : evict w with
        | none => rw [he] at h; cases h; rfl
        | some w' => rw [he] at h; cases h

theorem send_fault {answer : Command → Option Reply} {asking : Bool} {c : ContextId} {argv : Argv} {w : World}
    {f : Fault} (h : (send answer asking c argv w).2 = .error f) : f = .nullArgument := by
  unfold send at h
  split at h
  · cases h
    rfl
  · cases h

theorem ofSend_fault {r : World × Except Fault (Option Reply)} {f : Fault} (h : (Result.ofSend r).2 = .error f) :
    r.2 = .error f := by
  obtain ⟨w, outcome⟩ := r
  cases outcome <;> cases h
  rfl

section

variable {sha1 : Bytes → Bytes}

theorem evaluate_fault {input : AttemptInput} {asking : Bool} {c : ContextId} {script : Bytes} {rest : Argv}
    {w : World} {f : Fault} (h : (evaluate sha1 input asking c script rest w).2.2 = .error f) : f = .nullArgument := by
  obtain ⟨⟨w', outcome⟩, hr⟩ : ∃ r, r = send input.first asking c
    (some (bytes "EVALSHA") :: some (sha1 script) :: rest) w := ⟨_, rfl⟩
  unfold evaluate at h
  by_cases he : (!input.copies.evalsha) = true
  · rw [if_pos he] at h; cases h
  by_cases hs : (!input.copies.sha) = true
  · rw [if_neg he, if_pos hs] at h; cases h
  simp only [if_neg he, if_neg hs, ← hr] at h
  cases outcome with
  | error g =>
    cases h
    exact send_fault (congrArg Prod.snd hr.symm)
  | ok reply =>
    by_cases hn : isNoscriptReply w' c reply = true
    · by_cases hv : (!input.copies.eval) = true
      · simp only [if_pos hn, if_pos hv] at h; cases h
      · simp only [if_pos hn, if_neg hv] at h
        exact send_fault (ofSend_fault h)
    · simp only [if_neg hn] at h; cases h

theorem executeOn_fault {input : AttemptInput} {asking : Bool} {c : ContextId} {argv : Argv} {w : World} {f : Fault}
    (h : (executeOn sha1 input asking c argv w).2.2 = .error f) : f = .nullArgument := by
  unfold executeOn at h
  split at h
  · split_ifs at h
    · exact evaluate_fault h
    · exact send_fault (ofSend_fault h)
  · exact send_fault (ofSend_fault h)
  · cases h
    rfl

theorem attempt_fault {input : AttemptInput} {asking : Bool} {plan : Plan} {argv : Argv} {w : World} {f : Fault}
    (h : (attempt sha1 input asking plan argv w).outcome = .error f) :
    ofCall (attempt sha1 input asking plan argv w).world f = true := by
  obtain ⟨⟨w', r⟩, hl⟩ : ∃ r, r = lockRedisContext input plan w := ⟨_, rfl⟩
  unfold attempt at h ⊢
  rw [← hl] at h ⊢
  rcases r with g | ⟨_ | c, plan'⟩
  · cases h
    have hf := lockRedisContext_fault (congrArg Prod.snd hl.symm)
    rwa [← hl] at hf
  · cases h
  · obtain ⟨⟨w'', argv', r⟩, hx⟩ : ∃ r, r = executeOn sha1 input asking c argv w' := ⟨_, rfl⟩
    dsimp only at h ⊢
    rw [← hx] at h ⊢
    cases r with
    | error g =>
      cases h
      rw [executeOn_fault (congrArg (fun r => r.2.2) hx.symm)]
      rfl
    | ok r => cases h

theorem attempts_fault {input : ℕ → AttemptInput} {call : Call} {n i : ℕ} {plan : Plan} {argv : Argv} {w : World}
    {f : Fault} (h : (attempts sha1 input call n i plan argv w).outcome = .error f) :
    ofCall (attempts sha1 input call n i plan argv w).world f = true := by
  induction n using Nat.strong_induction_on generalizing i plan argv w with
  | _ n ih =>
    obtain ⟨a, ha⟩ : ∃ a, attempt sha1 (input i) call.asking plan argv (w.log .attempt) = a := ⟨_, rfl⟩
    rcases attempts_cases sha1 input call n i plan argv w ha with
      ⟨g, hg, hr⟩ | ⟨-, hr⟩ | ⟨reply, -, -, hr⟩ | ⟨m, rfl, -, hr⟩ <;> rw [hr] at h ⊢
    · cases h
      rw [← ha] at hg ⊢
      exact attempt_fault hg
    · cases h
    · cases h
    · exact ih m (by omega) h

theorem redisExecute_fault {input : CallInput} {call : Call} {argv : Argv} {retries : ℕ} {w : World} {f : Fault}
    (hr : retries ≤ call.maxRetries) (h : (redisExecute sha1 input call argv retries w).outcome = .error f) :
    ofCall (redisExecute sha1 input call argv retries w).world f = true := by
  obtain ⟨p, hp⟩ : ∃ p, planExecution input.plan w.heap (maxSize call.maxRetries retries) call.server call.master
    call.slot w.task w.db = p := ⟨_, rfl⟩
  rcases redisExecute_cases sha1 input call argv w hr hp with
    ⟨g, hg, he⟩ | ⟨plan, task, db, -, -, he⟩ | ⟨plan, task, db, -, -, he⟩ <;> rw [he] at h ⊢
  · cases h
    rw [planExecution_fault (hp.trans hg)]
    rfl
  · cases h
  · rcases leave_cases (attempts sha1 input.attempt call (call.maxRetries - retries) 0 plan argv
      (w.planned retries task db)) with ⟨g, -, hl⟩ | ⟨reply, -, hl⟩
    · rw [hl] at h ⊢
      exact attempts_fault h
    · rw [hl] at h ⊢
      exact attempts_fault h

end

end VmodRedis.Execution

namespace VmodRedis.ClusterExecution

open CStrings Replies Database Registry DiscoveryWalk Execution Slots

def World.discovering (w : World) (db : Db) (location : Bytes) (i : ℕ) (s : ServerId) : World :=
  (countMoved ({ w with db := db }.log (.redirection false location s))).log (.discovering i s)

theorem redirect_cases (fuel : ℕ) (input : RedirectInput) (i : ℕ) (str : Bytes) (w : World) :
    (redirectionLocation str = none ∧ redirect fuel input i str w = (w, .error .malformedRedirection)) ∨
    (∃ location db, redirectionLocation str = some location ∧
      unsafeAddRedisServer input.add input.rules location .tbd w.db = (none, db) ∧
      redirect fuel input i str w = ({ w with db := db }, .error .serverRejected)) ∨
    ∃ location s db, redirectionLocation str = some location ∧
      unsafeAddRedisServer input.add input.rules location .tbd w.db = (some s, db) ∧
      ((strncmp str (bytes "MOVED") = false ∧ redirect fuel input i str w =
          (countAsk ({ w with db := db }.log (.redirection true location s)), .ok s)) ∨
        strncmp str (bytes "MOVED") = true ∧
          ((unsafeDiscoverSlots fuel input.discovery s (World.discovering w db location i s).db = none ∧
              redirect fuel input i str w = (World.discovering w db location i s, .error .diverged)) ∨
            ∃ found walk, unsafeDiscoverSlots fuel input.discovery s (World.discovering w db location i s).db =
                some (found, walk) ∧
              redirect fuel input i str w = ({ World.discovering w db location i s with db := walk.db }, .ok s))) := by
  cases hl : redirectionLocation str with
  | none =>
    refine .inl ⟨rfl, ?_⟩
    rw [redirect, hl]
  | some location =>
    obtain ⟨⟨s, db⟩, ha⟩ : ∃ p, unsafeAddRedisServer input.add input.rules location .tbd w.db = p := ⟨_, rfl⟩
    cases s with
    | none =>
      refine .inr (.inl ⟨location, db, rfl, ha, ?_⟩)
      simp only [redirect, hl, ha]
    | some s =>
      refine .inr (.inr ⟨location, s, db, rfl, ha, ?_⟩)
      cases hm : strncmp str (bytes "MOVED") with
      | false =>
        refine .inl ⟨rfl, ?_⟩
        simp only [redirect, hl, ha, hm, Bool.not_false, if_true]
      | true =>
        refine .inr ⟨rfl, ?_⟩
        cases hd : unsafeDiscoverSlots fuel input.discovery s (World.discovering w db location i s).db with
        | none =>
          refine .inl ⟨rfl, ?_⟩
          simp only [redirect, hl, ha, hm, Bool.not_true, Bool.false_eq_true, if_false]
          rw [World.discovering] at hd
          rw [hd]
          rfl
        | some p =>
          obtain ⟨found, walk⟩ := p
          refine .inr ⟨found, walk, rfl, ?_⟩
          simp only [redirect, hl, ha, hm, Bool.not_true, Bool.false_eq_true, if_false]
          rw [World.discovering] at hd
          rw [hd]
          rfl

def isRedirected (str : Bytes) (r : Executed) : Prop :=
  r.outcome = .ok (some (.error str)) ∧ (Reply.error str).isRedirection = true

theorem follow_redirected (sha1 : Bytes → Bytes) (fuel : ℕ) (input : ClusterInput) (maxRetries : ℕ) (master : Bool)
    (slot hops i : ℕ) (server : Option ServerId) (asking : Bool) (argv : Argv) (retries : ℕ) (w : World)
    {r : Executed} {str : Bytes}
    (hr : redisExecute sha1 (input.call i) ⟨maxRetries, server, asking, master, slot⟩ argv retries w = r)
    (hi : isRedirected str r) :
    follow sha1 fuel input maxRetries master slot hops i server asking argv retries w =
      match redirect fuel (input.redirect i) i str r.world with
      | (w, .error f) => { r with world := w, outcome := .error f }
      | (w, .ok s) =>
        match hops with
        | 0 => { r with world := w, outcome := .ok none }
        | hops + 1 =>
          if r.retries ≤ maxRetries then
            follow sha1 fuel input maxRetries master slot hops (i + 1) (some s) (!strncmp str (bytes "MOVED")) r.argv
              r.retries (w.log .followed)
          else { r with world := w, outcome := .ok none } := by
  obtain ⟨ho, hi⟩ := hi
  rw [follow, hr]
  cases hops with
  | zero =>
    rw [ho]
    exact if_pos hi
  | succ hops =>
    rw [ho]
    exact if_pos hi

theorem follow_cases (sha1 : Bytes → Bytes) (fuel : ℕ) (input : ClusterInput) (maxRetries : ℕ) (master : Bool)
    (slot hops i : ℕ) (server : Option ServerId) (asking : Bool) (argv : Argv) (retries : ℕ) (w : World)
    {r : Executed}
    (hr : redisExecute sha1 (input.call i) ⟨maxRetries, server, asking, master, slot⟩ argv retries w = r) :
    ((∀ str, ¬ isRedirected str r) ∧
      follow sha1 fuel input maxRetries master slot hops i server asking argv retries w = r) ∨
    ∃ str, isRedirected str r ∧
      ((∃ w' f, redirect fuel (input.redirect i) i str r.world = (w', .error f) ∧
          follow sha1 fuel input maxRetries master slot hops i server asking argv retries w =
            { r with world := w', outcome := .error f }) ∨
        (∃ w' s, redirect fuel (input.redirect i) i str r.world = (w', .ok s) ∧
          (hops = 0 ∨ maxRetries < r.retries) ∧
          follow sha1 fuel input maxRetries master slot hops i server asking argv retries w =
            { r with world := w', outcome := .ok none }) ∨
        (∃ w' s m, redirect fuel (input.redirect i) i str r.world = (w', .ok s) ∧ hops = m + 1 ∧
          r.retries ≤ maxRetries ∧
          follow sha1 fuel input maxRetries master slot hops i server asking argv retries w =
            follow sha1 fuel input maxRetries master slot m (i + 1) (some s) (!strncmp str (bytes "MOVED"))
              r.argv r.retries (w'.log .followed))) := by
  by_cases hd : ∃ str, isRedirected str r
  · obtain ⟨str, hi⟩ := hd
    refine .inr ⟨str, hi, ?_⟩
    rw [follow_redirected sha1 fuel input maxRetries master slot hops i server asking argv retries w hr hi]
    obtain ⟨⟨w', d⟩, hw⟩ : ∃ p, redirect fuel (input.redirect i) i str r.world = p := ⟨_, rfl⟩
    rw [hw]
    cases d with
    | error f => exact .inl ⟨w', f, rfl, rfl⟩
    | ok s =>
      refine .inr ?_
      cases hops with
      | zero => exact .inl ⟨w', s, rfl, .inl rfl, rfl⟩
      | succ m =>
        dsimp only
        by_cases hle : r.retries ≤ maxRetries
        · rw [if_pos hle]
          exact .inr ⟨w', s, m, rfl, rfl, hle, rfl⟩
        · rw [if_neg hle]
          exact .inl ⟨w', s, rfl, .inr (Nat.not_le.mp hle), rfl⟩
  · refine .inl ⟨fun str h => hd ⟨str, h⟩, ?_⟩
    obtain ⟨w', argv', n, outcome⟩ := r
    rw [follow, hr]
    rcases outcome with f | _ | reply
    · rfl
    · rfl
    · cases reply with
      | error str =>
        have hi : ¬ (Reply.error str).isRedirection = true := fun hi => hd ⟨str, rfl, hi⟩
        dsimp only
        rw [if_neg hi]
      | _ => rfl

theorem clusterExecute_cases (sha1 : Bytes → Bytes) (input : ClusterInput) (maxRetries : ℕ) (master : Bool) (argv : Argv)
    (retries : ℕ) (w : World) :
    (∃ outcome, (outcome = .ok none ∨ outcome = .error .nullArgument) ∧
      ∀ fuel, clusterExecute sha1 fuel input maxRetries master argv retries w = ⟨w, argv, retries, outcome⟩) ∨
    ∃ key, ∀ fuel, clusterExecute sha1 fuel input maxRetries master argv retries w =
      follow sha1 fuel input maxRetries master (getClusterSlot key) (hopsOf w.db) 0 none false argv retries w := by
  unfold clusterExecute
  rcases argv.head? with _ | _ | command
  · exact .inl ⟨_, .inr rfl, fun _ => rfl⟩
  · exact .inl ⟨_, .inr rfl, fun _ => rfl⟩
  · dsimp only
    by_cases hi : 0 < getKeyIndex command ∧ getKeyIndex command < argv.length
    · simp only [if_pos hi]
      rcases argv[(getKeyIndex command).toNat]? with _ | _ | key
      · exact .inl ⟨_, .inr rfl, fun _ => rfl⟩
      · exact .inl ⟨_, .inr rfl, fun _ => rfl⟩
      · exact .inr ⟨key, fun _ => rfl⟩
    · simp only [if_neg hi]
      exact .inl ⟨_, .inl rfl, fun _ => rfl⟩

end VmodRedis.ClusterExecution
