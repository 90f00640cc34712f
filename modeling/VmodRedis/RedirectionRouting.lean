import VmodRedis.WorldInvariant

namespace VmodRedis.ClusterExecution

open CStrings Replies Database Connections Registry Planning DiscoveryWalk Execution Slots

def redirectionOf : Reply → Option (Bool × Bytes)
  | .error str =>
    if (Reply.error str).isRedirection then
      (redirectionLocation str).map fun location => (!strncmp str (bytes "MOVED"), location)
    else none
  | _ => none

def lastRedirection : List Event → Option (Bool × Bytes)
  | [] => none
  | .exchange _ _ _ (some reply) _ :: earlier => (redirectionOf reply).or (lastRedirection earlier)
  | _ :: earlier => lastRedirection earlier

def RegisteredAt (db : Db) (location : Bytes) (s : ServerId) : Prop :=
  db.Registered s ∧ (db.server s).raw = cstr location

def AskedFirst (commands : List Command) : Prop :=
  ∃ before args after, commands = before ++ .asking :: .argv args :: after

structure Asks (ask : Prop) (commands : List Command) : Prop where
  one : ∃ args, ∀ other, .argv other ∈ commands ↔ other = args
  first : AskedFirst commands ↔ ask
  anywhere : .asking ∈ commands ↔ ask

theorem pipeline_asks (readonly asking : Bool) (args : List Bytes) :
    Asks (asking = true) (pipeline readonly asking args) := by
  have hmem : .asking ∈ pipeline readonly asking args ↔ asking = true := by
    cases readonly <;> cases asking <;> simp [pipeline]
  refine ⟨⟨args, fun other => ?_⟩, ⟨?_, ?_⟩, hmem⟩
  · cases readonly <;> cases asking <;> simp [pipeline]
  · rintro ⟨before, other, after, he⟩
    rw [← hmem, he]
    simp
  · rintro rfl
    exact ⟨if readonly then [.readonly] else [], args, if readonly then [.readwrite] else [], by simp [pipeline]⟩

def Routed (db : Db) (last : Option (Bool × Bytes)) : Event → Prop
  | .opened s _ _ | .locked s _ => ∀ p ∈ last, RegisteredAt db p.2 s
  | .exchange s _ commands _ _ => (∀ p ∈ last, RegisteredAt db p.2 s) ∧
      Asks (∃ location, last = some (true, location)) commands
  | _ => True

def AllRouted (db : Db) : List Event → Prop
  | [] => True
  | e :: earlier => Routed db (lastRedirection earlier) e ∧ AllRouted db earlier

theorem RegisteredAt.retained {db db' : Db} {location : Bytes} {s : ServerId} (hr : Retains db db')
    (h : RegisteredAt db location s) : RegisteredAt db' location s :=
  ⟨hr.registered s h.1, (hr.raw s h.1).trans h.2⟩

theorem Routed.retained {db db' : Db} {last : Option (Bool × Bytes)} {e : Event} (hr : Retains db db')
    (h : Routed db last e) : Routed db' last e := by
  cases e with
  | opened s _ _ => exact fun p hp => (h p hp).retained hr
  | locked s _ => exact fun p hp => (h p hp).retained hr
  | exchange s _ _ _ _ => exact ⟨fun p hp => (h.1 p hp).retained hr, h.2⟩
  | _ => trivial

theorem AllRouted.retained {db db' : Db} {events : List Event} (hr : Retains db db') (h : AllRouted db events) :
    AllRouted db' events := by
  induction events with
  | nil => trivial
  | cons e earlier ih => exact ⟨h.1.retained hr, ih h.2⟩

/-- A world in which everything went where it should, `last` being the most recent redirection. -/
structure OnRoute (last : Option (Bool × Bytes)) (w : World) : Prop where
  sound : Sound w
  routed : AllRouted w.db w.trace
  last : lastRedirection w.trace = last

variable {last : Option (Bool × Bytes)} {w w' : World}

theorem OnRoute.evolve (h : OnRoute last w) (he : Evolves w w') (ht : w'.trace = w.trace) :
    OnRoute last w' ∧ Later w w' := by
  obtain ⟨hs, hl⟩ := he h.sound
  exact ⟨⟨hs, ht ▸ h.routed.retained hl.retains, ht ▸ h.last⟩, hl⟩

theorem OnRoute.log (h : OnRoute last w) {e : Event} (hr : Routed w.db last e)
    (hl : lastRedirection (e :: w.trace) = lastRedirection w.trace) : OnRoute last (w.log e) ∧ Later w (w.log e) := by
  obtain ⟨hs, hlater⟩ := (Evolves.refl w).log e h.sound
  refine ⟨⟨hs, ⟨?_, h.routed⟩, hl.trans h.last⟩, hlater⟩
  rw [h.last]
  exact hr

def Reaches (last : Option (Bool × Bytes)) (w : World) (c : ContextId) : Prop :=
  c < w.nextContext ∧ ∀ p ∈ last, RegisteredAt w.db p.2 (w.heap c).server

structure InPlan (last : Option (Bool × Bytes)) (w : World) (plan : Plan) : Prop where
  contexts : ∀ c ∈ plan.contexts, Reaches last w c
  servers : ∀ s ∈ plan.servers, ∀ p ∈ last, RegisteredAt w.db p.2 s

theorem Reaches.later {c : ContextId} (h : Reaches last w c) (hl : Later w w') : Reaches last w' c := by
  refine ⟨h.1.trans_le hl.nextContext, fun p hp => ?_⟩
  rw [hl.server c h.1]
  exact (h.2 p hp).retained hl.retains

theorem InPlan.later {plan : Plan} (h : InPlan last w plan) (hl : Later w w') : InPlan last w' plan :=
  ⟨fun c hc => (h.contexts c hc).later hl, fun s hs p hp => (h.servers s hs p hp).retained hl.retains⟩

structure Locks (last : Option (Bool × Bytes)) (w : World) (r : World × Except Fault (Option ContextId × Plan)) :
    Prop where
  route : OnRoute last r.1
  later : Later w r.1
  plan : ∀ c plan, r.2 = .ok (c, plan) → InPlan last r.1 plan
  context : ∀ c plan, r.2 = .ok (some c, plan) → Reaches last r.1 c

theorem lockPrivateRedisContext_route (input : AttemptInput) {plan : Plan} (h : OnRoute last w)
    (hp : InPlan last w plan) : Locks last w (lockPrivateRedisContext input plan w) := by
  unfold lockPrivateRedisContext
  cases hc : plan.contexts[plan.nextContext]? with
  | some c =>
    have hreach := hp.contexts c (List.mem_of_getElem? hc)
    obtain ⟨hr, hl⟩ := h.log (e := .locked (w.heap c).server (some c)) hreach.2 rfl
    refine ⟨hr, hl, ?_, ?_⟩
    · rintro d q ⟨⟩
      exact ⟨(hp.later hl).contexts, (hp.later hl).servers⟩
    · rintro d q ⟨⟩
      exact hreach.later hl
  | none =>
    cases hs : plan.servers[plan.nextServer]? with
    | none => exact ⟨h, Later.refl w, nofun, nofun⟩
    | some s =>
      have hserver := hp.servers s (List.mem_of_getElem? hs)
      dsimp only
      cases he : evict w with
      | none => exact ⟨h, Later.refl w, nofun, nofun⟩
      | some w₁ =>
        obtain ⟨h₁, hl₁⟩ := h.evolve (evict_evolves he) (evict_inner he).1
        obtain ⟨h₂, hl₂⟩ := h₁.log (e := .opened s (heldContexts w s).length
          (acceptedContexts input.probe w s).length) (fun p hm => (hserver p hm).retained hl₁.retains) rfl
        obtain ⟨r, hr⟩ : ∃ r, createPrivate input s (w₁.log (.opened s (heldContexts w s).length
          (acceptedContexts input.probe w s).length)) = r := ⟨_, rfl⟩
        obtain ⟨h₃, hl₃⟩ := h₂.evolve (createPrivate_evolves input s _) (createPrivate_inner input s _).1
        rw [hr] at h₃ hl₃
        have hl := (hl₁.trans hl₂).trans hl₃
        have hserver' : ∀ p ∈ last, RegisteredAt r.2.db p.2 s := fun p hm => (hserver p hm).retained hl.retains
        obtain ⟨h₄, hl₄⟩ := h₃.log (e := .locked s r.1) hserver' rfl
        dsimp only
        rw [hr]
        refine ⟨h₄, hl.trans hl₄, ?_, ?_⟩
        · rintro d q ⟨⟩
          exact ⟨(hp.later (hl.trans hl₄)).contexts, (hp.later (hl.trans hl₄)).servers⟩
        · rintro d q hd
          have hd' : r.1 = some d := congrArg Prod.fst (Except.ok.inj hd)
          obtain ⟨hlt, hs'⟩ := createPrivate_context (hr ▸ hd')
          rw [hr] at hlt hs'
          refine Reaches.later ⟨hlt, fun p hm => ?_⟩ hl₄
          rw [hs']
          exact hserver' p hm

theorem lockSharedRedisContext_route (input : AttemptInput) {plan : Plan} (h : OnRoute last w)
    (hp : InPlan last w plan) : Locks last w (lockSharedRedisContext input plan w) := by
  unfold lockSharedRedisContext
  cases hs : plan.servers[plan.nextServer]? with
  | none => exact ⟨h, Later.refl w, nofun, nofun⟩
  | some s =>
    have hserver := hp.servers s (List.mem_of_getElem? hs)
    obtain ⟨h₁, hl₁⟩ := h.evolve (lockSections_evolves input s input.meanwhile w)
      (lockSections_trace input s input.meanwhile w)
    have hcontext := fun d => lockSections_context input s input.meanwhile h.sound
      (c := d)
    obtain ⟨⟨w₁, r⟩, hr⟩ : ∃ r, r = lockSections input s input.meanwhile w := ⟨_, rfl⟩
    dsimp only
    rw [← hr] at h₁ hl₁ hcontext ⊢
    cases r with
    | error f => exact ⟨h₁, hl₁, nofun, nofun⟩
    | ok c =>
      have hserver' : ∀ p ∈ last, RegisteredAt w₁.db p.2 s := fun p hm => (hserver p hm).retained hl₁.retains
      obtain ⟨h₂, hl₂⟩ := h₁.log (e := .locked s c) hserver' rfl
      refine ⟨h₂, hl₁.trans hl₂, ?_, ?_⟩
      · rintro d q ⟨⟩
        exact ⟨(hp.later (hl₁.trans hl₂)).contexts, (hp.later (hl₁.trans hl₂)).servers⟩
      · rintro d q ⟨⟩
        obtain ⟨hlt, hs'⟩ := hcontext d rfl
        refine Reaches.later ⟨hlt, fun p hm => ?_⟩ hl₂
        rw [hs']
        exact hserver' p hm

theorem lockRedisContext_route (input : AttemptInput) {plan : Plan} (h : OnRoute last w) (hp : InPlan last w plan) :
    Locks last w (lockRedisContext input plan w) := by
  unfold lockRedisContext
  split_ifs
  · exact lockSharedRedisContext_route input h hp
  · exact lockPrivateRedisContext_route input h hp

def lastAfter (reply : Option Reply) (last : Option (Bool × Bytes)) : Option (Bool × Bytes) :=
  (reply.bind redirectionOf).or last

structure Sends (last : Option (Bool × Bytes)) (w w' : World) (reply : Option Reply) : Prop where
  route : OnRoute (lastAfter reply last) w'
  later : Later w w'

theorem Sends.none (h : OnRoute last w') (hl : Later w w') : Sends last w w' none := ⟨h, hl⟩

theorem getRedisRepy_route (answer : Command → Option Reply) {asking : Bool} (ha : asking = last.any Prod.fst)
    {c : ContextId} (args : List Bytes) (h : OnRoute last w) (hc : Reaches last w c) :
    Sends last w (getRedisRepy answer asking c args w).1 (getRedisRepy answer asking c args w).2 := by
  unfold getRedisRepy
  dsimp only
  obtain ⟨⟨replies, failed⟩, hr⟩ : ∃ r, readReplies answer (pipeline (isReadonly w c) asking args) = r := ⟨_, rfl⟩
  rw [hr]
  obtain ⟨reply, hreply⟩ : ∃ r, (replies[(isReadonly w c).toNat + asking.toNat]?).join = r := ⟨_, rfl⟩
  dsimp only
  rw [hreply]
  obtain ⟨h₁, hl₁⟩ := h.evolve (Evolves.touch c { w.heap c with err := (w.heap c).err || failed } rfl) rfl
  obtain ⟨hs₂, hl₂⟩ := (Evolves.refl _).log (.exchange (w.heap c).server c (pipeline (isReadonly w c) asking args)
    reply ((w.heap c).err || failed)) h₁.sound
  refine ⟨⟨hs₂, ⟨?_, h₁.routed⟩, ?_⟩, hl₁.trans hl₂⟩
  · rw [h₁.last]
    have hask : (∃ location, last = some (true, location)) ↔ asking = true := by
      rw [ha]
      obtain _ | ⟨ask, location⟩ := last <;> simp
    refine ⟨hc.2, ?_⟩
    rw [hask]
    exact pipeline_asks (isReadonly w c) asking args
  · cases reply with
    | none => exact h.last
    | some reply => exact congrArg ((redirectionOf reply).or ·) h.last

theorem send_route (answer : Command → Option Reply) {asking : Bool} (ha : asking = last.any Prod.fst)
    {c : ContextId} (argv : Argv) (h : OnRoute last w) (hc : Reaches last w c) :
    Sends last w (send answer asking c argv w).1 (replied (send answer asking c argv w).2) := by
  unfold send
  cases argv.mapM id with
  | none => exact ⟨h, .refl w⟩
  | some args => exact getRedisRepy_route answer ha args h hc

theorem lastAfter_noscript (last : Option (Bool × Bytes)) {c : ContextId} {reply : Option Reply} (h : isNoscriptReply w c reply = true) :
    lastAfter reply last = last := by
  cases reply with
  | none => rfl
  | some r =>
    have hn : r.isNoscript = true := (Bool.and_eq_true_iff.mp h).2
    cases r with
    | error str =>
      have hr := Reply.isNoscript_not_redirection hn
      simp [lastAfter, redirectionOf, hr]
    | _ => rfl

section

variable (sha1 : Bytes → Bytes)

theorem evaluate_route (input : AttemptInput) {asking : Bool} (ha : asking = last.any Prod.fst) {c : ContextId}
    (script : Bytes) (rest : Argv) (h : OnRoute last w) (hc : Reaches last w c) :
    Sends last w (evaluate sha1 input asking c script rest w).1
      (resultReply (evaluate sha1 input asking c script rest w).2.2) := by
  have hs := send_route input.first ha (some (bytes "EVALSHA") :: some (sha1 script) :: rest) h hc
  obtain ⟨⟨w', outcome⟩, hr⟩ : ∃ r, r = send input.first asking c
    (some (bytes "EVALSHA") :: some (sha1 script) :: rest) w := ⟨_, rfl⟩
  rw [← hr] at hs
  unfold evaluate
  by_cases he : (!input.copies.evalsha) = true
  · rw [if_pos he]
    exact ⟨h, .refl w⟩
  by_cases hv : (!input.copies.sha) = true
  · rw [if_neg he, if_pos hv]
    exact ⟨h, .refl w⟩
  simp only [if_neg he, if_neg hv, ← hr]
  cases outcome with
  | error f => exact hs
  | ok reply =>
    dsimp only
    by_cases hn : isNoscriptReply w' c reply = true
    · have hquiet := lastAfter_noscript last hn
      obtain ⟨hroute, hlater⟩ := hs
      change OnRoute (lastAfter reply last) w' at hroute
      rw [hquiet] at hroute
      rw [if_pos hn]
      by_cases hcopy : (!input.copies.eval) = true
      · rw [if_pos hcopy]
        exact ⟨hroute, hlater⟩
      · rw [if_neg hcopy]
        obtain ⟨hcount, hl⟩ := OnRoute.evolve hroute (Evolves.stats rfl rfl rfl : Evolves w' (countNoscript w')) rfl
        obtain ⟨hroute', hlater'⟩ := send_route input.second ha (some (bytes "EVAL") :: some script :: rest) hcount
          (hc.later (hlater.trans hl))
        dsimp only
        rw [ofSend_world, ofSend_replied]
        exact ⟨hroute', (hlater.trans hl).trans hlater'⟩
    · rw [if_neg hn]
      exact hs

theorem executeOn_route (input : AttemptInput) {asking : Bool} (ha : asking = last.any Prod.fst) {c : ContextId}
    (argv : Argv) (h : OnRoute last w) (hc : Reaches last w c) :
    Sends last w (executeOn sha1 input asking c argv w).1
      (resultReply (executeOn sha1 input asking c argv w).2.2) := by
  unfold executeOn
  split
  · split_ifs
    · exact evaluate_route sha1 input ha _ _ h hc
    · dsimp only
      rw [ofSend_world, ofSend_replied]
      exact send_route input.first ha _ h hc
  · dsimp only
    rw [ofSend_world, ofSend_replied]
    exact send_route input.first ha _ h hc
  · exact ⟨h, .refl w⟩

theorem unlockRedisContext_evolves (c : ContextId) (hc : c < w.nextContext) : Evolves w (unlockRedisContext c w) := by
  unfold unlockRedisContext
  split_ifs
  · exact unlock_evolves c w hc
  · exact .refl w

theorem attempt_route (input : AttemptInput) {asking : Bool} (ha : asking = last.any Prod.fst) {plan : Plan}
    (argv : Argv) (h : OnRoute last w) (hp : InPlan last w plan) :
    Sends last w (attempt sha1 input asking plan argv w).world
        (resultReply (attempt sha1 input asking plan argv w).outcome) ∧
      InPlan last (attempt sha1 input asking plan argv w).world (attempt sha1 input asking plan argv w).plan := by
  have hlock := lockRedisContext_route input h hp
  obtain ⟨⟨w₁, r⟩, hr⟩ : ∃ r, r = lockRedisContext input plan w := ⟨_, rfl⟩
  unfold attempt
  rw [← hr] at hlock ⊢
  obtain ⟨hroute, hlater, hplan, hcontext⟩ := hlock
  rcases r with f | ⟨_ | c, plan'⟩
  · exact ⟨⟨hroute, hlater⟩, hp.later hlater⟩
  · exact ⟨⟨hroute, hlater⟩, hplan none plan' rfl⟩
  · have hreach := hcontext c plan' rfl
    have hx := executeOn_route sha1 input ha argv hroute hreach
    obtain ⟨⟨w₂, argv', d⟩, hrun⟩ : ∃ r, r = executeOn sha1 input asking c argv w₁ := ⟨_, rfl⟩
    dsimp only
    rw [← hrun] at hx ⊢
    have hplan' : InPlan last w₂ plan' := (hplan (some c) plan' rfl).later hx.later
    cases d with
    | error f => exact ⟨⟨hx.route, hlater.trans hx.later⟩, hplan'⟩
    | ok result =>
      obtain ⟨hu, hl⟩ := hx.route.evolve (unlockRedisContext_evolves c (hreach.1.trans_le hx.later.nextContext))
        (unlockRedisContext_trace c w₂)
      exact ⟨⟨hu, (hlater.trans hx.later).trans hl⟩, hplan'.later hl⟩

theorem countCommand_evolves (retries : ℕ) (reply : Option Reply) (w : World) :
    Evolves w (countCommand retries reply w) := by
  unfold countCommand
  apply Evolves.stats <;> cases reply <;> dsimp only <;> split_ifs <;> rfl

theorem attempts_route (input : ℕ → AttemptInput) {call : Call} (ha : call.asking = last.any Prod.fst) (n i : ℕ)
    {plan : Plan} (argv : Argv) (h : OnRoute last w) (hp : InPlan last w plan) :
    Sends last w (attempts sha1 input call n i plan argv w).world
      (replied (attempts sha1 input call n i plan argv w).outcome) := by
  induction n using Nat.strong_induction_on generalizing i plan argv w with
  | _ n ih =>
    obtain ⟨h₀, hl₀⟩ := h.log (e := .attempt) trivial rfl
    obtain ⟨hsends, hplan⟩ := attempt_route sha1 (input i) ha argv h₀ (hp.later hl₀)
    obtain ⟨a, ha'⟩ : ∃ a, attempt sha1 (input i) call.asking plan argv (w.log .attempt) = a := ⟨_, rfl⟩
    rw [ha'] at hsends hplan
    obtain ⟨hroute, hlater⟩ := hsends
    rcases attempts_cases sha1 input call n i plan argv w ha' with
      ⟨f, ho, hr⟩ | ⟨ho, hr⟩ | ⟨reply, ho, -, hr⟩ | ⟨m, rfl, ho, hr⟩ <;> rw [hr] <;> rw [ho] at hroute
    · exact ⟨hroute, hl₀.trans hlater⟩
    · exact ⟨hroute, hl₀.trans hlater⟩
    · obtain ⟨hcount, hl⟩ := hroute.evolve (countCommand_evolves (call.maxRetries - n) reply a.world) rfl
      exact ⟨hcount, (hl₀.trans hlater).trans hl⟩
    · obtain ⟨hcount, hl⟩ := hroute.evolve (countCommand_evolves (call.maxRetries - (m + 1)) none a.world) rfl
      obtain ⟨hroute', hlater'⟩ := ih m (Nat.lt_succ_self m) (i + 1) a.argv hcount (hplan.later hl)
      exact ⟨hroute', ((hl₀.trans hlater).trans hl).trans hlater'⟩

structure Follows (last : Option (Bool × Bytes)) (w : World) (server : Option ServerId) (asking : Bool) : Prop where
  asking : asking = last.any Prod.fst
  server : ∀ p ∈ last, ∃ s, server = some s ∧ RegisteredAt w.db p.2 s

theorem redisExecute_route (input : CallInput) (call : Call) (argv : Argv) (retries : ℕ) (h : OnRoute last w)
    (hf : Follows last w call.server call.asking) :
    Sends last w (redisExecute sha1 input call argv retries w).world
      (replied (redisExecute sha1 input call argv retries w).outcome) := by
  obtain ⟨henter, hlenter⟩ := h.log (e := .enter retries) trivial rfl
  by_cases hr : retries ≤ call.maxRetries
  · obtain ⟨p, hp⟩ : ∃ p, planExecution input.plan w.heap (maxSize call.maxRetries retries) call.server call.master
      call.slot w.task w.db = p := ⟨_, rfl⟩
    have hroute : ∀ plan task db, p = .ok (plan, task, db) →
        OnRoute last (w.planned retries task db) ∧ Later w (w.planned retries task db) ∧
          ∀ q ∈ plan, InPlan last (w.planned retries task db) q := by
      rintro plan task db rfl
      obtain ⟨h₁, hl₁⟩ := h.evolve (planned_evolves hp) rfl
      obtain ⟨h₂, hl₂⟩ := h₁.log (e := .enter retries) trivial rfl
      refine ⟨h₂, hl₁.trans hl₂, fun q hq => InPlan.later ?_ (hl₁.trans hl₂)⟩
      obtain ⟨hcontexts, hcontext, hservers⟩ := (planExecution_planned hp).2 q hq
      refine ⟨fun c hc => ⟨h.sound.allocated c (hcontexts c hc), fun p hm => ?_⟩, fun t ht p hm => ?_⟩
      · obtain ⟨s, hs, hat⟩ := hf.server p hm
        rw [hcontext c hc s hs]
        exact hat
      · obtain ⟨s, hs, hat⟩ := hf.server p hm
        rw [hservers t ht s hs]
        exact hat
    rcases redisExecute_cases sha1 input call argv w hr hp with
      ⟨f, -, he⟩ | ⟨plan, task, db, hplan, -, he⟩ | ⟨plan, task, db, hplan, -, he⟩ <;> rw [he]
    · exact ⟨henter, hlenter⟩
    · obtain ⟨h₁, hl₁, -⟩ := hroute plan task db hplan
      obtain ⟨h₂, hl₂⟩ := h₁.log (e := .leave call.maxRetries) trivial rfl
      exact ⟨h₂, hl₁.trans hl₂⟩
    · obtain ⟨h₁, hl₁, hin⟩ := hroute (some plan) task db hplan
      obtain ⟨h₂, hl₂⟩ := attempts_route sha1 input.attempt hf.asking (call.maxRetries - retries) 0 argv h₁ (hin plan rfl)
      obtain ⟨r, hrun⟩ : ∃ r, attempts sha1 input.attempt call (call.maxRetries - retries) 0 plan argv
        (w.planned retries task db) = r := ⟨_, rfl⟩
      rw [hrun] at h₂ hl₂ ⊢
      rcases leave_cases r with ⟨f, -, hl⟩ | ⟨reply, -, hl⟩ <;> rw [hl]
      · exact ⟨h₂, hl₁.trans hl₂⟩
      · obtain ⟨h₃, hl₃⟩ := h₂.log (e := .leave r.retries) trivial rfl
        exact ⟨h₃, (hl₁.trans hl₂).trans hl₃⟩
  · rw [redisExecute_exceeded sha1 input call argv w (Nat.not_le.mp hr)]
    exact ⟨henter, hlenter⟩

theorem unsafeAddRedisServer_at {db db' : Db} (h : WellPlaced db) {input : AddInput} {rules : List WeightRule}
    {location : Bytes} {role : Role} {s : ServerId}
    (ha : unsafeAddRedisServer input rules location role db = (some s, db')) : RegisteredAt db' location s := by
  rcases unsafeAddRedisServer_spec h input rules location role with ⟨t, d, he, hadded, -, hraw⟩ | ⟨-, he⟩ <;>
    rw [he] at ha <;> cases ha
  exact ⟨(hadded.registered s).mpr (Or.inr rfl), hraw⟩

theorem redirect_route (fuel : ℕ) (input : RedirectInput) (i : ℕ) (str : Bytes) (h : OnRoute last w) :
    OnRoute last (redirect fuel input i str w).1 ∧ Later w (redirect fuel input i str w).1 ∧
      ∀ s, (redirect fuel input i str w).2 = .ok s → ∃ location, redirectionLocation str = some location ∧
        RegisteredAt (redirect fuel input i str w).1.db location s := by
  have hadd : ∀ location r db, unsafeAddRedisServer input.add input.rules location .tbd w.db = (r, db) →
      OnRoute last { w with db := db } ∧ Later w { w with db := db } := by
    intro location r db ha
    have hg := unsafeAddRedisServer_grows h.sound.wellPlaced input.add input.rules location .tbd
    rw [ha] at hg
    exact h.evolve (.grow fun _ => hg) rfl
  rcases redirect_cases fuel input i str w with
    ⟨-, hr⟩ | ⟨location, db, -, ha, hr⟩ | ⟨location, s, db, hloc, ha, hcases⟩
  · rw [hr]
    exact ⟨h, .refl w, nofun⟩
  · rw [hr]
    obtain ⟨h₁, hl₁⟩ := hadd location none db ha
    exact ⟨h₁, hl₁, nofun⟩
  · have hat := unsafeAddRedisServer_at h.sound.wellPlaced ha
    obtain ⟨h₁, hl₁⟩ := hadd location (some s) db ha
    rcases hcases with ⟨-, hr⟩ | ⟨-, hcases⟩
    · obtain ⟨h₂, hl₂⟩ := h₁.log (e := .redirection true location s) trivial rfl
      obtain ⟨h₃, hl₃⟩ := h₂.evolve (Evolves.stats rfl rfl rfl : Evolves _ (countAsk _)) rfl
      rw [hr]
      refine ⟨h₃, (hl₁.trans hl₂).trans hl₃, ?_⟩
      rintro t ⟨⟩
      exact ⟨location, hloc, hat⟩
    · obtain ⟨h₂, hl₂⟩ := h₁.log (e := .redirection false location s) trivial rfl
      obtain ⟨h₃, hl₃⟩ := h₂.evolve (Evolves.stats rfl rfl rfl : Evolves _ (countMoved _)) rfl
      obtain ⟨h₄, hl₄⟩ := h₃.log (e := .discovering i s) trivial rfl
      have hl := ((hl₁.trans hl₂).trans hl₃).trans hl₄
      rcases hcases with ⟨-, hr⟩ | ⟨found, walk, hd, hr⟩ <;> rw [hr]
      · exact ⟨h₄, hl, nofun⟩
      · have hg := unsafeDiscoverSlots_grows h₄.sound.wellPlaced hd
        obtain ⟨h₅, hl₅⟩ := h₄.evolve (.grow fun _ => hg) rfl
        refine ⟨h₅, hl.trans hl₅, ?_⟩
        rintro t ⟨⟩
        exact ⟨location, hloc, hat.retained (((hl₂.trans hl₃).trans hl₄).trans hl₅).retains⟩

theorem follow_route (fuel : ℕ) (input : ClusterInput) (maxRetries : ℕ) (master : Bool) (slot hops i : ℕ)
    {server : Option ServerId} {asking : Bool} (argv : Argv) (retries : ℕ) (h : OnRoute last w)
    (hf : Follows last w server asking) :
    ∃ last', OnRoute last' (follow sha1 fuel input maxRetries master slot hops i server asking argv retries w).world ∧
      Later w (follow sha1 fuel input maxRetries master slot hops i server asking argv retries w).world := by
  induction hops using Nat.strong_induction_on generalizing last i server asking argv retries w with
  | _ hops ih =>
    obtain ⟨hroute, hlater⟩ := redisExecute_route sha1 (input.call i)
      ⟨maxRetries, server, asking, master, slot⟩ argv retries h hf
    obtain ⟨r, hrun⟩ : ∃ r, redisExecute sha1 (input.call i) ⟨maxRetries, server, asking, master, slot⟩ argv retries
      w = r := ⟨_, rfl⟩
    rw [hrun] at hroute hlater
    rcases follow_cases sha1 fuel input maxRetries master slot hops i server asking argv retries w hrun with
      ⟨-, he⟩ | ⟨str, ⟨ho, hi⟩, hcases⟩
    · rw [he]
      exact ⟨_, hroute, hlater⟩
    · obtain ⟨h₁, hl₁, hat⟩ := redirect_route fuel (input.redirect i) i str hroute
      rw [ho] at h₁
      rcases hcases with ⟨w', f, hw, he⟩ | ⟨w', s, hw, -, he⟩ | ⟨w', s, m, hw, rfl, -, he⟩ <;>
        rw [hw] at h₁ hl₁ hat <;> rw [he]
      · exact ⟨_, h₁, hlater.trans hl₁⟩
      · exact ⟨_, h₁, hlater.trans hl₁⟩
      · obtain ⟨location, hloc, hs⟩ := hat s rfl
        obtain ⟨h₂, hl₂⟩ := h₁.log (e := .followed) trivial rfl
        have hlast : lastAfter (some (.error str)) last = some (!strncmp str (bytes "MOVED"), location) := by
          simp [lastAfter, redirectionOf, hi, hloc]
        change OnRoute (lastAfter (some (.error str)) last) (w'.log .followed) at h₂
        rw [hlast] at h₂
        have hnext : Follows (some (!strncmp str (bytes "MOVED"), location)) (w'.log .followed) (some s)
            (!strncmp str (bytes "MOVED")) := by
          refine ⟨by simp, ?_⟩
          rintro p ⟨⟩
          exact ⟨s, rfl, hs⟩
        obtain ⟨last', h₃, hl₃⟩ := ih m (Nat.lt_succ_self m) (i + 1) r.argv r.retries h₂ hnext
        exact ⟨last', h₃, ((hlater.trans hl₁).trans hl₂).trans hl₃⟩

/-- In a run of `cluster_execute` every event goes to the one server that the most recent redirection names, and
`ASKING` is sent if and only if that redirection is an `ASK`. -/
theorem redirections_routed (fuel : ℕ) (input : ClusterInput) (maxRetries : ℕ) (master : Bool) (argv : Argv)
    (retries : ℕ) (w : World) (h : Sound w) (ht : w.trace = []) :
    AllRouted (clusterExecute sha1 fuel input maxRetries master argv retries w).world.db
        (clusterExecute sha1 fuel input maxRetries master argv retries w).world.trace ∧
      ∀ location s t, RegisteredAt (clusterExecute sha1 fuel input maxRetries master argv retries w).world.db location s →
        RegisteredAt (clusterExecute sha1 fuel input maxRetries master argv retries w).world.db location t → s = t := by
  have hstart : OnRoute none w := ⟨h, ht ▸ trivial, ht ▸ rfl⟩
  have hend : ∃ last, OnRoute last (clusterExecute sha1 fuel input maxRetries master argv retries w).world := by
    rcases clusterExecute_cases sha1 input maxRetries master argv retries w with ⟨outcome, -, he⟩ | ⟨key, he⟩ <;>
      rw [he]
    · exact ⟨none, hstart⟩
    · obtain ⟨last, hroute, -⟩ := follow_route sha1 fuel input maxRetries master (getClusterSlot key) (hopsOf w.db) 0 argv
        retries hstart ⟨rfl, nofun⟩
      exact ⟨last, hroute⟩
  obtain ⟨last, hroute⟩ := hend
  refine ⟨hroute.routed, fun location s t hs ht => ?_⟩
  exact hroute.sound.wellPlaced.raw_injective s t hs.1 ht.1 (hs.2.trans ht.2.symm)

end

def isAsked : Event → Bool
  | .exchange _ _ [.asking, .argv _] _ _ => true
  | _ => false

theorem redirections_routed_ask :
    AllRouted (clusterExecute id 0 (redirecting (bytes "ASK 0 10.0.0.2:6379")) 1 false getKey 0
        (idleWorld masters)).world.db
      (clusterExecute id 0 (redirecting (bytes "ASK 0 10.0.0.2:6379")) 1 false getKey 0 (idleWorld masters)).world.trace ∧
    ((clusterExecute id 0 (redirecting (bytes "ASK 0 10.0.0.2:6379")) 1 false getKey 0
        (idleWorld masters)).world.trace.countP isAsked) = 1 :=
  ⟨(redirections_routed id 0 (redirecting (bytes "ASK 0 10.0.0.2:6379")) 1 false getKey 0 (idleWorld masters)
    masters_sound rfl).1, by decide +kernel⟩

end VmodRedis.ClusterExecution
