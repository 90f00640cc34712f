import VmodRedis.PrivateContexts
import VmodRedis.WorldInvariant

namespace VmodRedis.Execution

open CStrings Replies Database Connections Registry Planning DiscoveryWalk ClusterExecution SharedPool

theorem act_same (w : World) (a : PoolAction) : SameRegistry w.db (act w a).db := by
  cases a with
  | lock probe connected s => exact lockSection_same _ s w.heap w.db
  | unlock c =>
    unfold act
    dsimp only
    split_ifs
    · exact .setPool _ _ _
    · exact .refl _
  | fail c => exact .refl _

theorem evict_same {w w' : World} (he : evict w = some w') : SameRegistry w.db w'.db := by
  unfold evict at he
  split_ifs at he
  · cases hc : w.task.contexts <;> rw [hc] at he <;> cases he
    exact .setStats _ _ rfl rfl rfl
  · cases he
    exact .refl _

theorem createPrivate_same (input : AttemptInput) (s : ServerId) (w : World) :
    SameRegistry w.db (createPrivate input s w).2.db := by
  have hsame := (newRcontext_only input.probe.now false input.connected s w.db).same
  unfold createPrivate
  dsimp only
  split_ifs
  · exact hsame
  · exact hsame

theorem unsafeAddRedisServer_registers {input : AddInput} {rules : List WeightRule} {location : Bytes} {role : Role}
    {db db' : Db} {s : ServerId} (h : WellPlaced db) (ha : unsafeAddRedisServer input rules location role db = (some s, db')) :
    db'.Registered s := by
  obtain ⟨t, d, he, hadded, -, -⟩ | ⟨-, he⟩ := unsafeAddRedisServer_spec h input rules location role
  · rw [ha, Prod.mk.injEq, Option.some.injEq] at he
    obtain ⟨rfl, rfl⟩ := he
    exact (hadded.registered s).mpr (Or.inr rfl)
  · rw [ha, Prod.mk.injEq] at he
    cases he.1

def PoolAction.Reads (P : Probe → Prop) : PoolAction → Prop
  | .lock probe _ _ => P probe
  | _ => True

structure AttemptInput.Reads (P : Probe → Prop) (input : AttemptInput) : Prop where
  probe : P input.probe
  meanwhile : ∀ actions ∈ input.meanwhile, ∀ a ∈ actions, a.Reads P

structure CallInput.Reads (P : Probe → Prop) (input : CallInput) : Prop where
  plan : P input.plan.probe
  attempt : ∀ i, (input.attempt i).Reads P

theorem PoolAction.reads_all (a : PoolAction) : a.Reads fun _ => True := by
  cases a <;> trivial

theorem CallInput.reads_all (input : CallInput) : input.Reads fun _ => True :=
  ⟨trivial, fun _ => ⟨trivial, fun _ _ a _ => a.reads_all⟩⟩

structure Uses (D : List WeightRule → Prop) (E : DiscoveryInput → Prop) (input : RedirectInput) : Prop where
  rules : D input.rules
  discovery : E input.discovery

/-- What has to be shown of the parts of an attempt for a relation `R` between the world before and after it: `I` is
what every part keeps, `S` what is known of the servers of the plan, and `Q` what is known of a context from the moment
it is planned, found or created. -/
structure AttemptRule (P : Probe → Prop) (S : ServerId → Prop) (I : World → Prop) (R : World → World → Prop)
    (Q : World → ContextId → Prop) : Prop where
  refl : ∀ {w}, I w → R w w
  trans : ∀ {a b c}, R a b → R b c → R a c
  inv : ∀ {w w'}, R w w' → I w'
  context : ∀ {w w' c}, R w w' → Q w c → Q w' c
  log : ∀ {w} e, I w → e.isExchange = false → R w (w.log e)
  stats : ∀ {w} stats, I w → stats.serversTotal = w.db.stats.serversTotal →
    stats.discoveriesTotal = w.db.stats.discoveriesTotal → stats.discoveriesFailed = w.db.stats.discoveriesFailed →
    R w { w with db := w.db.setStats stats }
  lock : ∀ {w} probe connected s, I w → P probe → S s → R w (runSection probe connected s w).2 ∧
    ∀ c, (runSection probe connected s w).1 = .context c → Q (runSection probe connected s w).2 c
  act : ∀ {w} a, I w → a.Reads P → R w (act w a)
  unlock : ∀ {w} c, I w → Q w c → R w { w with db := unlockSharedRedisContext c w.heap w.db }
  evict : ∀ {w w'}, I w → evict w = some w' → R w w'
  create : ∀ {w} input s, I w → P input.probe → S s → R w (createPrivate input s w).2 ∧
    ∀ c, (createPrivate input s w).1 = some c → Q (createPrivate input s w).2 c
  exchange : ∀ {w} answer asking c args, I w → Q w c → R w (getRedisRepy answer asking c args w).1

structure Within (S : ServerId → Prop) (Q : World → ContextId → Prop) (w : World) (plan : Plan) : Prop where
  contexts : ∀ c ∈ plan.contexts, Q w c
  servers : ∀ s ∈ plan.servers, S s

theorem Within.later {P : Probe → Prop} {S : ServerId → Prop} {I : World → Prop} {R : World → World → Prop}
    {Q : World → ContextId → Prop} {w w' : World} {plan : Plan} (hplan : Within S Q w plan) (h : AttemptRule P S I R Q)
    (hr : R w w') : Within S Q w' plan :=
  ⟨fun c hc => h.context hr (hplan.contexts c hc), hplan.servers⟩

def Plans (S : ServerId → Prop) (R : World → World → Prop) (Q : World → ContextId → Prop) (w : World)
    (plan : Option Plan) (task : Task) (db : Db) : Prop :=
  R w { w with task := task, db := db } ∧ ∀ p ∈ plan, Within S Q { w with task := task, db := db } p

/-- The same for whole commands: `D` is what is known of the weight rules, and `E` of what discoveries meet. -/
structure CommandRule (P : Probe → Prop) (D : List WeightRule → Prop) (E : DiscoveryInput → Prop) (S : ServerId → Prop)
    (I : World → Prop) (R : World → World → Prop) (Q : World → ContextId → Prop) : Prop extends
    AttemptRule P S I R Q where
  wellPlaced : ∀ {w}, I w → WellPlaced w.db
  plan : ∀ {w input size server master slot plan task db}, I w → P input.probe →
    planExecution input w.heap size server master slot w.task w.db = .ok (plan, task, db) → Plans S R Q w plan task db
  add : ∀ {w} input rules location role, I w → D rules →
    R w { w with db := (unsafeAddRedisServer input rules location role w.db).2 }
  discover : ∀ {w fuel input s found walk}, I w → E input → w.db.Registered s →
    unsafeDiscoverSlots fuel input s w.db = some (found, walk) → R w { w with db := walk.db }

section

variable {P : Probe → Prop} {D : List WeightRule → Prop} {E : DiscoveryInput → Prop} {S : ServerId → Prop}
  {I : World → Prop} {R : World → World → Prop} {Q : World → ContextId → Prop} {w w' : World}

namespace AttemptRule

theorem weaken {R' : World → World → Prop} (h : AttemptRule P S I R Q) (hR : ∀ {w w'}, R w w' → R' w w')
    (htrans : ∀ {a b c}, R' a b → R' b c → R' a c) (hinv : ∀ {w w'}, R' w w' → I w')
    (hcontext : ∀ {w w' c}, R' w w' → Q w c → Q w' c) : AttemptRule P S I R' Q where
  refl hw := hR (h.refl hw)
  trans := htrans
  inv := hinv
  context := hcontext
  log e hw he := hR (h.log e hw he)
  stats s hw hs ht hf := hR (h.stats s hw hs ht hf)
  lock probe connected s hw hp hs := (h.lock probe connected s hw hp hs).imp_left hR
  act a hw ha := hR (h.act a hw ha)
  unlock c hw hc := hR (h.unlock c hw hc)
  evict hw he := hR (h.evict hw he)
  create input s hw hp hs := (h.create input s hw hp hs).imp_left hR
  exchange answer asking c args hw hc := hR (h.exchange answer asking c args hw hc)

theorem acts (h : AttemptRule P S I R Q) (hw : I w) {actions : List PoolAction} (hr : ∀ a ∈ actions, a.Reads P) :
    R w (actions.foldl Execution.act w) := by
  induction actions generalizing w with
  | nil => exact h.refl hw
  | cons a actions ih =>
    obtain ⟨ha, hactions⟩ := List.forall_mem_cons.mp hr
    have hact := h.act a hw ha
    exact h.trans hact (ih (h.inv hact) hactions)

theorem lockSections (h : AttemptRule P S I R Q) {input : AttemptInput} (hp : P input.probe) {s : ServerId} (hs : S s)
    {meanwhile : List (List PoolAction)} (hm : ∀ actions ∈ meanwhile, ∀ a ∈ actions, a.Reads P) (hw : I w) :
    R w (Execution.lockSections input s meanwhile w).1 ∧
      ∀ c, (Execution.lockSections input s meanwhile w).2 = .ok (some c) →
        Q (Execution.lockSections input s meanwhile w).1 c := by
  induction meanwhile generalizing w with
  | nil =>
    obtain ⟨hlock, hcontext⟩ := h.lock input.probe input.connected s hw hp hs
    obtain ⟨⟨locked, w'⟩, hr⟩ : ∃ r, r = runSection input.probe input.connected s w := ⟨_, rfl⟩
    unfold Execution.lockSections
    rw [← hr] at hlock hcontext ⊢
    cases locked with
    | context c =>
      refine ⟨hlock, ?_⟩
      rintro d ⟨⟩
      exact hcontext c rfl
    | waiting => exact ⟨hlock, fun c hc => by cases hc⟩
    | failed => exact ⟨hlock, fun c hc => by cases hc⟩
  | cons actions rest ih =>
    obtain ⟨hlock, hcontext⟩ := h.lock input.probe input.connected s hw hp hs
    obtain ⟨hactions, hrest⟩ := List.forall_mem_cons.mp hm
    obtain ⟨⟨locked, w'⟩, hr⟩ : ∃ r, r = runSection input.probe input.connected s w := ⟨_, rfl⟩
    unfold Execution.lockSections
    rw [← hr] at hlock hcontext ⊢
    cases locked with
    | context c =>
      refine ⟨hlock, ?_⟩
      rintro d ⟨⟩
      exact hcontext c rfl
    | failed => exact ⟨hlock, fun c hc => by cases hc⟩
    | waiting =>
      have hacts := h.acts (h.inv hlock) hactions
      have hblocked : R _ { actions.foldl Execution.act w' with db := countBlocked (actions.foldl Execution.act w').db } :=
        h.stats _ (h.inv hacts) rfl rfl rfl
      obtain ⟨hloop, hfound⟩ := ih hrest (h.inv hblocked)
      exact ⟨h.trans (h.trans (h.trans hlock hacts) hblocked) hloop, hfound⟩

def Locks (R : World → World → Prop) (Q : World → ContextId → Prop) (w : World) (plan : Plan)
    (r : World × Except Fault (Option ContextId × Plan)) : Prop :=
  R w r.1 ∧ ∀ c plan', r.2 = .ok (c, plan') → (plan'.contexts = plan.contexts ∧ plan'.servers = plan.servers) ∧
    ∀ d, c = some d → Q r.1 d

theorem lockPrivate (h : AttemptRule P S I R Q) {input : AttemptInput} (hp : P input.probe) {plan : Plan}
    (hplan : Within S Q w plan) (hw : I w) : Locks R Q w plan (lockPrivateRedisContext input plan w) := by
  unfold lockPrivateRedisContext
  cases hc : plan.contexts[plan.nextContext]? with
  | some c =>
    have hlog := h.log (.locked (w.heap c).server (some c)) hw rfl
    refine ⟨hlog, ?_⟩
    rintro d plan' ⟨⟩
    refine ⟨⟨rfl, rfl⟩, ?_⟩
    rintro e ⟨⟩
    exact h.context hlog (hplan.contexts c (List.mem_of_getElem? hc))
  | none =>
    cases hs : plan.servers[plan.nextServer]? with
    | none => exact ⟨h.refl hw, nofun⟩
    | some s =>
      dsimp only
      cases he : Execution.evict w with
      | none => exact ⟨h.refl hw, nofun⟩
      | some w₁ =>
        dsimp only
        have hevict := h.evict hw he
        have hopened := h.log (.opened s (heldContexts w s).length (acceptedContexts input.probe w s).length)
          (h.inv hevict) rfl
        obtain ⟨hcreate, hcreated⟩ := h.create input s (h.inv hopened) hp (hplan.servers s (List.mem_of_getElem? hs))
        have hlocked := h.log (.locked s (createPrivate input s (w₁.log
          (.opened s (heldContexts w s).length (acceptedContexts input.probe w s).length))).1) (h.inv hcreate) rfl
        refine ⟨h.trans (h.trans (h.trans hevict hopened) hcreate) hlocked, ?_⟩
        intro c plan' heq
        obtain ⟨hc, rfl⟩ := Prod.mk.inj (Except.ok.inj heq)
        exact ⟨⟨rfl, rfl⟩, fun d hd => h.context hlocked (hcreated d (hc.trans hd))⟩

theorem lockShared (h : AttemptRule P S I R Q) {input : AttemptInput} (hr : input.Reads P) {plan : Plan}
    (hplan : Within S Q w plan) (hw : I w) : Locks R Q w plan (lockSharedRedisContext input plan w) := by
  unfold lockSharedRedisContext
  cases hs : plan.servers[plan.nextServer]? with
  | none => exact ⟨h.refl hw, nofun⟩
  | some s =>
    obtain ⟨hlock, hfound⟩ := h.lockSections hr.probe (hplan.servers s (List.mem_of_getElem? hs)) hr.meanwhile hw
    obtain ⟨⟨w₁, r⟩, hrun⟩ : ∃ r, r = Execution.lockSections input s input.meanwhile w := ⟨_, rfl⟩
    dsimp only
    rw [← hrun] at hlock hfound ⊢
    cases r with
    | error f => exact ⟨hlock, nofun⟩
    | ok c =>
      have hlog := h.log (.locked s c) (h.inv hlock) rfl
      refine ⟨h.trans hlock hlog, ?_⟩
      rintro d plan' ⟨⟩
      refine ⟨⟨rfl, rfl⟩, ?_⟩
      rintro e rfl
      exact h.context hlog (hfound e rfl)

theorem lockContext (h : AttemptRule P S I R Q) {input : AttemptInput} (hr : input.Reads P) {plan : Plan}
    (hplan : Within S Q w plan) (hw : I w) : Locks R Q w plan (lockRedisContext input plan w) := by
  unfold lockRedisContext
  split_ifs
  · exact h.lockShared hr hplan hw
  · exact h.lockPrivate hr.probe hplan hw

theorem send (h : AttemptRule P S I R Q) (answer : Command → Option Reply) (asking : Bool) {c : ContextId} (argv : Argv)
    (hw : I w) (hc : Q w c) : R w (Execution.send answer asking c argv w).1 := by
  unfold Execution.send
  cases argv.mapM id with
  | none => exact h.refl hw
  | some args => exact h.exchange answer asking c args hw hc

section

variable (sha1 : Bytes → Bytes)

theorem evaluate (h : AttemptRule P S I R Q) (input : AttemptInput) (asking : Bool) {c : ContextId} (script : Bytes)
    (rest : Argv) (hw : I w) (hc : Q w c) : R w (Execution.evaluate sha1 input asking c script rest w).1 := by
  have hfirst := h.send input.first asking (some (bytes "EVALSHA") :: some (sha1 script) :: rest) hw hc
  unfold Execution.evaluate
  by_cases hevalsha : (!input.copies.evalsha) = true
  · rw [if_pos hevalsha]
    exact h.refl hw
  by_cases hsha : (!input.copies.sha) = true
  · rw [if_neg hevalsha, if_pos hsha]
    exact h.refl hw
  rw [if_neg hevalsha, if_neg hsha]
  dsimp only
  split
  · next hr =>
    rw [hr] at hfirst
    exact hfirst
  · next w₁ reply hr =>
    rw [hr] at hfirst
    have hcount : R w₁ (countNoscript w₁) := h.stats _ (h.inv hfirst) rfl rfl rfl
    have hsecond := h.send input.second asking (some (bytes "EVAL") :: some script :: rest) (h.inv hcount)
      (h.context (h.trans hfirst hcount) hc)
    split_ifs
    · exact hfirst
    · dsimp only
      rw [ofSend_world]
      exact h.trans (h.trans hfirst hcount) hsecond
    · exact hfirst

theorem executeOn (h : AttemptRule P S I R Q) (input : AttemptInput) (asking : Bool) {c : ContextId} (argv : Argv)
    (hw : I w) (hc : Q w c) : R w (Execution.executeOn sha1 input asking c argv w).1 := by
  unfold Execution.executeOn
  split
  · split_ifs
    · exact h.evaluate sha1 input asking _ _ hw hc
    · dsimp only
      rw [ofSend_world]
      exact h.send input.first asking _ hw hc
  · dsimp only
    rw [ofSend_world]
    exact h.send input.first asking _ hw hc
  · exact h.refl hw

theorem attempt (h : AttemptRule P S I R Q) {input : AttemptInput} (hr : input.Reads P) (asking : Bool) {plan : Plan}
    (argv : Argv) (hplan : Within S Q w plan) (hw : I w) :
    R w (Execution.attempt sha1 input asking plan argv w).world ∧
      (Execution.attempt sha1 input asking plan argv w).plan.contexts = plan.contexts ∧
      (Execution.attempt sha1 input asking plan argv w).plan.servers = plan.servers := by
  obtain ⟨hlock, hresult⟩ := h.lockContext hr hplan hw
  obtain ⟨⟨w₁, r⟩, hrun⟩ : ∃ r, r = lockRedisContext input plan w := ⟨_, rfl⟩
  unfold Execution.attempt
  rw [← hrun] at hlock hresult ⊢
  obtain f | ⟨_ | c, plan'⟩ := r
  · exact ⟨hlock, rfl, rfl⟩
  · exact ⟨hlock, (hresult none plan' rfl).1⟩
  · obtain ⟨hsame, hcontext⟩ := hresult (some c) plan' rfl
    have hq := hcontext c rfl
    have hexecute := h.executeOn sha1 input asking argv (h.inv hlock) hq
    obtain ⟨⟨w₂, argv', d⟩, hrun⟩ : ∃ r, r = Execution.executeOn sha1 input asking c argv w₁ := ⟨_, rfl⟩
    dsimp only
    rw [← hrun] at hexecute ⊢
    cases d with
    | error f => exact ⟨h.trans hlock hexecute, hsame⟩
    | ok result =>
      refine ⟨h.trans (h.trans hlock hexecute) ?_, hsame⟩
      change R w₂ (unlockRedisContext c w₂)
      unfold unlockRedisContext
      split_ifs
      · exact h.unlock c (h.inv hexecute) (h.context hexecute hq)
      · exact h.refl (h.inv hexecute)

theorem count (h : AttemptRule P S I R Q) (retries : ℕ) (reply : Option Reply) (hw : I w) :
    R w (countCommand retries reply w) := by
  unfold countCommand
  apply h.stats _ hw <;> cases reply <;> dsimp only <;> split_ifs <;> rfl

theorem attempts (h : AttemptRule P S I R Q) {input : ℕ → AttemptInput} (hr : ∀ i, (input i).Reads P) (call : Call)
    (n i : ℕ) {plan : Plan} (argv : Argv) (hplan : Within S Q w plan) (hw : I w) :
    R w (Execution.attempts sha1 input call n i plan argv w).world := by
  induction n using Nat.strong_induction_on generalizing i plan argv w with
  | _ n ih =>
    have hstart := h.log .attempt hw rfl
    obtain ⟨hattempt, hcontexts, hservers⟩ := h.attempt sha1 (hr i) call.asking argv (hplan.later h hstart) (h.inv hstart)
    obtain ⟨a, ha⟩ : ∃ a, Execution.attempt sha1 (input i) call.asking plan argv (w.log .attempt) = a := ⟨_, rfl⟩
    rw [ha] at hattempt hcontexts hservers
    have hdone := h.trans hstart hattempt
    rcases attempts_cases sha1 input call n i plan argv w ha with
      ⟨f, -, he⟩ | ⟨-, he⟩ | ⟨reply, -, -, he⟩ | ⟨m, rfl, -, he⟩ <;> rw [he]
    · exact hdone
    · exact hdone
    · exact h.trans hdone (h.count (call.maxRetries - n) reply (h.inv hdone))
    · have hcount := h.trans hdone (h.count (call.maxRetries - (m + 1)) none (h.inv hdone))
      refine h.trans hcount (ih m (Nat.lt_succ_self m) (i + 1) a.argv ⟨?_, ?_⟩ (h.inv hcount))
      · rw [hcontexts]
        exact (hplan.later h hcount).contexts
      · rw [hservers]
        exact hplan.servers

theorem redisExecute (h : AttemptRule P S I R Q) {input : CallInput} (hr : input.Reads P) (call : Call) (argv : Argv)
    (retries : ℕ) (hw : I w)
    (hplan : ∀ plan task db, planExecution input.plan w.heap (maxSize call.maxRetries retries) call.server call.master
      call.slot w.task w.db = .ok (plan, task, db) → Plans S R Q w plan task db) :
    R w (Execution.redisExecute sha1 input call argv retries w).world := by
  have henter := h.log (.enter retries) hw rfl
  by_cases hle : retries ≤ call.maxRetries
  · obtain ⟨p, hp⟩ : ∃ p, planExecution input.plan w.heap (maxSize call.maxRetries retries) call.server call.master
      call.slot w.task w.db = p := ⟨_, rfl⟩
    have hplanned : ∀ plan task db, p = .ok (plan, task, db) → R w (w.planned retries task db) ∧
        ∀ q ∈ plan, Within S Q (w.planned retries task db) q := by
      rintro plan task db rfl
      obtain ⟨hgrown, hwithin⟩ := hplan plan task db hp
      have hlog := h.log (.enter retries) (h.inv hgrown) rfl
      exact ⟨h.trans hgrown hlog, fun q hq => (hwithin q hq).later h hlog⟩
    rcases redisExecute_cases sha1 input call argv w hle hp with
      ⟨f, -, he⟩ | ⟨plan, task, db, hok, -, he⟩ | ⟨plan, task, db, hok, -, he⟩ <;> rw [he]
    · exact henter
    · obtain ⟨hgrown, -⟩ := hplanned plan task db hok
      exact h.trans hgrown (h.log _ (h.inv hgrown) rfl)
    · obtain ⟨hgrown, hwithin⟩ := hplanned (some plan) task db hok
      have hattempts := h.trans hgrown
        (h.attempts sha1 hr.attempt call (call.maxRetries - retries) 0 argv (hwithin plan rfl) (h.inv hgrown))
      rcases leave_cases (Execution.attempts sha1 input.attempt call (call.maxRetries - retries) 0 plan argv
        (w.planned retries task db)) with ⟨f, -, hl⟩ | ⟨reply, -, hl⟩ <;> rw [hl]
      · exact hattempts
      · exact h.trans hattempts (h.log _ (h.inv hattempts) rfl)
  · rw [redisExecute_exceeded sha1 input call argv w (Nat.not_le.mp hle)]
    exact henter

end

end AttemptRule

namespace CommandRule

section

variable (sha1 : Bytes → Bytes)

theorem redisExecute (h : CommandRule P D E S I R Q) {input : CallInput} (hr : input.Reads P) (call : Call) (argv : Argv)
    (retries : ℕ) (hw : I w) : R w (Execution.redisExecute sha1 input call argv retries w).world :=
  h.toAttemptRule.redisExecute sha1 hr call argv retries hw fun _ _ _ hp => h.plan hw hr.plan hp

theorem redirect (h : CommandRule P D E S I R Q) (fuel : ℕ) {input : RedirectInput} (hd : Uses D E input) (i : ℕ) (str : Bytes)
    (hw : I w) : R w (ClusterExecution.redirect fuel input i str w).1 := by
  have hadd : ∀ location r db, unsafeAddRedisServer input.add input.rules location .tbd w.db = (r, db) →
      R w { w with db := db } := by
    intro location r db ha
    have hadded := h.add input.add input.rules location .tbd hw hd.rules
    rwa [ha] at hadded
  rcases redirect_cases fuel input i str w with
    ⟨-, hr⟩ | ⟨location, db, -, ha, hr⟩ | ⟨location, s, db, hloc, ha, hcases⟩
  · rw [hr]
    exact h.refl hw
  · rw [hr]
    exact hadd location none db ha
  · have hadded := hadd location (some s) db ha
    rcases hcases with ⟨-, hr⟩ | ⟨-, hcases⟩
    · rw [hr]
      have hlog := h.log (.redirection true location s) (h.inv hadded) rfl
      have hcount : R _ (countAsk _) := h.stats _ (h.inv hlog) rfl rfl rfl
      exact h.trans (h.trans hadded hlog) hcount
    · have hlog := h.log (.redirection false location s) (h.inv hadded) rfl
      have hcount : R _ (countMoved _) := h.stats _ (h.inv hlog) rfl rfl rfl
      have hdiscovering := h.log (.discovering i s) (h.inv hcount) rfl
      have hs : db.Registered s := unsafeAddRedisServer_registers (h.wellPlaced hw) ha
      have hall := h.trans (h.trans (h.trans hadded hlog) hcount) hdiscovering
      rcases hcases with ⟨-, hr⟩ | ⟨found, walk, hwalk, hr⟩ <;> rw [hr]
      · exact hall
      · exact h.trans hall (h.discover (h.inv hall) hd.discovery hs hwalk)

theorem follow (h : CommandRule P D E S I R Q) (fuel : ℕ) {input : ClusterInput} (hr : ∀ i, (input.call i).Reads P)
    (hd : ∀ i, Uses D E (input.redirect i)) (maxRetries : ℕ) (master : Bool) (slot hops i : ℕ) (server : Option ServerId) (asking : Bool) (argv : Argv)
    (retries : ℕ) (hw : I w) :
    R w (ClusterExecution.follow sha1 fuel input maxRetries master slot hops i server asking argv retries w).world := by
  induction hops using Nat.strong_induction_on generalizing i server asking argv retries w with
  | _ hops ih =>
    have hexecute := h.redisExecute sha1 (hr i) ⟨maxRetries, server, asking, master, slot⟩ argv retries hw
    obtain ⟨r, hrun⟩ : ∃ r, Execution.redisExecute sha1 (input.call i) ⟨maxRetries, server, asking, master, slot⟩ argv
      retries w = r := ⟨_, rfl⟩
    rw [hrun] at hexecute
    rcases follow_cases sha1 fuel input maxRetries master slot hops i server asking argv retries w hrun with
      ⟨-, he⟩ | ⟨str, -, hcases⟩
    · rw [he]
      exact hexecute
    · have hredirect := h.redirect fuel (hd i) i str (h.inv hexecute)
      rcases hcases with ⟨w', f, hw', he⟩ | ⟨w', s, hw', -, he⟩ | ⟨w', s, m, hw', rfl, -, he⟩ <;>
        rw [hw'] at hredirect <;> rw [he]
      · exact h.trans hexecute hredirect
      · exact h.trans hexecute hredirect
      · have hfollowed := h.trans (h.trans hexecute hredirect) (h.log .followed (h.inv hredirect) rfl)
        exact h.trans hfollowed (ih m (Nat.lt_succ_self m) (i + 1) (some s) _ r.argv r.retries (h.inv hfollowed))

theorem dbExecute (h : CommandRule P D E S I R Q) (fuel : ℕ) {input : ClusterInput} (hr : ∀ i, (input.call i).Reads P)
    (hd : ∀ i, Uses D E (input.redirect i)) (maxRetries : ℕ) (master : Bool) (argv : Argv) (hw : I w) :
    R w (ClusterExecution.dbExecute sha1 fuel input maxRetries master argv w).world := by
  unfold ClusterExecution.dbExecute
  dsimp only
  split
  · split_ifs
    · rcases clusterExecute_cases sha1 input maxRetries _ argv 0 w with ⟨outcome, -, he⟩ | ⟨key, he⟩ <;> rw [he]
      · exact h.refl hw
      · exact h.follow sha1 fuel hr hd maxRetries _ _ _ 0 none false argv 0 hw
    · exact h.redisExecute sha1 (hr 0) _ argv 0 hw
  · exact h.refl hw

end

end CommandRule

end

end VmodRedis.Execution
