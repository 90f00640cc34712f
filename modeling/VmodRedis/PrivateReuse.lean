import VmodRedis.PlanSizes
import VmodRedis.PrivateContexts
import VmodRedis.RedirectionRouting
import VmodRedis.Lib.TransitionSystem

namespace VmodRedis.PrivateReuse

open CStrings Replies Database Connections Registry Planning Execution TransitionSystem

def serverSuits (db : Db) (master : Bool) (slot : ℕ) (s : ServerId) : Bool :=
  ((master && (db.server s).role = .master) || (!master && (db.server s).role ≠ .master)) &&
    (!db.clusterEnabled || (db.server s).slots slot)

def candidates (input : PlanInput) (call : Call) (retries : ℕ) (w : World) : List ServerId :=
  match call.server with
  | some s => [s]
  | none => (planOrder w.db input.probe.now call.master call.slot).take
      (maxSize call.maxRetries retries - (plannedContexts input call retries w).length)

/-- The plan has no room for a context held for the server: its role or slots are not those of the command, or, when
the server is given, the plan is cut before the context. -/
def LeftOut (input : PlanInput) (call : Call) (retries : ℕ) (w : World) (s : ServerId) (c : ContextId) : Prop :=
  match call.server with
  | none => serverSuits w.db call.master call.slot s = false
  | some _ => maxSize call.maxRetries retries ≠ 0 ∧
      maxSize call.maxRetries retries ≤ (plannedContexts input call retries w).length ∧
      c ∉ plannedContexts input call retries w

/-- The check of attempt `i` accepts the context as it is before the call, or the clock has gone back since it was made. -/
def Valid (attempt : ℕ → AttemptInput) (i : ℕ) (w : World) (c : ContextId) : Prop :=
  Accepted (attempt i).probe w.heap w.db c ∨ ∃ j < i, (attempt j).probe.now < (w.heap c).tst

def MayFail (attempt : ℕ → AttemptInput) (n j : ℕ) : Prop :=
  (n ≤ j ∧ (attempt j).connected = false) ∨ Unanswered (attempt j)

structure Connects (input : CallInput) (call : Call) (retries : ℕ) (w : World) (i : ℕ) : Prop where
  allowed : i ≤ call.maxRetries - retries
  spent : (plannedContexts input.plan call retries w).length ≤ i
  failed : ∀ j < i, MayFail input.attempt (plannedContexts input.plan call retries w).length j

/-- No attempt of the call connects to a server for which a valid context is held that the plan has no room for. -/
def Fits (input : CallInput) (call : Call) (retries : ℕ) (w : World) : Prop :=
  ∀ i s, Connects input call retries w i →
    (candidates input.plan call retries w)[(i - (plannedContexts input.plan call retries w).length) %
      (candidates input.plan call retries w).length]? = some s →
    ∀ c ∈ heldContexts w s, LeftOut input.plan call retries w s c → ¬ Valid input.attempt i w c

section

variable (sha1 : Bytes → Bytes)

/-- Between the calls of a thread anything may happen to the instances, and each call is made on one of
them. -/
inductive Step (condition : CallInput → Call → ℕ → World → Prop) : World → World → Prop
  | elsewhere (w : World) (db : Db) : Step condition w { w with db := db }
  | execute (w : World) (input : CallInput) (call : Call) (argv : Argv) (retries : ℕ) (reply : Option Reply)
      (hprivate : w.db.sharedConnections = false) (hplaced : WellPlaced w.db)
      (hcondition : condition input call retries w)
      (hreply : (redisExecute sha1 input call argv retries w).outcome = .ok reply) :
      Step condition w (redisExecute sha1 input call argv retries w).world

def thread (condition : CallInput → Call → ℕ → World → Prop) : System World where
  init w := w.task = ⟨0, []⟩ ∧ w.trace = []
  step := Step sha1 condition

end

def location (heap : Heap) (c : ContextId) : DbId × ServerId := ((heap c).db, (heap c).server)

def Reuses (w : World) : Prop := ∀ s held accepted, .opened s held accepted ∈ w.trace → accepted = 0

def OnePerServer (w : World) : Prop :=
  (∀ s held accepted, .opened s held accepted ∈ w.trace → held = accepted) →
    (w.task.contexts.map (location w.heap)).Nodup

structure Sole (w : World) : Prop where
  fresh : ∀ c ∈ w.task.contexts, c < w.nextContext
  reused : Reuses w
  single : OnePerServer w

structure Quiet (w w' : World) : Prop where
  contexts : w'.task.contexts.Subperm w.task.contexts
  nextContext : w'.nextContext = w.nextContext
  location : ∀ c, location w'.heap c = location w.heap c
  logs : Logs (fun e => ∀ s held accepted, e ≠ .opened s held accepted) w w'

namespace Quiet

variable {w w' w'' : World}

theorem refl (w : World) : Quiet w w := ⟨.refl _, rfl, fun _ => rfl, .refl w⟩

theorem trans (h : Quiet w w') (h' : Quiet w' w'') : Quiet w w'' where
  contexts := h'.contexts.trans h.contexts
  nextContext := h'.nextContext.trans h.nextContext
  location c := (h'.location c).trans (h.location c)
  logs := h.logs.trans h'.logs

theorem log (w : World) {e : Event} (he : ∀ s held accepted, e ≠ .opened s held accepted) : Quiet w (w.log e) :=
  ⟨.refl _, rfl, fun _ => rfl, (Logs.refl w).log he⟩

theorem exchanged {c : ContextId} (h : Exchanged c w w') : Quiet w w' where
  contexts := by
    rw [h.task]
  nextContext := h.nextContext
  location d := by
    by_cases hd : d = c
    · rw [hd]
      exact Prod.ext h.location.1 h.location.2
    · exact congrArg (fun x : Context => (x.db, x.server)) (h.other d hd)
  logs := by
    refine h.logs.mono ?_
    rintro e he s held accepted rfl
    cases he

theorem opened {s : ServerId} {held accepted : ℕ} (h : Quiet w w') (he : Event.opened s held accepted ∈ w'.trace) :
    Event.opened s held accepted ∈ w.trace := by
  obtain ⟨events, ht, hevents⟩ := h.logs
  rw [ht] at he
  rcases List.mem_append.mp he with he | he
  · exact absurd rfl (hevents _ he s held accepted)
  · exact he

end Quiet

theorem nodup_of_subperm {α β : Type} {l l' : List α} (h : l.Subperm l') {f : α → β} (hn : (l'.map f).Nodup) :
    (l.map f).Nodup := by
  obtain ⟨k, hperm, hsub⟩ := h
  exact (hperm.map f).nodup_iff.mp ((hsub.map f).nodup hn)

theorem Sole.quiet {w w' : World} (h : Sole w) (hq : Quiet w w') : Sole w' where
  fresh c hc := by
    rw [hq.nextContext]
    exact h.fresh c (hq.contexts.subset hc)
  reused s held accepted he := h.reused s held accepted (hq.opened he)
  single hs := by
    have hlocation : location w'.heap = location w.heap := by
      funext c
      exact hq.location c
    rw [hlocation]
    apply nodup_of_subperm hq.contexts
    apply h.single
    intro s held accepted he
    obtain ⟨events, ht, -⟩ := hq.logs
    apply hs s held accepted
    rw [ht]
    exact List.mem_append_right _ he

/-- Since `w₀` only the attempts of a call before attempt `i` were made, `busy` being the context in use: the contexts of
the plan that were tried have failed, and so have the new ones. -/
structure Tried (attempt : ℕ → AttemptInput) (i : ℕ) (w₀ : World) (plan : Plan) (busy : Option ContextId) (w : World) :
    Prop where
  options : w.db.toOptions = w₀.db.toOptions
  stamp : ∀ s, (w.db.server s).sickness.tst = (w₀.db.server s).sickness.tst ∨
    ∃ j < i, (w.db.server s).sickness.tst = (attempt j).probe.now
  held : ∀ c ∈ w.task.contexts, busy = some c ∨ (w.heap c).err = true ∨
    (c ∈ w₀.task.contexts ∧ c ∉ plan.contexts.take plan.nextContext ∧ w.heap c = w₀.heap c)

namespace Tried

variable {attempt : ℕ → AttemptInput} {i : ℕ} {w₀ w w' : World} {plan : Plan} {busy : Option ContextId}

theorem start (attempt : ℕ → AttemptInput) (w : World) (h : plan.nextContext = 0) : Tried attempt 0 w plan none w where
  options := rfl
  stamp _ := Or.inl rfl
  held c hc := by
    refine Or.inr (Or.inr ⟨hc, ?_, rfl⟩)
    rw [h]
    exact List.not_mem_nil

theorem later (h : Tried attempt i w₀ plan busy w) : Tried attempt (i + 1) w₀ plan busy w where
  options := h.options
  stamp s := by
    obtain hs | ⟨j, hj, hs⟩ := h.stamp s
    · exact Or.inl hs
    · exact Or.inr ⟨j, Nat.lt_succ_of_lt hj, hs⟩
  held := h.held

theorem congr (h : Tried attempt i w₀ plan busy w) (ht : w'.task = w.task) (hh : w'.heap = w.heap)
    (ho : w'.db.toOptions = w.db.toOptions) (hs : w'.db.server = w.db.server) : Tried attempt i w₀ plan busy w' where
  options := ho.trans h.options
  stamp := by
    rw [hs]
    exact h.stamp
  held := by
    rw [ht, hh]
    exact h.held

theorem exchanged {c : ContextId} (h : Tried attempt i w₀ plan (some c) w) (he : Exchanged c w w')
    (herr : (w'.heap c).err = true) : Tried attempt i w₀ plan none w' where
  options := he.counts.same.options.trans h.options
  stamp := by
    rw [he.counts.server]
    exact h.stamp
  held d hd := by
    rw [he.task] at hd
    by_cases hdc : d = c
    · rw [hdc]
      exact Or.inr (Or.inl herr)
    · rw [he.other d hdc]
      obtain hbusy | hother := h.held d hd
      · exact absurd (Option.some.inj hbusy).symm hdc
      · exact Or.inr hother

theorem accepted (h : Tried attempt i w₀ plan none w) {s : ServerId} {c : ContextId}
    (hc : c ∈ acceptedContexts (attempt i).probe w s) :
    c ∈ heldContexts w₀ s ∧ c ∉ plan.contexts.take plan.nextContext ∧ Valid attempt i w₀ c := by
  obtain ⟨hheld, haccepted⟩ := List.mem_filter.mp hc
  obtain ⟨htask, hlocation⟩ := List.mem_filter.mp hheld
  obtain ⟨hdb, hserver⟩ := of_decide_eq_true hlocation
  obtain ⟨herr, hversion, httl, hsick, hhup⟩ := (accepted_iff _ w.heap w.db c).mp (of_decide_eq_true haccepted)
  obtain hbusy | hfailed | ⟨hc₀, hunused, hheap⟩ := h.held c htask
  · cases hbusy
  · rw [herr] at hfailed
    cases hfailed
  have hid : w.db.id = w₀.db.id := congrArg Options.id h.options
  have hconnectionTtl : w.db.connectionTtl = w₀.db.connectionTtl := congrArg Options.connectionTtl h.options
  have hsicknessTtl : w.db.sicknessTtl = w₀.db.sicknessTtl := congrArg Options.sicknessTtl h.options
  rw [hheap] at hdb hserver herr hversion httl hsick
  rw [hid] at hdb
  rw [hconnectionTtl] at httl
  rw [hsicknessTtl] at hsick
  refine ⟨List.mem_filter.mpr ⟨hc₀, decide_eq_true ⟨hdb, hserver⟩⟩, hunused, ?_⟩
  unfold Valid
  rw [accepted_iff]
  by_cases hpos : 0 < w₀.db.sicknessTtl
  · obtain hstamp | ⟨j, hj, hstamp⟩ := h.stamp (w₀.heap c).server
    · rw [hstamp] at hsick
      exact Or.inl ⟨herr, hversion, httl, hsick, hhup⟩
    · refine Or.inr ⟨j, hj, ?_⟩
      rw [← hstamp]
      exact hsick hpos
  · exact Or.inl ⟨herr, hversion, httl, fun h => absurd h hpos, hhup⟩

end Tried

def Safe (attempt : ℕ → AttemptInput) (last : ℕ) (plan : Plan) (w₀ : World) : Prop :=
  ∀ i s, i ≤ last → plan.contexts.length ≤ i → (∀ j < i, MayFail attempt plan.contexts.length j) →
    plan.servers[(i - plan.contexts.length) % plan.servers.length]? = some s →
    ∀ c ∈ heldContexts w₀ s, c ∉ plan.contexts → ¬ Valid attempt i w₀ c

structure Turn (i : ℕ) (plan : Plan) : Prop where
  context : plan.nextContext = min i plan.contexts.length
  server : plan.nextServer = (i - plan.contexts.length) % plan.servers.length

namespace Turn

variable {i : ℕ} {plan : Plan}

theorem start (hc : plan.nextContext = 0) (hs : plan.nextServer = 0) : Turn 0 plan where
  context := by rw [hc, Nat.zero_min]
  server := by rw [hs, Nat.zero_sub, Nat.zero_mod]

theorem spent (h : Turn i plan) (hused : plan.contexts[plan.nextContext]? = none) :
    plan.contexts.length ≤ i ∧ plan.contexts.take plan.nextContext = plan.contexts := by
  have hle : plan.contexts.length ≤ plan.nextContext := List.getElem?_eq_none_iff.mp hused
  refine ⟨?_, List.take_of_length_le hle⟩
  rw [h.context] at hle
  exact hle.trans (min_le_left _ _)

theorem nextContext {c : ContextId} (h : Turn i plan) (hc : plan.contexts[plan.nextContext]? = some c) :
    Turn (i + 1) { plan with nextContext := plan.nextContext + 1 } := by
  obtain ⟨hlt, -⟩ := List.getElem?_eq_some_iff.mp hc
  have hcontext := h.context
  have hserver := h.server
  have hi : i < plan.contexts.length := by omega
  constructor
  · dsimp only
    omega
  · dsimp only
    rw [hserver, Nat.sub_eq_zero_of_le hi.le, Nat.sub_eq_zero_of_le hi]

theorem nextServer (h : Turn i plan) (hused : plan.contexts[plan.nextContext]? = none) : Turn (i + 1) (nextServerOf plan) := by
  obtain ⟨hle, -⟩ := h.spent hused
  have hcontext := h.context
  constructor
  · change plan.nextContext = min (i + 1) plan.contexts.length
    omega
  · change (plan.nextServer + 1) % plan.servers.length = (i + 1 - plan.contexts.length) % plan.servers.length
    rw [h.server, Nat.mod_add_mod, Nat.sub_add_comm hle]

end Turn

theorem newRcontext_stamp (now : ℤ) (ephemeral connected : Bool) (s t : ServerId) (db : Db) :
    ((newRcontext now ephemeral connected s db).server t).sickness.tst = (db.server t).sickness.tst ∨
      ((newRcontext now ephemeral connected s db).server t).sickness.tst = now := by
  have hflush : ((flushSickness now s db).server t).sickness.tst = (db.server t).sickness.tst := by
    unfold flushSickness
    dsimp only
    split_ifs
    · by_cases ht : t = s <;> simp [ht]
    · rfl
  have hflag : ((flagSickness now s db).server t).sickness.tst = (db.server t).sickness.tst ∨
      ((flagSickness now s db).server t).sickness.tst = now := by
    unfold flagSickness
    split_ifs
    · by_cases ht : t = s <;> simp [ht]
    · exact Or.inl rfl
  unfold newRcontext
  split_ifs
  · exact Or.inl hflush
  · exact Or.inl hflush
  · exact hflag
  · exact hflag

theorem evict_tail {w w' : World} (h : evict w = some w') :
    w'.task.contexts.Sublist w.task.contexts ∧ w'.heap = w.heap ∧ w'.nextContext = w.nextContext ∧
      w'.trace = w.trace ∧ CountsOnly w.db w'.db := by
  unfold evict at h
  by_cases hfull : w.db.maxConnections ≤ w.task.ncontexts
  · rw [if_pos hfull] at h
    cases hc : w.task.contexts with
    | nil =>
      rw [hc] at h
      cases h
    | cons c rest =>
      rw [hc] at h
      obtain rfl := Option.some.inj h
      exact ⟨List.sublist_cons_self c rest, rfl, rfl, rfl, .setStats _ _ rfl rfl rfl, rfl⟩
  · rw [if_neg hfull] at h
    obtain rfl := Option.some.inj h
    exact ⟨List.Sublist.refl _, rfl, rfl, rfl, .refl _⟩

theorem heldContexts_nil {w : World} {s : ServerId} (h : heldContexts w s = []) :
    (w.db.id, s) ∉ w.task.contexts.map (location w.heap) := by
  intro hmem
  obtain ⟨c, hc, hlocation⟩ := List.mem_map.mp hmem
  obtain ⟨hdb, hserver⟩ := Prod.mk.inj hlocation
  have hheld : c ∈ heldContexts w s := List.mem_filter.mpr ⟨hc, decide_eq_true ⟨hdb, hserver⟩⟩
  rw [h] at hheld
  exact List.not_mem_nil hheld

def connecting (input : AttemptInput) (s : ServerId) (w w₁ : World) : Option ContextId × World :=
  createPrivate input s (w₁.log (.opened s (heldContexts w s).length (acceptedContexts input.probe w s).length))

def connected (input : AttemptInput) (s : ServerId) (w w₁ : World) : World :=
  (connecting input s w w₁).2.log (.locked s (connecting input s w w₁).1)

theorem connected_trace (input : AttemptInput) (s : ServerId) (w w₁ : World) :
    (connected input s w w₁).trace = .locked s (connecting input s w w₁).1 ::
      .opened s (heldContexts w s).length (acceptedContexts input.probe w s).length :: w₁.trace := by
  unfold connected connecting createPrivate
  dsimp only
  split_ifs <;> rfl

theorem connected_db (input : AttemptInput) (s : ServerId) (w w₁ : World) :
    (connected input s w w₁).db = newRcontext input.probe.now false input.connected s w₁.db := by
  unfold connected connecting createPrivate
  dsimp only
  split_ifs <;> rfl

theorem connecting_none {input : AttemptInput} {s : ServerId} {w w₁ : World} (h : (connecting input s w w₁).1 = none) :
    input.connected = false := by
  unfold connecting createPrivate at h
  dsimp only at h
  split_ifs at h with hconnected
  exact Bool.eq_false_iff.mpr hconnected

theorem connected_held {input : AttemptInput} {s : ServerId} {w w₁ : World} (he : evict w = some w₁)
    (hfresh : ∀ c ∈ w.task.contexts, c < w.nextContext) :
    (connected input s w w₁).task.contexts = w₁.task.contexts ++ (connecting input s w w₁).1.toList ∧
    (∀ c, (connecting input s w w₁).1 = some c → c < (connected input s w w₁).nextContext ∧
      location (connected input s w w₁).heap c = (w.db.id, s)) ∧
    w.nextContext ≤ (connected input s w w₁).nextContext ∧
    ∀ c ∈ w.task.contexts, (connected input s w w₁).heap c = w.heap c := by
  obtain ⟨-, hheap, hnext, -, hcounts⟩ := evict_tail he
  have hid : (newRcontext input.probe.now false input.connected s w₁.db).id = w.db.id :=
    congrArg Options.id ((newRcontext_only input.probe.now false input.connected s w₁.db).same.options.trans
      hcounts.same.options)
  unfold connected connecting createPrivate
  dsimp only
  split_ifs
  · refine ⟨rfl, ?_, ?_, ?_⟩
    · intro c hc
      obtain rfl := Option.some.inj hc
      refine ⟨Nat.lt_succ_self _, ?_⟩
      unfold location
      change ((Function.update w₁.heap w₁.nextContext _ w₁.nextContext).db,
        (Function.update w₁.heap w₁.nextContext _ w₁.nextContext).server) = _
      rw [Function.update_self]
      exact Prod.ext hid rfl
    · rw [← hnext]
      exact Nat.le_succ _
    · intro c hc
      have hne : c ≠ w₁.nextContext := by
        rw [hnext]
        exact (hfresh c hc).ne
      exact (Function.update_of_ne hne _ _).trans (congrFun hheap c)
  · refine ⟨(List.append_nil _).symm, nofun, hnext.ge, ?_⟩
    · intro c _
      exact congrFun hheap c

theorem connected_locations {input : AttemptInput} {s : ServerId} {w w₁ : World}
    (hfresh : ∀ c ∈ w.task.contexts, c < w.nextContext) (he : evict w = some w₁)
    (hold : (w.task.contexts.map (location w.heap)).Nodup) (hheld : heldContexts w s = []) :
    ((connected input s w w₁).task.contexts.map (location (connected input s w w₁).heap)).Nodup := by
  obtain ⟨hsub, -⟩ := evict_tail he
  obtain ⟨hcontexts, hnew, -, hheap⟩ := @connected_held input s w w₁ he hfresh
  have hlocations : w₁.task.contexts.map (location (connected input s w w₁).heap) =
      w₁.task.contexts.map (location w.heap) := by
    apply List.map_congr_left
    intro c hc
    exact congrArg (fun x : Context => (x.db, x.server)) (hheap c (hsub.subset hc))
  have hsub' : (w₁.task.contexts.map (location w.heap)).Sublist (w.task.contexts.map (location w.heap)) :=
    hsub.map _
  rw [hcontexts, List.map_append, hlocations]
  cases hnew' : (connecting input s w w₁).1 with
  | none =>
    rw [Option.toList_none, List.map_nil, List.append_nil]
    exact hsub'.nodup hold
  | some c =>
    rw [Option.toList_some, List.map_singleton, (hnew c hnew').2]
    apply List.nodup_append.mpr
    refine ⟨hsub'.nodup hold, List.nodup_singleton _, ?_⟩
    intro a ha b hb hab
    rw [List.mem_singleton.mp hb] at hab
    rw [hab] at ha
    exact heldContexts_nil hheld (hsub'.subset ha)

theorem Sole.connected {input : AttemptInput} {s : ServerId} {w w₁ : World} (h : Sole w) (he : evict w = some w₁)
    (hnone : acceptedContexts input.probe w s = []) : Sole (connected input s w w₁) := by
  obtain ⟨hsub, -, -, htrace, -⟩ := evict_tail he
  obtain ⟨hcontexts, hnew, hnext, -⟩ := @connected_held input s w w₁ he h.fresh
  have ht := connected_trace input s w w₁
  rw [htrace] at ht
  refine ⟨?_, ?_, ?_⟩
  · intro c hc
    rw [hcontexts] at hc
    rcases List.mem_append.mp hc with hc | hc
    · exact (h.fresh c (hsub.subset hc)).trans_le hnext
    · exact (hnew c (Option.mem_toList.mp hc)).1
  · intro t held accepted hmem
    rw [ht] at hmem
    rcases List.mem_cons.mp hmem with hmem | hmem
    · cases hmem
    · rcases List.mem_cons.mp hmem with hmem | hmem
      · obtain ⟨-, -, rfl⟩ := Event.opened.inj hmem
        rw [hnone]
        rfl
      · exact h.reused t held accepted hmem
  · intro hall
    have hheld : heldContexts w s = [] := by
      have hlength := hall s (heldContexts w s).length (acceptedContexts input.probe w s).length (by
        rw [ht]
        exact List.mem_cons_of_mem _ List.mem_cons_self)
      rw [hnone] at hlength
      exact List.length_eq_zero_iff.mp hlength
    have hold : (w.task.contexts.map (location w.heap)).Nodup := by
      apply h.single
      intro t held accepted hmem
      apply hall t held accepted
      rw [ht]
      exact List.mem_cons_of_mem _ (List.mem_cons_of_mem _ hmem)
    exact connected_locations h.fresh he hold hheld

theorem Tried.connected {attempt : ℕ → AttemptInput} {i : ℕ} {s : ServerId} {w₀ w w₁ : World} {plan : Plan} (h : Sole w)
    (ht : Tried attempt i w₀ plan none w) (he : evict w = some w₁) :
    Tried attempt (i + 1) w₀ plan (connecting (attempt i) s w w₁).1 (connected (attempt i) s w w₁) := by
  obtain ⟨hsub, -, -, -, hcounts⟩ := evict_tail he
  obtain ⟨hcontexts, -, -, hheap⟩ := @connected_held (attempt i) s w w₁ he h.fresh
  constructor
  · rw [connected_db]
    exact ((newRcontext_only _ _ _ _ _).same.options.trans hcounts.same.options).trans ht.options
  · intro t
    rw [connected_db]
    obtain hkept | hnow := newRcontext_stamp (attempt i).probe.now false (attempt i).connected s t w₁.db
    · rw [hkept, hcounts.server]
      exact ht.later.stamp t
    · exact Or.inr ⟨i, Nat.lt_succ_self i, hnow⟩
  · intro c hc
    rw [hcontexts] at hc
    obtain hc | hc := List.mem_append.mp hc
    · rw [hheap c (hsub.subset hc)]
      obtain hbusy | hother := ht.held c (hsub.subset hc)
      · cases hbusy
      · exact Or.inr hother
    · exact Or.inl (Option.mem_toList.mp hc)

theorem Tried.reused {attempt : ℕ → AttemptInput} {i : ℕ} {w₀ w : World} {plan : Plan} {c : ContextId}
    (h : Tried attempt i w₀ plan none w) (hc : plan.contexts[plan.nextContext]? = some c) :
    Tried attempt i w₀ { plan with nextContext := plan.nextContext + 1 } (some c) w where
  options := h.options
  stamp := h.stamp
  held d hd := by
    by_cases hdc : d = c
    · rw [hdc]
      exact Or.inl rfl
    · obtain hbusy | hfailed | ⟨h₀, hunused, hheap⟩ := h.held d hd
      · cases hbusy
      · exact Or.inr (Or.inl hfailed)
      · refine Or.inr (Or.inr ⟨h₀, ?_, hheap⟩)
        change d ∉ plan.contexts.take (plan.nextContext + 1)
        rw [List.take_add_one, hc, Option.toList_some, List.mem_append, List.mem_singleton]
        exact not_or.mpr ⟨hunused, hdc⟩

structure Going (attempt : ℕ → AttemptInput) (last i : ℕ) (w₀ : World) (plan : Plan) (w : World) : Prop where
  allowed : i ≤ last
  safe : Safe attempt last plan w₀
  turn : Turn i plan
  failed : ∀ j < i, MayFail attempt plan.contexts.length j
  tried : Tried attempt i w₀ plan none w

theorem Going.accepted_nil {attempt : ℕ → AttemptInput} {last i : ℕ} {w₀ w : World} {plan : Plan} {s : ServerId}
    (h : Going attempt last i w₀ plan w) (hused : plan.contexts[plan.nextContext]? = none)
    (hs : plan.servers[plan.nextServer]? = some s) : acceptedContexts (attempt i).probe w s = [] := by
  obtain ⟨hspent, hall⟩ := h.turn.spent hused
  apply List.eq_nil_iff_forall_not_mem.mpr
  intro c hc
  obtain ⟨hheld, hunused, hvalid⟩ := h.tried.accepted hc
  rw [hall] at hunused
  rw [h.turn.server] at hs
  exact h.safe i s h.allowed hspent h.failed hs c hheld hunused hvalid

structure Locked (attempt : ℕ → AttemptInput) (i : ℕ) (w₀ : World) (plan plan' : Plan) (c : Option ContextId) (w : World) :
    Prop where
  contexts : plan'.contexts = plan.contexts
  servers : plan'.servers = plan.servers
  turn : Turn (i + 1) plan'
  tried : Tried attempt (i + 1) w₀ plan' c w
  failed : c = none → MayFail attempt plan.contexts.length i

theorem Going.locked {attempt : ℕ → AttemptInput} {last i : ℕ} {w₀ w : World} {plan : Plan}
    (h : Going attempt last i w₀ plan w) (hsole : Sole w) :
    Sole (lockPrivateRedisContext (attempt i) plan w).1 ∧
      ∀ c plan', (lockPrivateRedisContext (attempt i) plan w).2 = .ok (c, plan') →
        Locked attempt i w₀ plan plan' c (lockPrivateRedisContext (attempt i) plan w).1 := by
  unfold lockPrivateRedisContext
  cases hc : plan.contexts[plan.nextContext]? with
  | some c =>
    refine ⟨hsole.quiet (.log w nofun), ?_⟩
    intro d plan' hd
    obtain ⟨rfl, rfl⟩ := Prod.mk.inj (Except.ok.inj hd)
    have htried := (h.tried.reused hc).later
    exact ⟨rfl, rfl, h.turn.nextContext hc, ⟨htried.options, htried.stamp, htried.held⟩, nofun⟩
  | none =>
    cases hs : plan.servers[plan.nextServer]? with
    | none => exact ⟨hsole, nofun⟩
    | some s =>
      cases he : evict w with
      | none => exact ⟨hsole, nofun⟩
      | some w₁ =>
        refine ⟨hsole.connected he (h.accepted_nil hc hs), ?_⟩
        intro d plan' hd
        obtain ⟨rfl, rfl⟩ := Prod.mk.inj (Except.ok.inj hd)
        have htried := @Tried.connected attempt i s w₀ w w₁ plan hsole h.tried he
        refine ⟨rfl, rfl, h.turn.nextServer hc, ⟨htried.options, htried.stamp, htried.held⟩, ?_⟩
        intro hnone
        exact Or.inl ⟨(h.turn.spent hc).1, connecting_none hnone⟩

section

variable {sha1 : Bytes → Bytes}

theorem Going.attempt {call : Call} {input : ℕ → AttemptInput} {last i : ℕ} {plan : Plan} {argv : Argv} {w₀ w : World}
    (h : Going input last i w₀ plan w) (hsole : Sole w) (hprivate : w.db.sharedConnections = false) :
    let a := Execution.attempt sha1 (input i) call.asking plan argv w
    Sole a.world ∧ (a.outcome = .ok (.done none) →
      a.plan.contexts = plan.contexts ∧ a.plan.servers = plan.servers ∧ Turn (i + 1) a.plan ∧
        Tried input (i + 1) w₀ a.plan none a.world ∧ MayFail input plan.contexts.length i) := by
  have hlock := h.locked hsole
  have hlocking := lockPrivateRedisContext_locking (input i) plan w
  have hshared : ¬ w.db.sharedConnections = true := by
    rw [hprivate]
    exact Bool.false_ne_true
  unfold Execution.attempt lockRedisContext
  rw [if_neg hshared]
  generalize lockPrivateRedisContext (input i) plan w = r at hlock hlocking ⊢
  obtain ⟨w', f | ⟨_ | c, plan'⟩⟩ := r
  · exact ⟨hlock.1, nofun⟩
  · obtain ⟨hcontexts, hservers, hturn, htried, hfailed⟩ := hlock.2 none plan' rfl
    exact ⟨hlock.1, fun _ => ⟨hcontexts, hservers, hturn, htried, hfailed rfl⟩⟩
  obtain ⟨hsole', hplan⟩ := hlock
  obtain ⟨hcontexts, hservers, hturn, htried, -⟩ := hplan (some c) plan' rfl
  obtain ⟨hexchanged, hfailed⟩ := executeOn_exchanged sha1 (input i) call.asking c argv w'
  dsimp only at hexchanged hfailed htried hsole' hlocking ⊢
  generalize executeOn sha1 (input i) call.asking c argv w' = x at hexchanged hfailed ⊢
  obtain ⟨w'', argv', f | result⟩ := x
  · exact ⟨hsole'.quiet (.exchanged hexchanged), nofun⟩
  have hunlock : unlockRedisContext c w'' = w'' := by
    have hoptions := hexchanged.counts.same.options.trans hlocking.options
    have hshared'' : ¬ w''.db.sharedConnections = true := by
      rw [show w''.db.sharedConnections = w.db.sharedConnections from congrArg Options.sharedConnections hoptions, hprivate]
      exact Bool.false_ne_true
    unfold unlockRedisContext
    exact if_neg hshared''
  dsimp only at hexchanged hfailed ⊢
  rw [hunlock]
  refine ⟨hsole'.quiet (.exchanged hexchanged), ?_⟩
  intro hnone
  obtain rfl := Except.ok.inj hnone
  obtain ⟨herr, hlost⟩ := hfailed rfl
  exact ⟨hcontexts, hservers, hturn, htried.exchanged hexchanged herr, Or.inr hlost⟩

theorem countCommand_quiet (retries : ℕ) (reply : Option Reply) (w : World) : Quiet w (countCommand retries reply w) :=
  ⟨.refl _, rfl, fun _ => rfl, .of_eq rfl⟩

theorem Safe.congr {input : ℕ → AttemptInput} {last : ℕ} {plan plan' : Plan} {w₀ : World} (h : Safe input last plan w₀)
    (hc : plan'.contexts = plan.contexts) (hs : plan'.servers = plan.servers) : Safe input last plan' w₀ := by
  unfold Safe at h ⊢
  rw [hc, hs]
  exact h

theorem attempts_sole {input : ℕ → AttemptInput} {call : Call} {last n i : ℕ} {plan : Plan} {argv : Argv} {w₀ w : World}
    (hprivate : w₀.db.sharedConnections = false) (hlast : i + n = last) (h : Going input last i w₀ plan w)
    (hsole : Sole w) : Sole (attempts sha1 input call n i plan argv w).world := by
  have hlogged : Sole (w.log .attempt) := hsole.quiet (.log w nofun)
  have hgoing : Going input last i w₀ plan (w.log .attempt) :=
    ⟨h.allowed, h.safe, h.turn, h.failed, h.tried.options, h.tried.stamp, h.tried.held⟩
  have hprivate' : (w.log .attempt).db.sharedConnections = false :=
    (congrArg Options.sharedConnections h.tried.options).trans hprivate
  have hattempt := @Going.attempt sha1 call input last i plan argv w₀ (w.log .attempt) hgoing hlogged hprivate'
  obtain ⟨a, ha⟩ : ∃ a, attempt sha1 (input i) call.asking plan argv (w.log .attempt) = a := ⟨_, rfl⟩
  rw [ha] at hattempt
  obtain ⟨hsole', hnext⟩ := hattempt
  obtain ⟨f, -, hr⟩ | ⟨-, hr⟩ | ⟨reply, -, -, hr⟩ | ⟨m, rfl, ho, hr⟩ := attempts_cases sha1 input call n i plan argv w ha
  · rw [hr]
    exact hsole'
  · rw [hr]
    exact hsole'
  · rw [hr]
    exact hsole'.quiet (countCommand_quiet _ _ _)
  · rw [hr]
    obtain ⟨hcontexts, hservers, hturn, htried, hfailed⟩ := hnext ho
    refine attempts_sole hprivate (by omega) ⟨by omega, h.safe.congr hcontexts hservers, hturn, ?_, ?_⟩
      (hsole'.quiet (countCommand_quiet _ _ _))
    · rw [hcontexts]
      intro j hj
      obtain hlt | rfl := Nat.lt_succ_iff_lt_or_eq.mp hj
      · exact h.failed j hlt
      · exact hfailed
    · exact ⟨htried.options, htried.stamp, htried.held⟩

end

theorem suitableForCommand_eq {db : Db} {heap : Heap} (master : Bool) (slot : ℕ) {s : ServerId} {c : ContextId}
    (hlocation : (heap c).db = db.id ∧ (heap c).server = s) :
    suitableForCommand db heap master slot c = serverSuits db master slot s := by
  obtain ⟨hdb, hserver⟩ := hlocation
  simp [suitableForCommand, serverSuits, hdb, hserver]

section

variable {input : CallInput} {call : Call} {retries : ℕ} {w : World} {plan : Plan} {task : Task} {db : Db}

theorem planExecution_candidates (hplaced : WellPlaced w.db)
    (h : planExecution input.plan w.heap (maxSize call.maxRetries retries) call.server call.master call.slot w.task w.db =
      .ok (some plan, task, db)) :
    plan.servers = [] ∨ plan.servers = candidates input.plan call retries w := by
  obtain ⟨-, hcontexts, -⟩ := planExecution_contexts h
  unfold candidates
  obtain ⟨-, hp, -⟩ | ⟨-, q, hq, ⟨s, hs, hp⟩ | ⟨hs, hp⟩⟩ := planExecution_cases h
  · cases hp
  · obtain rfl := Option.some.inj hq
    rw [hs]
    obtain ⟨-, -, -, ⟨-, -, hservers⟩ | ⟨-, hservers⟩⟩ := populateSimpleExecutionPlan_spec hp
    · exact Or.inr hservers
    · exact Or.inl hservers
  · obtain rfl := Option.some.inj hq
    rw [hs, ← hcontexts]
    exact populateExecutionPlan_servers hplaced.placed hp

theorem planExecution_complete (hprivate : w.db.sharedConnections = false)
    (h : planExecution input.plan w.heap (maxSize call.maxRetries retries) call.server call.master call.slot w.task w.db =
      .ok (some plan, task, db)) {s : ServerId} (hs : s ∈ plan.servers) {c : ContextId} (hc : c ∈ task.contexts)
    (hdb : (w.heap c).db = w.db.id) (hserver : (w.heap c).server = s) (hroom : ¬ LeftOut input.plan call retries w s c) :
    c ∈ plan.contexts := by
  obtain ⟨-, hcontexts, -⟩ := planExecution_contexts h
  have hne : plan.servers ≠ [] := List.ne_nil_of_mem hs
  unfold LeftOut at hroom
  obtain ⟨-, hp, -⟩ | ⟨-, q, hq, ⟨t, ht, hp⟩ | ⟨ht, hp⟩⟩ := planExecution_cases h
  · cases hp
  · obtain rfl := Option.some.inj hq
    rw [ht, ← hcontexts] at hroom
    by_contra hnot
    have hcut : maxSize call.maxRetries retries = 0 ∨ plan.contexts.length < maxSize call.maxRetries retries := by
      by_contra hno
      rw [not_or, not_lt] at hno
      exact hroom ⟨hno.1, hno.2, hnot⟩
    have hst : s = t := by
      obtain ⟨-, -, -, ⟨-, -, hservers⟩ | ⟨-, hservers⟩⟩ := populateSimpleExecutionPlan_spec hp
      · rw [hservers] at hs
        exact List.mem_singleton.mp hs
      · exact absurd hservers hne
    have hsuitable : suitableForServer w.db w.heap t c = true := decide_eq_true ⟨hdb, hserver.trans hst⟩
    exact hnot (populateSimpleExecutionPlan_complete hp hprivate hcut hne hc hsuitable)
  · obtain rfl := Option.some.inj hq
    rw [ht] at hroom
    rw [Bool.not_eq_false, ← suitableForCommand_eq call.master call.slot ⟨hdb, hserver⟩] at hroom
    exact populateExecutionPlan_complete hp hprivate hne hc hroom

theorem valid_planned {attempt : ℕ → AttemptInput} {i : ℕ} {c : ContextId} (retries : ℕ) (task : Task)
    (hoptions : db.toOptions = w.db.toOptions) (hserver : db.server = w.db.server) :
    Valid attempt i (w.planned retries task db) c ↔ Valid attempt i w c := by
  have hconnectionTtl : db.connectionTtl = w.db.connectionTtl := congrArg Options.connectionTtl hoptions
  have hsicknessTtl : db.sicknessTtl = w.db.sicknessTtl := congrArg Options.sicknessTtl hoptions
  have haccepted : Accepted (attempt i).probe w.heap db c ↔ Accepted (attempt i).probe w.heap w.db c := by
    rw [accepted_iff, accepted_iff, hserver, hconnectionTtl, hsicknessTtl]
  unfold Valid
  exact or_congr_left haccepted

theorem Fits.safe (hfits : Fits input call retries w) (hprivate : w.db.sharedConnections = false)
    (hplaced : WellPlaced w.db)
    (h : planExecution input.plan w.heap (maxSize call.maxRetries retries) call.server call.master call.slot w.task w.db =
      .ok (some plan, task, db)) :
    Safe input.attempt (call.maxRetries - retries) plan (w.planned retries task db) := by
  obtain ⟨-, hcontexts, -⟩ := planExecution_contexts h
  obtain ⟨hoptions, hserver, hsub⟩ := planExecution_keeps h
  intro i s hi hspent hfailed hs c hheld hunplanned hvalid
  have hmem : s ∈ plan.servers := List.mem_of_getElem? hs
  have hservers : plan.servers = candidates input.plan call retries w :=
    (planExecution_candidates hplaced h).resolve_left (List.ne_nil_of_mem hmem)
  obtain ⟨htask, hlocation⟩ := List.mem_filter.mp hheld
  obtain ⟨hdb, hat⟩ := of_decide_eq_true hlocation
  have hid : (w.heap c).db = w.db.id := hdb.trans (congrArg Options.id hoptions)
  have hleft : LeftOut input.plan call retries w s c := by
    by_contra hroom
    exact hunplanned (planExecution_complete hprivate h hmem htask hid hat hroom)
  rw [hcontexts] at hspent hfailed hs
  rw [hservers] at hs
  refine hfits i s ⟨hi, hspent, hfailed⟩ hs c ?_ hleft ?_
  · exact List.mem_filter.mpr ⟨hsub.subset htask, decide_eq_true ⟨hid, hat⟩⟩
  · exact (valid_planned retries task hoptions hserver).mp hvalid

theorem redisExecute_sole {sha1 : Bytes → Bytes} {argv : Argv} (h : Sole w) (hprivate : w.db.sharedConnections = false)
    (hplaced : WellPlaced w.db) (hfits : Fits input call retries w) :
    Sole (redisExecute sha1 input call argv retries w).world := by
  have hentered : Sole (w.log (.enter retries)) := h.quiet (.log w nofun)
  by_cases hr : retries ≤ call.maxRetries
  · have hplanned : ∀ plan task db, planExecution input.plan w.heap (maxSize call.maxRetries retries) call.server
        call.master call.slot w.task w.db = .ok (plan, task, db) → Sole (w.planned retries task db) := by
      intro plan task db hp
      obtain ⟨-, -, hsub⟩ := planExecution_keeps hp
      have hquiet : Quiet w (w.planned retries task db) := by
        refine ⟨hsub, rfl, fun _ => rfl, [.enter retries], rfl, ?_⟩
        intro e he
        rw [List.mem_singleton.mp he]
        exact nofun
      exact h.quiet hquiet
    obtain ⟨f, -, hx⟩ | ⟨plan, task, db, hp, -, hx⟩ | ⟨plan, task, db, hp, -, hx⟩ :=
      redisExecute_cases sha1 input call argv w hr rfl
    · rw [hx]
      exact hentered
    · rw [hx]
      exact (hplanned _ _ _ hp).quiet (.log _ nofun)
    · obtain ⟨hoptions, -⟩ := planExecution_keeps hp
      obtain ⟨-, -, hnext, hnext'⟩ := planExecution_contexts hp
      have hprivate' : (w.planned retries task db).db.sharedConnections = false :=
        (congrArg Options.sharedConnections hoptions).trans hprivate
      have hrun : Sole (attempts sha1 input.attempt call (call.maxRetries - retries) 0 plan argv
          (w.planned retries task db)).world :=
        attempts_sole hprivate' (Nat.zero_add _)
          ⟨Nat.zero_le _, hfits.safe hprivate hplaced hp, .start hnext hnext', nofun, .start _ _ hnext⟩
          (hplanned _ _ _ hp)
      rw [hx]
      obtain ⟨f, -, hl⟩ | ⟨reply, -, hl⟩ := leave_cases (attempts sha1 input.attempt call (call.maxRetries - retries) 0 plan
        argv (w.planned retries task db))
      · rw [hl]
        exact hrun
      · rw [hl]
        exact hrun.quiet (.log _ nofun)
  · rw [redisExecute_exceeded sha1 input call argv w (Nat.lt_of_not_le hr)]
    exact hentered

end

theorem Step.sole {sha1 : Bytes → Bytes} {w w' : World} (hs : Step sha1 Fits w w') (h : Sole w) : Sole w' := by
  cases hs with
  | elsewhere db => exact h.quiet ⟨.refl _, rfl, fun _ => rfl, .of_eq rfl⟩
  | execute input call argv retries reply hprivate hplaced hfits => exact redisExecute_sole h hprivate hplaced hfits

theorem reachable_sole {sha1 : Bytes → Bytes} {w : World} (hr : (thread sha1 Fits).Reachable w) : Sole w := by
  refine System.invariant (P := Sole) ?_ (fun s s' _ h hs => Step.sole hs h) hr
  rintro w ⟨htask, htrace⟩
  refine ⟨?_, ?_, ?_⟩
  · rw [htask]
    exact nofun
  · unfold Reuses
    rw [htrace]
    exact nofun
  · intro _
    rw [htask]
    exact List.nodup_nil

section

variable {sha1 : Bytes → Bytes}

theorem trace_subset {P : Event → Prop} {w w' : World} (h : Logs P w w') : w.trace ⊆ w'.trace := by
  obtain ⟨events, ht, -⟩ := h
  rw [ht]
  exact List.subset_append_right _ _

theorem attempts_trace_subset (input : ℕ → AttemptInput) (call : Call) (n i : ℕ) (plan : Plan) (argv : Argv) (w : World) :
    (attempt sha1 (input i) call.asking plan argv (w.log .attempt)).world.trace ⊆
        (attempts sha1 input call n i plan argv w).world.trace ∧
      w.trace ⊆ (attempts sha1 input call n i plan argv w).world.trace := by
  obtain ⟨a, ha⟩ : ∃ a, attempt sha1 (input i) call.asking plan argv (w.log .attempt) = a := ⟨_, rfl⟩
  have hinner : w.trace ⊆ a.world.trace := by
    rw [← ha]
    exact List.Subset.trans (List.subset_cons_self _ _)
      (trace_subset (attempt_inner sha1 (input i) call.asking plan argv (w.log .attempt)).logs)
  have hlater : a.world.trace ⊆ (attempts sha1 input call n i plan argv w).world.trace := by
    obtain ⟨f, -, hr⟩ | ⟨-, hr⟩ | ⟨reply, -, -, hr⟩ | ⟨m, rfl, -, hr⟩ := attempts_cases sha1 input call n i plan argv w ha
    · rw [hr]
      exact List.Subset.refl _
    · rw [hr]
      exact List.Subset.refl _
    · rw [hr]
      exact List.Subset.refl _
    · rw [hr]
      exact (attempts_trace_subset input call m (i + 1) a.plan a.argv
        (countCommand (call.maxRetries - (m + 1)) none a.world)).2
  rw [ha]
  exact ⟨hlater, List.Subset.trans hinner hlater⟩

theorem attempt_opens {input : AttemptInput} {call : Call} {plan : Plan} {argv : Argv} {w : World} {s : ServerId}
    (hprivate : w.db.sharedConnections = false) (hused : plan.contexts[plan.nextContext]? = none)
    (hs : plan.servers[plan.nextServer]? = some s) (hvalid : acceptedContexts input.probe w s ≠ []) :
    .opened s (heldContexts w s).length (acceptedContexts input.probe w s).length ∈
      (attempt sha1 input call.asking plan argv w).world.trace := by
  have hshared : ¬ w.db.sharedConnections = true := by
    rw [hprivate]
    exact Bool.false_ne_true
  obtain ⟨w₁, he⟩ : ∃ w₁, evict w = some w₁ := by
    unfold evict
    by_cases hfull : w.db.maxConnections ≤ w.task.ncontexts
    · rw [if_pos hfull]
      cases hc : w.task.contexts with
      | nil =>
        refine absurd ?_ hvalid
        unfold acceptedContexts heldContexts
        rw [hc]
        rfl
      | cons c rest => exact ⟨_, rfl⟩
    · rw [if_neg hfull]
      exact ⟨w, rfl⟩
  have hlock : lockRedisContext input plan w =
      (connected input s w w₁, .ok ((connecting input s w w₁).1, nextServerOf plan)) := by
    unfold lockRedisContext lockPrivateRedisContext
    rw [if_neg hshared, hused, hs, he]
    rfl
  have hmem : .opened s (heldContexts w s).length (acceptedContexts input.probe w s).length ∈
      (connected input s w w₁).trace := by
    rw [connected_trace]
    exact List.mem_cons_of_mem _ List.mem_cons_self
  unfold attempt
  rw [hlock]
  cases (connecting input s w w₁).1 with
  | none => exact hmem
  | some c =>
    have hsent := trace_subset (executeOn_exchanged sha1 input call.asking c argv (connected input s w w₁)).1.logs hmem
    dsimp only
    generalize executeOn sha1 input call.asking c argv (connected input s w w₁) = x at hsent ⊢
    obtain ⟨w', argv', f | result⟩ := x
    · exact hsent
    · dsimp only
      rw [unlockRedisContext_trace]
      exact hsent

theorem leave_trace_subset (r : Executed) : r.world.trace ⊆ r.leave.world.trace := by
  obtain ⟨f, -, hl⟩ | ⟨reply, -, hl⟩ := leave_cases r
  · rw [hl]
    exact List.Subset.refl _
  · rw [hl]
    exact List.subset_cons_self _ _

end

section

variable {input : CallInput} {call : Call} {retries : ℕ} {w : World} {s : ServerId} {c : ContextId}

theorem populateExecutionPlan_keeps {master : Bool} {slot maxSize : ℕ} {plan : Plan} {task : Task} {db : Db}
    (hplan : populateExecutionPlan input.plan w.heap maxSize master slot w.task w.db = .ok (plan, task, db))
    (hheld : c ∈ heldContexts w s) (hsuits : serverSuits w.db master slot s = false) : c ∈ task.contexts := by
  obtain ⟨hc, hlocation⟩ := List.mem_filter.mp hheld
  obtain ⟨dbc, hplanned, -⟩ := populateExecutionPlan_spec hplan
  obtain ⟨kept, hperm, hkept, -⟩ := hplanned.kept
  rw [hperm.mem_iff]
  by_contra hn
  have hsuitable := (hkept.dropped c hc hn).1
  rw [suitableForCommand_eq master slot (of_decide_eq_true hlocation), hsuits] at hsuitable
  exact Bool.false_ne_true hsuitable

theorem planExecution_first (hplaced : WellPlaced w.db)
    (hroom : EnoughWorkspace input.plan w.heap (maxSize call.maxRetries retries) call.master call.slot w.task w.db)
    (hnil : plannedContexts input.plan call retries w = []) (hs : (candidates input.plan call retries w)[0]? = some s)
    (hheld : c ∈ heldContexts w s) (hleft : LeftOut input.plan call retries w s c) :
    ∃ plan task db, planExecution input.plan w.heap (maxSize call.maxRetries retries) call.server call.master call.slot
        w.task w.db = .ok (some plan, task, db) ∧ plan.contexts = [] ∧ plan.servers[plan.nextServer]? = some s ∧
      c ∈ task.contexts := by
  cases hserver : call.server with
  | some t =>
    simp only [LeftOut, hserver, hnil, List.length_nil] at hleft
    exact absurd (Nat.le_zero.mp hleft.2.1) hleft.1
  | none =>
    simp only [LeftOut, hserver] at hleft
    simp only [candidates, hserver, hnil, List.length_nil] at hs
    have hfitting : fitting (suitableForCommand w.db w.heap call.master call.slot) input.plan w.heap
        (maxSize call.maxRetries retries) w.task w.db = [] := by
      rw [← plannable_eq_fitting hroom.contexts, ← hnil]
      simp only [plannedContexts, suitable, hserver]
    obtain ⟨task, db, hplan⟩ := populateExecutionPlan_fits hplaced.placed hroom hfitting
    have hexecution := planExecution_of_populated hroom.allocated hplan
    exact ⟨_, task, db, hexecution, rfl, hs, populateExecutionPlan_keeps hplan hheld hleft⟩

theorem redisExecute_misses {sha1 : Bytes → Bytes} {argv : Argv} (hprivate : w.db.sharedConnections = false)
    (hplaced : WellPlaced w.db) (hle : retries ≤ call.maxRetries)
    (hroom : EnoughWorkspace input.plan w.heap (maxSize call.maxRetries retries) call.master call.slot w.task w.db)
    (hconnects : Connects input call retries w 0) (hs : (candidates input.plan call retries w)[0]? = some s)
    (hheld : c ∈ heldContexts w s) (hleft : LeftOut input.plan call retries w s c) (hvalid : Valid input.attempt 0 w c) :
    ¬ Reuses (redisExecute sha1 input call argv retries w).world := by
  have hnil : plannedContexts input.plan call retries w = [] := List.length_eq_zero_iff.mp (Nat.le_zero.mp hconnects.spent)
  obtain ⟨plan, task, db, hp, hcontexts, hfirst, hkept⟩ := planExecution_first hplaced hroom hnil hs hheld hleft
  obtain ⟨hoptions, hserver, -⟩ := planExecution_keeps hp
  obtain ⟨-, hlocation⟩ := List.mem_filter.mp hheld
  obtain ⟨hdb, hat⟩ := of_decide_eq_true hlocation
  have haccepted : c ∈ acceptedContexts (input.attempt 0).probe ((w.planned retries task db).log .attempt) s := by
    have hid : (w.heap c).db = db.id := hdb.trans (congrArg Options.id hoptions).symm
    obtain haccepted | ⟨j, hj, -⟩ := (valid_planned retries task hoptions hserver).mpr hvalid
    · exact List.mem_filter.mpr ⟨List.mem_filter.mpr ⟨hkept, decide_eq_true ⟨hid, hat⟩⟩, decide_eq_true haccepted⟩
    · exact absurd hj (Nat.not_lt_zero j)
  have hne : acceptedContexts (input.attempt 0).probe ((w.planned retries task db).log .attempt) s ≠ [] :=
    List.ne_nil_of_mem haccepted
  obtain ⟨f, he, -⟩ | ⟨p, task', db', he, hempty, -⟩ | ⟨p, task', db', he, -, hx⟩ :=
    redisExecute_cases sha1 input call argv w hle hp
  · cases he
  · cases he
    rw [(hempty plan rfl).2] at hfirst
    cases hfirst
  · cases he
    have hprivate' : ((w.planned retries task db).log .attempt).db.sharedConnections = false :=
      (congrArg Options.sharedConnections hoptions).trans hprivate
    have hused : plan.contexts[plan.nextContext]? = none := by
      rw [hcontexts]
      rfl
    have hopened := (attempts_trace_subset input.attempt call (call.maxRetries - retries) 0 plan argv
      (w.planned retries task db)).1 (@attempt_opens sha1 (input.attempt 0) call plan argv _ s hprivate' hused hfirst hne)
    intro hreuses
    apply hne
    apply List.length_eq_zero_iff.mp
    apply hreuses s
    rw [hx]
    exact leave_trace_subset _ hopened

end

/-- If all the calls meet the condition, no opening misses a valid context; a call that breaks it at its first attempt
does miss one. -/
theorem private_contexts_reused {sha1 : Bytes → Bytes} {w : World} (hr : (thread sha1 Fits).Reachable w) :
    (Reuses w ∧ OnePerServer w) ∧
      ∀ (input : CallInput) (call : Call) (argv : Argv) (retries : ℕ) (s : ServerId) (c : ContextId),
        w.db.sharedConnections = false → WellPlaced w.db → retries ≤ call.maxRetries →
        EnoughWorkspace input.plan w.heap (maxSize call.maxRetries retries) call.master call.slot w.task w.db →
        Connects input call retries w 0 → (candidates input.plan call retries w)[0]? = some s → c ∈ heldContexts w s →
        LeftOut input.plan call retries w s c → Valid input.attempt 0 w c →
        ¬ Reuses (redisExecute sha1 input call argv retries w).world := by
  have h := reachable_sole hr
  refine ⟨⟨h.reused, h.single⟩, ?_⟩
  intro input call argv retries s c hprivate hplaced hle hroom hconnects hs hheld hleft hvalid
  exact redisExecute_misses hprivate hplaced hle hroom hconnects hs hheld hleft hvalid

def answered : CallInput :=
  ⟨⟨true, ⟨0, fun _ => 0, fun _ => false⟩, 1024, 1024⟩, fun _ => ClusterExecution.answering (.string (bytes "v"))⟩

def idle : World := ClusterExecution.idleWorld standalone

def get (master : Bool) (w : World) : Executed :=
  redisExecute id answered ⟨0, none, false, master, 0⟩ ClusterExecution.getKey 0 w

def opens (accepted : ℕ → Bool) : Event → Bool
  | .opened _ _ n => accepted n
  | _ => false

theorem get_sound (master : Bool) : Sound (get master idle).world := by
  have hidle : ClusterExecution.OnRoute none idle := ⟨.idle standalone_fresh.1 standalone_fresh.2, trivial, rfl⟩
  exact (ClusterExecution.redisExecute_route id answered ⟨0, none, false, master, 0⟩ ClusterExecution.getKey 0 hidle
    ⟨rfl, nofun⟩).route.sound

theorem get_ok {master : Bool} {w : World} (h : (get master w).outcome.toOption.isSome = true) :
    ∃ reply, (get master w).outcome = .ok reply := by
  cases ho : (get master w).outcome with
  | error f =>
    rw [ho] at h
    cases h
  | ok reply => exact ⟨reply, rfl⟩

theorem get_step {condition : CallInput → Call → ℕ → World → Prop} {master : Bool} {w : World}
    (hr : (thread id condition).Reachable w) (hprivate : w.db.sharedConnections = false) (hplaced : WellPlaced w.db)
    (hcondition : condition answered ⟨0, none, false, master, 0⟩ 0 w)
    (hok : (get master w).outcome.toOption.isSome = true) : (thread id condition).Reachable (get master w).world := by
  obtain ⟨reply, hreply⟩ := get_ok hok
  exact hr.step (.execute w answered _ _ 0 reply hprivate hplaced hcondition hreply)

theorem private_contexts_reused_once :
    Reuses (get true (get true idle).world).world ∧
      (get true (get true idle).world).world.trace.countP (opens fun _ => true) = 1 ∧
      ¬ Reuses (get false (get true idle).world).world := by
  have hidle : (thread id Fits).Reachable idle := System.reachable_init ⟨rfl, rfl⟩
  have hheld : ∀ s, heldContexts idle s = [] := fun _ => rfl
  have hfits : Fits answered ⟨0, none, false, true, 0⟩ 0 idle := by
    intro i s _ _ c hc
    rw [hheld] at hc
    exact absurd hc List.not_mem_nil
  have hone := get_step hidle rfl standalone_fresh.1 hfits (by decide +kernel)
  have hlength : (plannedContexts answered.plan ⟨0, none, false, true, 0⟩ 0 (get true idle).world).length = 1 := by
    decide +kernel
  have hfits' : Fits answered ⟨0, none, false, true, 0⟩ 0 (get true idle).world := by
    intro i s hconnects
    have hallowed : i ≤ 0 := hconnects.allowed
    have hspent := hconnects.spent
    rw [hlength] at hspent
    omega
  have htwo := get_step hone (by decide +kernel) (get_sound true).wellPlaced hfits' (by decide +kernel)
  refine ⟨(private_contexts_reused htwo).1.1, by decide +kernel, ?_⟩
  have hspent : (plannedContexts answered.plan ⟨0, none, false, false, 0⟩ 0 (get true idle).world).length ≤ 0 := by
    decide +kernel
  have hvalid : Accepted (answered.attempt 0).probe (get true idle).world.heap (get true idle).world.db 0 := by
    decide +kernel
  exact (private_contexts_reused hone).2 answered ⟨0, none, false, false, 0⟩ ClusterExecution.getKey 0 0 0 (by decide +kernel)
    (get_sound true).wellPlaced (le_refl 0) ⟨rfl, by decide +kernel, by decide +kernel⟩ ⟨Nat.zero_le _, hspent, nofun⟩
    (by decide +kernel) (by decide +kernel)
    (show serverSuits (get true idle).world.db false 0 0 = false by decide +kernel) (Or.inl hvalid)

theorem private_contexts_reopened :
    ¬ ∀ (sha1 : Bytes → Bytes) (w : World), (thread sha1 fun _ _ _ _ => True).Reachable w →
      Reuses w ∧ OnePerServer w := by
  intro h
  have hidle : (thread id fun _ _ _ _ => True).Reachable idle := System.reachable_init ⟨rfl, rfl⟩
  have hone := @get_step (fun _ _ _ _ => True) false idle hidle rfl standalone_fresh.1 trivial (by decide +kernel)
  have htwo := @get_step (fun _ _ _ _ => True) false _ hone (by decide +kernel) (get_sound false).wellPlaced trivial
    (by decide +kernel)
  have hany : (get false (get false idle).world).world.trace.any (opens fun n => n = 1) = true := by decide +kernel
  obtain ⟨e, he, hopens⟩ := List.any_eq_true.mp hany
  cases e with
  | opened s held accepted =>
    have hzero : accepted = 0 := (h id (get false (get false idle).world).world htwo).1 s held accepted he
    have hone : accepted = 1 := of_decide_eq_true hopens
    rw [hzero] at hone
    exact absurd hone Nat.zero_ne_one
  | _ => cases hopens

end VmodRedis.PrivateReuse
