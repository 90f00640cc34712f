import VmodRedis.Lib.Pipelining
import VmodRedis.PlanExhaustion

namespace VmodRedis.ReplyOrder

open CStrings Replies Database Connections Execution Pipelining TransitionSystem

/-- A command on a connection, with the number of the `get_redis_repy` call that appended it. -/
structure Sent where
  call : ℕ
  command : Command

abbrev Wire := Channel Sent

structure WireInput where
  append : Command → Bool
  reply : Command → Option Reply

variable (input : WireInput) (call : ℕ)

def redisAppendCommand (command : Command) (w : Wire) : Wire := w.write (input.append command) ⟨call, command⟩

def redisGetReply (command : Command) (w : Wire) : Wire × Option (Sent × Reply) := w.read (input.reply command)

/-- `get_redis_repy` on the connection. The reply comes with the command that it answers. -/
def getRedisRepy (readonly asking : Bool) (args : List Bytes) (w : Wire) : Wire × Option (Sent × Reply) :=
  let w := if readonly then redisAppendCommand input call .readonly w else w
  let w := if asking then redisAppendCommand input call .asking w else w
  let w := redisAppendCommand input call (.argv args) w
  let w := if readonly then redisAppendCommand input call .readwrite w else w
  let w := if readonly then (redisGetReply input .readonly w).1 else w
  let w := if asking then (redisGetReply input .asking w).1 else w
  let (w, result) := redisGetReply input (.argv args) w
  let w := if readonly then (redisGetReply input .readwrite w).1 else w
  (w, result)

def sent (commands : List Command) : List Sent := commands.map fun command => ⟨call, command⟩

def appendAll (commands : List Command) (w : Wire) : Wire :=
  commands.foldl (fun w command => redisAppendCommand input call command w) w

def getAll : List Command → Wire → Wire × List (Option (Sent × Reply))
  | [], w => (w, [])
  | command :: rest, w =>
    let r := redisGetReply input command w
    let s := getAll rest r.1
    (s.1, r.2 :: s.2)

theorem getRedisRepy_eq (readonly asking : Bool) (args : List Bytes) (w : Wire) :
    getRedisRepy input call readonly asking args w =
      let r := getAll input (pipeline readonly asking args)
        (appendAll input call (pipeline readonly asking args) w)
      (r.1, (r.2[readonly.toNat + asking.toNat]?).join) := by
  cases readonly <;> cases asking <;> simp [getRedisRepy, getAll, appendAll, pipeline]

theorem pipeline_get (readonly asking : Bool) (args : List Bytes) :
    (pipeline readonly asking args)[readonly.toNat + asking.toNat]? = some (.argv args) := by
  cases readonly <;> cases asking <;> rfl

theorem appendAll_awaiting {history pending : List Sent} (commands : List Command) {w : Wire}
    (h : w.Awaiting history pending) :
    (appendAll input call commands w).Awaiting (history ++ sent call commands) (pending ++ sent call commands) := by
  induction commands generalizing history pending w with
  | nil => simpa [sent, appendAll] using h
  | cons command rest ih =>
    have hrest := ih (h.write (input.append command) ⟨call, command⟩)
    rw [List.append_assoc, List.append_assoc] at hrest
    exact hrest

theorem getAll_awaiting {history : List Sent} (commands : List Command) {w : Wire}
    (h : w.Awaiting history (sent call commands)) :
    (getAll input commands w).1.Awaiting history [] ∧
      ∀ (i : ℕ) (x : Sent × Reply), ((getAll input commands w).2[i]?).join = some x →
        ∃ command, commands[i]? = some command ∧ x.1 = ⟨call, command⟩ := by
  induction commands generalizing w with
  | nil => exact ⟨h, nofun⟩
  | cons command rest ih =>
    obtain ⟨hread, hfirst⟩ := Channel.Awaiting.read h (input.reply command)
    obtain ⟨hrest, hothers⟩ := ih hread
    refine ⟨hrest, fun i x hx => ?_⟩
    cases i with
    | zero => exact ⟨command, rfl, hfirst x hx⟩
    | succ i => exact hothers i x hx

theorem getRedisRepy_awaiting (readonly asking : Bool) (args : List Bytes) {history : List Sent} {w : Wire}
    (h : w.Awaiting history []) :
    (getRedisRepy input call readonly asking args w).1.Awaiting
        (history ++ sent call (pipeline readonly asking args)) [] ∧
      ∀ x, (getRedisRepy input call readonly asking args w).2 = some x → x.1 = ⟨call, .argv args⟩ := by
  obtain ⟨hwire, hreplies⟩ := getAll_awaiting input call (pipeline readonly asking args)
    (appendAll_awaiting input call (pipeline readonly asking args) h)
  rw [getRedisRepy_eq]
  refine ⟨hwire, fun x hx => ?_⟩
  obtain ⟨command, hcommand, hown⟩ := hreplies _ x hx
  rw [pipeline_get] at hcommand
  rw [hown, ← Option.some.inj hcommand]

structure Returned where
  call : ℕ
  args : List Bytes
  answered : Sent
  reply : Reply

structure Connection where
  wire : Wire
  calls : ℕ
  returned : List Returned

def Connection.opened : Connection := ⟨.fresh, 0, []⟩

def Connection.exchange (input : WireInput) (readonly asking : Bool) (args : List Bytes) (k : Connection) :
    Connection × Option Reply :=
  let r := getRedisRepy input k.calls readonly asking args k.wire
  let returned := match r.2 with
    | some (answered, reply) => ⟨k.calls, args, answered, reply⟩ :: k.returned
    | none => k.returned
  (⟨r.1, k.calls + 1, returned⟩, r.2.map Prod.snd)

structure ExecutionInput where
  first : WireInput
  firstReadonly : Bool
  second : WireInput
  secondReadonly : Bool
  asking : Bool
  evalCopied : Bool

def Connection.evaluate (input : ExecutionInput) (evalsha eval : List Bytes) (k : Connection) : Connection :=
  let (k, reply) := k.exchange input.first input.firstReadonly input.asking evalsha
  if !k.wire.err && reply.any Reply.isNoscript && input.evalCopied then
    (k.exchange input.second input.secondReadonly input.asking eval).1
  else k

inductive Step : Connection → Connection → Prop
  | execute (k : Connection) (input : ExecutionInput) (args : List Bytes) :
      Step k (k.exchange input.first input.firstReadonly input.asking args).1
  | evaluate (k : Connection) (input : ExecutionInput) (evalsha eval : List Bytes) :
      Step k (k.evaluate input evalsha eval)
  | serve (k : Connection) (n : ℕ) : Step k { k with wire := k.wire.serve n }

def connection : System Connection where
  init k := k = .opened
  step := Step

def setMode (vcl : List Bytes → Bool → Bool) (mode : Bool) : Command → Bool
  | .readonly => true
  | .asking => mode
  | .argv args => vcl args mode
  | .readwrite => false

def modeAfter (vcl : List Bytes → Bool → Bool) (requests : List Sent) : Bool :=
  requests.foldl (fun mode s => setMode vcl mode s.command) false

def Connection.inReadonly (vcl : List Bytes → Bool → Bool) (k : Connection) : Bool :=
  modeAfter vcl (k.wire.requests.take k.wire.executed)

def TurnsOn (vcl : List Bytes → Bool → Bool) (requests : List Sent) : Prop :=
  ∃ s ∈ requests, ∃ args, s.command = .argv args ∧ vcl args false = true

structure Inv (k : Connection) : Prop where
  synced : ∃ history, k.wire.Awaiting history [] ∧
    ∀ vcl, modeAfter vcl history = true → TurnsOn vcl history
  own : ∀ r ∈ k.returned, r.answered = ⟨r.call, .argv r.args⟩

theorem modeAfter_pipeline (vcl : List Bytes → Bool → Bool) (call : ℕ) (readonly asking : Bool) (args : List Bytes)
    (history : List Sent) :
    modeAfter vcl (history ++ sent call (pipeline readonly asking args)) =
      if readonly then false else vcl args (modeAfter vcl history) := by
  unfold modeAfter
  cases readonly <;> cases asking <;> simp [pipeline, sent, setMode]

theorem modeAfter_call {vcl : List Bytes → Bool → Bool} {history : List Sent}
    (h : modeAfter vcl history = true → TurnsOn vcl history) (call : ℕ) (readonly asking : Bool) (args : List Bytes)
    (hmode : modeAfter vcl (history ++ sent call (pipeline readonly asking args)) = true) :
    TurnsOn vcl (history ++ sent call (pipeline readonly asking args)) := by
  rw [modeAfter_pipeline] at hmode
  cases readonly with
  | true => exact absurd hmode Bool.false_ne_true
  | false =>
    cases hbefore : modeAfter vcl history with
    | true =>
      obtain ⟨s, hs, hon⟩ := h hbefore
      exact ⟨s, List.mem_append_left _ hs, hon⟩
    | false =>
      rw [if_neg Bool.false_ne_true, hbefore] at hmode
      refine ⟨⟨call, .argv args⟩, List.mem_append_right _ ?_, args, rfl, hmode⟩
      simp [pipeline, sent]

theorem Inv.exchange {k : Connection} (h : Inv k) (input : WireInput) (readonly asking : Bool) (args : List Bytes) :
    Inv (k.exchange input readonly asking args).1 := by
  obtain ⟨history, hawait, hmode⟩ := h.synced
  obtain ⟨hsynced, hresult⟩ := getRedisRepy_awaiting input k.calls readonly asking args hawait
  refine ⟨⟨_, hsynced, fun vcl => modeAfter_call (hmode vcl) k.calls readonly asking args⟩, ?_⟩
  intro r hr
  unfold Connection.exchange at hr
  dsimp only at hr
  cases hreply : (getRedisRepy input k.calls readonly asking args k.wire).2 with
  | none =>
    rw [hreply] at hr
    exact h.own r hr
  | some x =>
    rw [hreply] at hr
    rcases List.mem_cons.mp hr with rfl | hr
    · exact hresult x hreply
    · exact h.own r hr

theorem Step.inv {k k' : Connection} (hs : Step k k') (h : Inv k) : Inv k' := by
  cases hs with
  | execute input args => exact h.exchange _ _ _ _
  | evaluate input evalsha eval =>
    have hfirst := h.exchange input.first input.firstReadonly input.asking evalsha
    unfold Connection.evaluate
    dsimp only
    split_ifs
    · exact hfirst.exchange _ _ _ _
    · exact hfirst
  | serve n =>
    obtain ⟨history, hawait, hmode⟩ := h.synced
    exact ⟨⟨history, hawait.serve n, hmode⟩, h.own⟩

theorem reachable_inv {k : Connection} (hr : connection.Reachable k) : Inv k := by
  refine System.invariant (P := Inv) ?_ (fun k k' _ h hs => Step.inv hs h) hr
  rintro k rfl
  exact ⟨⟨[], Channel.awaiting_fresh, fun _ hmode => absurd hmode Bool.false_ne_true⟩,
    fun r hr => absurd hr List.not_mem_nil⟩

/-- Whatever was executed on a connection, its replies went to the calls that they belong to, and if it
is accepted again no reply is left over, nor the READONLY mode, unless the VCL turned it on itself. -/
theorem replies_in_order {k : Connection} (hr : connection.Reachable k) :
    (∀ r ∈ k.returned, r.answered = ⟨r.call, .argv r.args⟩) ∧
      ∀ (p : Probe) (heap : Heap) (db : Db) (c : ContextId), (heap c).err = k.wire.err → Accepted p heap db c →
        k.wire.unread = [] ∧
          ∀ vcl, k.inReadonly vcl = true → TurnsOn vcl k.wire.requests := by
  have h := reachable_inv hr
  refine ⟨h.own, fun p heap db c hc hvalid => ?_⟩
  obtain ⟨history, hawait, hmode⟩ := h.synced
  have herr : k.wire.err = false := hc.symm.trans ((accepted_iff p heap db c).mp hvalid).1
  obtain ⟨hrequests, hunread⟩ := hawait herr
  refine ⟨hunread, fun vcl hon => ?_⟩
  unfold Connection.inReadonly at hon
  rw [hawait.executed herr] at hon
  rw [hrequests]
  exact hmode vcl hon

def answering : WireInput := ⟨fun _ => true, fun _ => some .nil⟩

def replica : ExecutionInput := ⟨answering, true, answering, false, false, true⟩

def redirected : ExecutionInput := { replica with firstReadonly := false, asking := true }

def twice : Connection :=
  (((Connection.opened.exchange answering true false [bytes "GET", bytes "a"]).1).exchange answering false true
    [bytes "GET", bytes "b"]).1

theorem replies_in_order_twice : twice.returned.length = 2 ∧
    (∀ r ∈ twice.returned, r.answered = ⟨r.call, .argv r.args⟩) ∧ twice.wire.unread = [] := by
  have h0 : connection.Reachable .opened := System.reachable_init rfl
  have h1 := h0.step (.execute _ replica [bytes "GET", bytes "a"])
  have h2 : connection.Reachable twice := h1.step (.execute _ redirected [bytes "GET", bytes "b"])
  have herr : twice.wire.err = false := by decide +kernel
  obtain ⟨hown, hsynced⟩ := replies_in_order h2
  exact ⟨by decide +kernel, hown, (hsynced ⟨0, fun _ => 0, fun _ => false⟩ (fun _ => ⟨0, 0, false, 0, 0⟩)
    (newVmodRedisDb ⟨0, 0, 0, true, 1, .off, 0, false, true, 0⟩) 0 herr.symm (by decide)).1⟩

theorem getAll_dead (commands : List Command) {w : Wire} (h : w.err = true) :
    (getAll input commands w).1.err = true ∧ (getAll input commands w).2 = commands.map fun _ => none := by
  induction commands generalizing w with
  | nil => exact ⟨h, rfl⟩
  | cons command rest ih =>
    have hread : redisGetReply input command w = (w.fail, none) := Channel.read_of_err h _
    obtain ⟨herr, hnone⟩ := ih (w := w.fail) rfl
    simp only [getAll, hread, List.map_cons]
    exact ⟨herr, congrArg (none :: ·) hnone⟩

theorem getAll_live (commands : List Command) {w : Wire} (herr : w.err = false)
    (h : w.unread = sent call commands) :
    (getAll input commands w).1.err = (readReplies input.reply commands).2 ∧
      (getAll input commands w).2.map (Option.map Prod.snd) = (readReplies input.reply commands).1 := by
  induction commands generalizing w with
  | nil => exact ⟨herr, rfl⟩
  | cons command rest ih =>
    cases hreply : input.reply command with
    | none =>
      have hread : redisGetReply input command w = (w.fail, none) := by
        unfold redisGetReply
        rw [hreply, Channel.read_none]
      obtain ⟨hdead, hnone⟩ := getAll_dead input rest (w := w.fail) rfl
      simp only [getAll, hread, readReplies, hreply, List.map_cons, Option.map_none]
      refine ⟨hdead, ?_⟩
      rw [hnone, List.map_map]
      rfl
    | some reply =>
      obtain ⟨hsome, herr', hunread⟩ := Channel.read_some herr h reply
      rw [← hreply] at hsome herr' hunread
      obtain ⟨hrest, hreplies⟩ := ih herr' hunread
      simp only [getAll, readReplies, hreply, List.map_cons]
      refine ⟨hrest, ?_⟩
      rw [← hreplies]
      congr 1
      unfold redisGetReply
      rw [hsome]
      rfl

theorem appendAll_err (commands : List Command) {w : Wire} (h : w.err = true) :
    (appendAll input call commands w).err = true := by
  induction commands generalizing w with
  | nil => exact h
  | cons command rest ih =>
    apply ih
    exact Channel.write_of_err h _ _

/-- What the executions of the other modules assume of a call: some of its replies arrive, in order,
and a first failure spoils the rest. -/
theorem getRedisRepy_refines {history : List Sent} {wire : Wire} (h : wire.Awaiting history []) (w : World)
    (c : ContextId) (hc : (w.heap c).err = wire.err) (asking : Bool) (args : List Bytes) :
    ∃ answer, (Execution.getRedisRepy answer asking c args w).2 =
        (getRedisRepy input call (isReadonly w c) asking args wire).2.map Prod.snd ∧
      ((Execution.getRedisRepy answer asking c args w).1.heap c).err =
        (getRedisRepy input call (isReadonly w c) asking args wire).1.err := by
  have hsent := appendAll_awaiting input call (pipeline (isReadonly w c) asking args) h
  rw [getRedisRepy_eq]
  obtain ⟨w', hw'⟩ : ∃ w', w' = appendAll input call (pipeline (isReadonly w c) asking args) wire := ⟨_, rfl⟩
  rw [← hw'] at hsent ⊢
  dsimp only
  cases herr : w'.err with
  | true =>
    obtain ⟨hdead, hnone⟩ := getAll_dead input (pipeline (isReadonly w c) asking args) herr
    refine ⟨fun _ => none, ?_, ?_⟩
    · rw [getRedisRepy_refused, hnone, List.getElem?_map, pipeline_get]
      rfl
    · have hfailed : (readReplies (fun _ => none) (pipeline (isReadonly w c) asking args)).2 = true := by
        cases isReadonly w c <;> cases asking <;> rfl
      unfold Execution.getRedisRepy
      simp [World.log, hfailed, hdead]
  | false =>
    obtain ⟨hlive, hreplies⟩ := getAll_live input call (pipeline (isReadonly w c) asking args) herr (hsent herr).2
    have hbefore : wire.err = false := by
      by_contra hdead
      rw [hw', appendAll_err input call _ (Bool.eq_true_of_not_eq_false hdead)] at herr
      exact Bool.false_ne_true herr.symm
    refine ⟨input.reply, ?_, ?_⟩
    · unfold Execution.getRedisRepy
      dsimp only
      rw [← hreplies, List.getElem?_map]
      cases (getAll input (pipeline (isReadonly w c) asking args) w').2[(isReadonly w c).toNat + asking.toNat]? with
      | none => rfl
      | some reply => rfl
    · unfold Execution.getRedisRepy
      simp [World.log, hc, hbefore, hlive]

end VmodRedis.ReplyOrder
