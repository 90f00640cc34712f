import VmodRedis.ScriptFallback
import VmodRedis.Lib.Ownership

namespace VmodRedis.ReplyOwnership

open CStrings Replies Database Connections Planning Ownership ClusterExecution Slots
open Execution (Argv Command World AttemptInput CallInput Call Copies isNoscriptReply countNoscript)

/-- A reply, and the object that holds it. -/
abbrev Ref := ℕ × Reply

def refs (result : Option Ref) : List ℕ := (result.map Prod.fst).toList

def obtained (l : Ledger) : Option Reply → Ledger × Option Ref
  | some reply => (l.obtain, some (l.obtained, reply))
  | none => (l, none)

def freeReplyObject (result : Option Ref) (l : Ledger) : Ledger :=
  match result with
  | some reply => l.release reply.1
  | none => l

def send (answer : Command → Option Reply) (asking : Bool) (c : ContextId) (argv : Argv) (w : World) (l : Ledger) :
    World × Except Fault (Ledger × Option Ref) :=
  match Execution.send answer asking c argv w with
  | (w, .ok reply) => (w, .ok (obtained l reply))
  | (w, .error f) => (w, .error f)

inductive Result where
  | failedWs
  | done (result : Option Ref)

namespace Result

def ofSend : World × Except Fault (Ledger × Option Ref) → World × Except Fault (Ledger × Result)
  | (w, .ok (l, result)) => (w, .ok (l, .done result))
  | (w, .error f) => (w, .error f)

def refs : Result → List ℕ
  | .failedWs => []
  | .done result => ReplyOwnership.refs result

def erase : Result → Execution.Result
  | .failedWs => .failedWs
  | .done result => .done (result.map Prod.snd)

end Result

structure Sent where
  world : World
  argv : Argv
  outcome : Except Fault (Ledger × Result)

structure Attempt where
  world : World
  plan : Plan
  argv : Argv
  outcome : Except Fault (Ledger × Result)

structure Executed where
  world : World
  argv : Argv
  retries : ℕ
  outcome : Except Fault (Ledger × Option Ref)

def Sent.erase (r : Sent) : World × Argv × Except Fault Execution.Result :=
  (r.world, r.argv, r.outcome.map fun o => o.2.erase)

def Attempt.erase (r : Attempt) : Execution.Attempt := ⟨r.world, r.plan, r.argv, r.outcome.map fun o => o.2.erase⟩

def Executed.erase (r : Executed) : Execution.Executed :=
  ⟨r.world, r.argv, r.retries, r.outcome.map fun o => o.2.map Prod.snd⟩

section

variable (sha1 : Bytes → Bytes)

def evaluate (input : AttemptInput) (asking : Bool) (c : ContextId) (script : Bytes) (rest : Argv) (w : World)
    (l : Ledger) : Sent :=
  if !input.copies.evalsha then ⟨w, none :: some script :: rest, .ok (l, .failedWs)⟩
  else if !input.copies.sha then ⟨w, some (bytes "EVALSHA") :: none :: rest, .ok (l, .failedWs)⟩
  else
    let argv := some (bytes "EVALSHA") :: some (sha1 script) :: rest
    match send input.first asking c argv w l with
    | (w, .error f) => ⟨w, argv, .error f⟩
    | (w, .ok (l, result)) =>
      if isNoscriptReply w c (result.map Prod.snd) then
        if !input.copies.eval then ⟨w, none :: some (sha1 script) :: rest, .ok (l, .failedWs)⟩
        else
          let argv := some (bytes "EVAL") :: some script :: rest
          let r := Result.ofSend (send input.second asking c argv (countNoscript w) (freeReplyObject result l))
          ⟨r.1, argv, r.2⟩
      else ⟨w, argv, .ok (l, .done result)⟩

def sendArgs (input : AttemptInput) (asking : Bool) (c : ContextId) (argv : Argv) (w : World) (l : Ledger) : Sent :=
  let r := Result.ofSend (send input.first asking c argv w l)
  ⟨r.1, argv, r.2⟩

def executeOn (input : AttemptInput) (asking : Bool) (c : ContextId) (argv : Argv) (w : World) (l : Ledger) : Sent :=
  match argv with
  | some command :: some script :: rest =>
    if strcasecmp command (bytes "EVAL") then evaluate sha1 input asking c script rest w l
    else sendArgs input asking c argv w l
  | [some _] => sendArgs input asking c argv w l
  | _ => ⟨w, argv, .error .nullArgument⟩

def attempt (input : AttemptInput) (asking : Bool) (plan : Plan) (argv : Argv) (w : World) (l : Ledger) : Attempt :=
  match Execution.lockRedisContext input plan w with
  | (w, .error f) => ⟨w, plan, argv, .error f⟩
  | (w, .ok (none, plan)) => ⟨w, plan, argv, .ok (l, .done none)⟩
  | (w, .ok (some c, plan)) =>
    let r := executeOn sha1 input asking c argv w l
    match r.outcome with
    | .error f => ⟨r.world, plan, r.argv, .error f⟩
    | .ok o => ⟨Execution.unlockRedisContext c r.world, plan, r.argv, .ok o⟩

def attempts (input : ℕ → AttemptInput) (call : Call) : ℕ → ℕ → Plan → Argv → World → Ledger → Executed
  | n, i, plan, argv, w, l =>
    let a := attempt sha1 (input i) call.asking plan argv (w.log .attempt) l
    match a.outcome with
    | .error f => ⟨a.world, a.argv, call.maxRetries - n, .error f⟩
    | .ok (l, .failedWs) => ⟨a.world, a.argv, call.maxRetries, .ok (l, none)⟩
    | .ok (l, .done result) =>
      let w := Execution.countCommand (call.maxRetries - n) (result.map Prod.snd) a.world
      match result, n with
      | none, n + 1 => attempts input call n (i + 1) a.plan a.argv w l
      | result, n => ⟨w, a.argv, call.maxRetries - n, .ok (l, result)⟩

def Executed.leave (r : Executed) : Executed :=
  match r.outcome with
  | .ok _ => { r with world := r.world.log (.leave r.retries) }
  | .error _ => r

def redisExecute (input : CallInput) (call : Call) (argv : Argv) (retries : ℕ) (w : World) (l : Ledger) : Executed :=
  let w := w.log (.enter retries)
  if call.maxRetries < retries then ⟨w, argv, retries, .error .retriesExceeded⟩
  else
    match planExecution input.plan w.heap (Execution.maxSize call.maxRetries retries) call.server call.master call.slot
      w.task w.db with
    | .error f => ⟨w, argv, retries, .error f⟩
    | .ok (plan, task, db) =>
      let w := { w with task := task, db := db }
      let unavailable : Executed := ⟨w, argv, call.maxRetries, .ok (l, none)⟩
      match plan with
      | none => unavailable.leave
      | some plan =>
        if plan.contexts.isEmpty && plan.servers.isEmpty then unavailable.leave
        else (attempts sha1 input.attempt call (call.maxRetries - retries) 0 plan argv w l).leave

variable (fuel : ℕ) (input : ClusterInput)

def follow (maxRetries : ℕ) (master : Bool) (slot : ℕ) :
    ℕ → ℕ → Option ServerId → Bool → Argv → ℕ → World → Ledger → Executed
  | hops, i, server, asking, argv, retries, w, l =>
    let r := redisExecute sha1 (input.call i) ⟨maxRetries, server, asking, master, slot⟩ argv retries w l
    match r.outcome with
    | .ok (l, some (id, .error str)) =>
      if (Reply.error str).isRedirection then
        match redirect fuel (input.redirect i) i str r.world with
        | (w, .error f) => { r with world := w, outcome := .error f }
        | (w, .ok s) =>
          let l := freeReplyObject (some (id, .error str)) l
          match hops with
          | 0 => { r with world := w, outcome := .ok (l, none) }
          | hops + 1 =>
            if r.retries ≤ maxRetries then
              follow maxRetries master slot hops (i + 1) (some s) (!strncmp str (bytes "MOVED")) r.argv r.retries
                (w.log .followed) l
            else { r with world := w, outcome := .ok (l, none) }
      else r
    | _ => r

def clusterExecute (maxRetries : ℕ) (master : Bool) (argv : Argv) (retries : ℕ) (w : World) (l : Ledger) : Executed :=
  match argv.head? with
  | some (some command) =>
    let index := getKeyIndex command
    if 0 < index ∧ index < argv.length then
      match argv[index.toNat]? with
      | some (some key) =>
        follow sha1 fuel input maxRetries master (getClusterSlot key) (hopsOf w.db) 0 none false argv retries w l
      | _ => ⟨w, argv, retries, .error .nullArgument⟩
    else ⟨w, argv, retries, .ok (l, none)⟩
  | _ => ⟨w, argv, retries, .error .nullArgument⟩

def dbExecute (maxRetries : ℕ) (master : Bool) (argv : Argv) (w : World) (l : Ledger) : Executed :=
  let master := master || w.db.ignoreSlaves
  match argv.head? with
  | some (some command) =>
    let script := strcasecmp command (bytes "EVAL") || strcasecmp command (bytes "EVALSHA")
    let master := master || (w.db.clusterEnabled && script)
    if w.db.clusterEnabled then clusterExecute sha1 fuel input maxRetries master argv 0 w l
    else redisExecute sha1 (input.call 0) ⟨maxRetries, none, false, master, 0⟩ argv 0 w l
  | _ => ⟨w, argv, 0, .error .nullArgument⟩

end

section

theorem send_erase (answer : Command → Option Reply) (asking : Bool) (c : ContextId) (argv : Argv) (w : World)
    (l : Ledger) :
    Execution.send answer asking c argv w =
      ((send answer asking c argv w l).1, (send answer asking c argv w l).2.map fun o => o.2.map Prod.snd) := by
  unfold send
  obtain ⟨r, hr⟩ : ∃ r, r = Execution.send answer asking c argv w := ⟨_, rfl⟩
  rw [← hr]
  obtain ⟨w', f | reply⟩ := r
  · rfl
  · cases reply <;> rfl

theorem ofSend_erase (answer : Command → Option Reply) (asking : Bool) (c : ContextId) (argv : Argv) (w : World)
    (l : Ledger) :
    Execution.Result.ofSend (Execution.send answer asking c argv w) =
      ((Result.ofSend (send answer asking c argv w l)).1,
        (Result.ofSend (send answer asking c argv w l)).2.map fun o => o.2.erase) := by
  rw [send_erase answer asking c argv w l]
  obtain ⟨w', f | o⟩ := send answer asking c argv w l <;> rfl

variable (sha1 : Bytes → Bytes)

theorem sendArgs_erase (input : AttemptInput) (asking : Bool) (c : ContextId) (argv : Argv) (w : World) (l : Ledger) :
    (sendArgs input asking c argv w l).erase =
      ((Execution.Result.ofSend (Execution.send input.first asking c argv w)).1, argv,
        (Execution.Result.ofSend (Execution.send input.first asking c argv w)).2) := by
  rw [ofSend_erase input.first asking c argv w l]
  rfl

theorem evaluate_erase (input : AttemptInput) (asking : Bool) (c : ContextId) (script : Bytes) (rest : Argv)
    (w : World) (l : Ledger) :
    (evaluate sha1 input asking c script rest w l).erase = Execution.evaluate sha1 input asking c script rest w := by
  unfold evaluate Execution.evaluate
  by_cases hevalsha : (!input.copies.evalsha) = true
  · rw [if_pos hevalsha, if_pos hevalsha]
    rfl
  rw [if_neg hevalsha, if_neg hevalsha]
  by_cases hsha : (!input.copies.sha) = true
  · rw [if_pos hsha, if_pos hsha]
    rfl
  rw [if_neg hsha, if_neg hsha]
  dsimp only
  rw [send_erase input.first asking c _ w l]
  obtain ⟨w', f | ⟨l', result⟩⟩ := send input.first asking c _ w l
  · rfl
  dsimp only [Except.map]
  by_cases hnoscript : isNoscriptReply w' c (result.map Prod.snd) = true
  · rw [if_pos hnoscript, if_pos hnoscript]
    by_cases heval : (!input.copies.eval) = true
    · rw [if_pos heval, if_pos heval]
      rfl
    · rw [if_neg heval, if_neg heval, ofSend_erase _ _ _ _ _ (freeReplyObject result l')]
      rfl
  · rw [if_neg hnoscript, if_neg hnoscript]
    rfl

theorem executeOn_erase (input : AttemptInput) (asking : Bool) (c : ContextId) (argv : Argv) (w : World) (l : Ledger) :
    (executeOn sha1 input asking c argv w l).erase = Execution.executeOn sha1 input asking c argv w := by
  unfold executeOn Execution.executeOn
  match argv with
  | some command :: some script :: rest =>
    by_cases heval : strcasecmp command (bytes "EVAL") = true
    · dsimp only
      rw [if_pos heval, if_pos heval]
      exact evaluate_erase sha1 input asking c script rest w l
    · dsimp only
      rw [if_neg heval, if_neg heval]
      exact sendArgs_erase input asking c _ w l
  | [some _] => exact sendArgs_erase input asking c _ w l
  | [] => rfl
  | none :: _ => rfl
  | some _ :: none :: _ => rfl

theorem attempt_erase (input : AttemptInput) (asking : Bool) (plan : Plan) (argv : Argv) (w : World) (l : Ledger) :
    (attempt sha1 input asking plan argv w l).erase = Execution.attempt sha1 input asking plan argv w := by
  unfold attempt Execution.attempt
  obtain ⟨w', f | ⟨_ | c, plan'⟩⟩ := Execution.lockRedisContext input plan w
  · rfl
  · rfl
  · dsimp only
    rw [← executeOn_erase sha1 input asking c argv w' l]
    obtain ⟨w', argv', f | ⟨l', result⟩⟩ := executeOn sha1 input asking c argv w' l <;> rfl

theorem attempts_erase (input : ℕ → AttemptInput) (call : Call) (n i : ℕ) (plan : Plan) (argv : Argv) (w : World)
    (l : Ledger) :
    (attempts sha1 input call n i plan argv w l).erase = Execution.attempts sha1 input call n i plan argv w := by
  unfold attempts Execution.attempts
  rw [← attempt_erase sha1 (input i) call.asking plan argv (w.log .attempt) l]
  obtain ⟨w', plan', argv', f | ⟨l', _ | (_ | result)⟩⟩ :=
    attempt sha1 (input i) call.asking plan argv (w.log .attempt) l
  · rfl
  · rfl
  · cases n with
    | zero => rfl
    | succ n => exact attempts_erase input call n (i + 1) plan' argv' _ l'
  · cases n <;> rfl

theorem leave_erase (r : Executed) : r.leave.erase = r.erase.leave := by
  obtain ⟨w, argv, retries, f | o⟩ := r <;> rfl

theorem redisExecute_erase (input : CallInput) (call : Call) (argv : Argv) (retries : ℕ) (w : World) (l : Ledger) :
    (redisExecute sha1 input call argv retries w l).erase =
      Execution.redisExecute sha1 input call argv retries w := by
  unfold redisExecute Execution.redisExecute
  dsimp only
  by_cases hexceeded : call.maxRetries < retries
  · rw [if_pos hexceeded, if_pos hexceeded]
    rfl
  rw [if_neg hexceeded, if_neg hexceeded]
  obtain f | ⟨_ | plan', task, db⟩ := planExecution input.plan (w.log (.enter retries)).heap
    (Execution.maxSize call.maxRetries retries) call.server call.master call.slot (w.log (.enter retries)).task
    (w.log (.enter retries)).db
  · rfl
  · rfl
  · dsimp only
    by_cases hempty : (plan'.contexts.isEmpty && plan'.servers.isEmpty) = true
    · rw [if_pos hempty, if_pos hempty]
      rfl
    · rw [if_neg hempty, if_neg hempty, leave_erase, attempts_erase]

variable (fuel : ℕ) (input : ClusterInput)

theorem follow_erase (maxRetries : ℕ) (master : Bool) (slot hops i : ℕ) (server : Option ServerId) (asking : Bool)
    (argv : Argv) (retries : ℕ) (w : World) (l : Ledger) :
    (follow sha1 fuel input maxRetries master slot hops i server asking argv retries w l).erase =
      ClusterExecution.follow sha1 fuel input maxRetries master slot hops i server asking argv retries w := by
  unfold follow ClusterExecution.follow
  rw [← redisExecute_erase sha1 (input.call i) ⟨maxRetries, server, asking, master, slot⟩ argv retries w l]
  obtain ⟨w', argv', retries', f | ⟨l', _ | ⟨id, reply⟩⟩⟩ :=
    redisExecute sha1 (input.call i) ⟨maxRetries, server, asking, master, slot⟩ argv retries w l
  · rfl
  · rfl
  cases reply with
  | error str =>
    dsimp only [Executed.erase, Except.map, Option.map]
    by_cases hredirection : (Reply.error str).isRedirection = true
    · rw [if_pos hredirection, if_pos hredirection]
      obtain ⟨w'', f | s⟩ := redirect fuel (input.redirect i) i str w'
      · rfl
      cases hops with
      | zero => rfl
      | succ hops =>
        dsimp only
        by_cases hleft : retries' ≤ maxRetries
        · rw [if_pos hleft, if_pos hleft]
          exact follow_erase maxRetries master slot hops (i + 1) (some s) _ argv' retries' _ _
        · rw [if_neg hleft, if_neg hleft]
    · rw [if_neg hredirection, if_neg hredirection]
  | _ => rfl

theorem clusterExecute_erase (maxRetries : ℕ) (master : Bool) (argv : Argv) (retries : ℕ) (w : World) (l : Ledger) :
    (clusterExecute sha1 fuel input maxRetries master argv retries w l).erase =
      ClusterExecution.clusterExecute sha1 fuel input maxRetries master argv retries w := by
  unfold clusterExecute ClusterExecution.clusterExecute
  obtain _ | _ | command := argv.head?
  · rfl
  · rfl
  dsimp only
  by_cases hindex : 0 < getKeyIndex command ∧ getKeyIndex command < argv.length
  · rw [if_pos hindex, if_pos hindex]
    obtain _ | _ | key := argv[(getKeyIndex command).toNat]?
    · rfl
    · rfl
    · exact follow_erase sha1 fuel input maxRetries master _ _ 0 none false argv retries w l
  · rw [if_neg hindex, if_neg hindex]
    rfl

/-- But for the objects, what was proved about the execution of commands holds here. -/
theorem dbExecute_erase (maxRetries : ℕ) (master : Bool) (argv : Argv) (w : World) (l : Ledger) :
    (dbExecute sha1 fuel input maxRetries master argv w l).erase =
      ClusterExecution.dbExecute sha1 fuel input maxRetries master argv w := by
  unfold dbExecute ClusterExecution.dbExecute
  obtain _ | _ | command := argv.head?
  · rfl
  · rfl
  dsimp only
  by_cases hcluster : w.db.clusterEnabled = true
  · rw [if_pos hcluster, if_pos hcluster]
    exact clusterExecute_erase sha1 fuel input maxRetries _ argv 0 w l
  · rw [if_neg hcluster, if_neg hcluster]
    exact redisExecute_erase sha1 (input.call 0) _ argv 0 w l

end

section

variable {l l' : Ledger} {frame : List ℕ}

theorem obtained_owns (h : Owns l frame) (reply : Option Reply) :
    Owns (obtained l reply).1 (refs (obtained l reply).2 ++ frame) := by
  cases reply with
  | none => exact h
  | some reply => exact h.obtain

theorem freeReplyObject_owns {result : Option Ref} (h : Owns l (refs result ++ frame)) :
    Owns (freeReplyObject result l) frame := by
  cases result with
  | none => exact h
  | some reply => exact h.release

theorem send_owns {answer : Command → Option Reply} {asking : Bool} {c : ContextId} {argv : Argv} {w : World}
    {result : Option Ref} (h : Owns l frame) (hs : (send answer asking c argv w l).2 = .ok (l', result)) :
    Owns l' (refs result ++ frame) := by
  unfold send at hs
  generalize Execution.send answer asking c argv w = r at hs
  obtain ⟨w', f | reply⟩ := r
  · cases hs
  · have ho := obtained_owns h reply
    rw [Except.ok.inj hs] at ho
    exact ho

theorem ofSend_owns {answer : Command → Option Reply} {asking : Bool} {c : ContextId} {argv : Argv} {w : World}
    {result : Result} (h : Owns l frame)
    (hs : (Result.ofSend (send answer asking c argv w l)).2 = .ok (l', result)) : Owns l' (result.refs ++ frame) := by
  obtain ⟨r, hr⟩ : ∃ r, r = send answer asking c argv w l := ⟨_, rfl⟩
  rw [← hr] at hs
  obtain ⟨w', f | ⟨m, reply⟩⟩ := r
  · cases hs
  · obtain ⟨rfl, rfl⟩ := Prod.mk.inj (Except.ok.inj hs)
    exact send_owns h (congrArg Prod.snd hr.symm)

theorem send_answer {answer : Command → Option Reply} {asking : Bool} {c : ContextId} {command : Bytes} {argv : Argv}
    {w : World} {reply : Reply} (hs : (Execution.send answer asking c (some command :: argv) w).2 = .ok (some reply)) :
    ∃ args, answer (.argv (command :: args)) = some reply := by
  unfold Execution.send at hs
  rw [List.mapM_cons] at hs
  cases hargs : argv.mapM id with
  | none =>
    rw [hargs] at hs
    cases hs
  | some args =>
    rw [hargs] at hs
    have hreply := Except.ok.inj hs
    obtain ⟨sent, hsent, hanswer⟩ := ScriptFallback.readReplies_get hreply
    refine ⟨args, ?_⟩
    have hargv : (Execution.pipeline (Execution.isReadonly w c) asking (command :: args))[
        (Execution.isReadonly w c).toNat + asking.toNat]? = some (.argv (command :: args)) := by
      cases Execution.isReadonly w c <;> cases asking <;> rfl
    rw [hargv] at hsent
    obtain rfl := Option.some.inj hsent
    exact hanswer

def Copied (input : AttemptInput) : Prop :=
  ∀ args reply, input.first (.argv (bytes "EVALSHA" :: args)) = some reply → reply.isNoscript = true →
    input.copies.eval = true

variable {sha1 : Bytes → Bytes}

theorem evaluate_owns {input : AttemptInput} {asking : Bool} {c : ContextId} {script : Bytes} {rest : Argv} {w : World}
    {result : Result} (hcopied : Copied input) (h : Owns l frame)
    (he : (evaluate sha1 input asking c script rest w l).outcome = .ok (l', result)) :
    Owns l' (result.refs ++ frame) := by
  unfold evaluate at he
  by_cases hevalsha : (!input.copies.evalsha) = true
  · rw [if_pos hevalsha] at he
    obtain ⟨rfl, rfl⟩ := Prod.mk.inj (Except.ok.inj he)
    exact h
  rw [if_neg hevalsha] at he
  by_cases hsha : (!input.copies.sha) = true
  · rw [if_pos hsha] at he
    obtain ⟨rfl, rfl⟩ := Prod.mk.inj (Except.ok.inj he)
    exact h
  rw [if_neg hsha] at he
  dsimp only at he
  obtain ⟨r, hr⟩ : ∃ r, r = send input.first asking c (some (bytes "EVALSHA") :: some (sha1 script) :: rest) w l :=
    ⟨_, rfl⟩
  rw [← hr] at he
  obtain ⟨w', f | ⟨m, reply⟩⟩ := r
  · cases he
  have hm : Owns m (refs reply ++ frame) := send_owns h (congrArg Prod.snd hr.symm)
  dsimp only at he
  by_cases hnoscript : isNoscriptReply w' c (reply.map Prod.snd) = true
  · have heval : input.copies.eval = true := by
      obtain ⟨-, hany⟩ := Bool.and_eq_true_iff.mp hnoscript
      cases reply with
      | none => cases hany
      | some reply =>
        have hanswer : (Execution.send input.first asking c (some (bytes "EVALSHA") :: some (sha1 script) :: rest) w).2 =
            .ok (some reply.2) := by
          rw [send_erase _ _ _ _ _ l, ← hr]
          rfl
        obtain ⟨args, ha⟩ := send_answer hanswer
        exact hcopied args reply.2 ha hany
    rw [if_pos hnoscript, heval] at he
    exact ofSend_owns (freeReplyObject_owns hm) he
  · rw [if_neg hnoscript] at he
    obtain ⟨rfl, rfl⟩ := Prod.mk.inj (Except.ok.inj he)
    exact hm

theorem evaluate_abandons {input : AttemptInput} {asking : Bool} {c : ContextId} {script : Bytes} {rest : Argv}
    {w w' : World} {reply : Ref} (hevalsha : input.copies.evalsha = true) (hsha : input.copies.sha = true)
    (heval : input.copies.eval = false)
    (hs : send input.first asking c (some (bytes "EVALSHA") :: some (sha1 script) :: rest) w l =
      (w', .ok (l.obtain, some reply)))
    (hnoscript : isNoscriptReply w' c (some reply.2) = true) (h : Owns l frame) :
    (evaluate sha1 input asking c script rest w l).outcome = .ok (l.obtain, .failedWs) ∧ ¬ Owns l.obtain frame := by
  refine ⟨?_, h.not_owns_obtain⟩
  unfold evaluate
  rw [hevalsha, hsha, heval]
  dsimp only
  have hcopied : ¬ (!true) = true := Bool.false_ne_true
  rw [if_neg hcopied, if_neg hcopied, hs]
  dsimp only [Option.map]
  rw [if_pos hnoscript]
  rfl

theorem executeOn_owns {input : AttemptInput} {asking : Bool} {c : ContextId} {argv : Argv} {w : World}
    {result : Result} (hcopied : Copied input) (h : Owns l frame)
    (he : (executeOn sha1 input asking c argv w l).outcome = .ok (l', result)) : Owns l' (result.refs ++ frame) := by
  unfold executeOn at he
  match argv with
  | some command :: some script :: rest =>
    by_cases heval : strcasecmp command (bytes "EVAL") = true
    · dsimp only at he
      rw [if_pos heval] at he
      exact evaluate_owns hcopied h he
    · dsimp only at he
      rw [if_neg heval] at he
      exact ofSend_owns h he
  | [some _] => exact ofSend_owns h he
  | [] => cases he
  | none :: _ => cases he
  | some _ :: none :: _ => cases he

theorem attempt_owns {input : AttemptInput} {asking : Bool} {plan : Plan} {argv : Argv} {w : World}
    {result : Result} (hcopied : Copied input) (h : Owns l frame)
    (he : (attempt sha1 input asking plan argv w l).outcome = .ok (l', result)) : Owns l' (result.refs ++ frame) := by
  unfold attempt at he
  generalize Execution.lockRedisContext input plan w = locked at he
  obtain ⟨w', f | ⟨_ | c, plan'⟩⟩ := locked
  · cases he
  · obtain ⟨rfl, rfl⟩ := Prod.mk.inj (Except.ok.inj he)
    exact h
  dsimp only at he
  obtain ⟨r, hr⟩ : ∃ r, r = executeOn sha1 input asking c argv w' l := ⟨_, rfl⟩
  rw [← hr] at he
  obtain ⟨w'', argv', f | o⟩ := r
  · cases he
  · obtain rfl := Except.ok.inj he
    exact executeOn_owns hcopied h (congrArg Sent.outcome hr.symm)

theorem attempts_owns {l : Ledger} {input : ℕ → AttemptInput} {call : Call} {n i : ℕ} {plan : Plan} {argv : Argv} {w : World}
    {result : Option Ref} (hcopied : ∀ j, Copied (input j)) (h : Owns l frame)
    (he : (attempts sha1 input call n i plan argv w l).outcome = .ok (l', result)) : Owns l' (refs result ++ frame) := by
  unfold attempts at he
  dsimp only at he
  obtain ⟨a, ha⟩ : ∃ a, a = attempt sha1 (input i) call.asking plan argv (w.log .attempt) l := ⟨_, rfl⟩
  rw [← ha] at he
  obtain ⟨w', plan', argv', f | ⟨m, _ | reply⟩⟩ := a
  · cases he
  · obtain ⟨rfl, rfl⟩ := Prod.mk.inj (Except.ok.inj he)
    exact attempt_owns (hcopied i) h (congrArg Attempt.outcome ha.symm)
  have hm : Owns m (refs reply ++ frame) := attempt_owns (hcopied i) h (congrArg Attempt.outcome ha.symm)
  cases reply with
  | some reply =>
    cases n <;>
    · obtain ⟨rfl, rfl⟩ := Prod.mk.inj (Except.ok.inj he)
      exact hm
  | none =>
    cases n with
    | zero =>
      obtain ⟨rfl, rfl⟩ := Prod.mk.inj (Except.ok.inj he)
      exact hm
    | succ n => exact attempts_owns hcopied hm he

theorem leave_outcome (r : Executed) : r.leave.outcome = r.outcome := by
  obtain ⟨w, argv, retries, f | o⟩ := r <;> rfl

theorem redisExecute_owns {input : CallInput} {call : Call} {argv : Argv} {retries : ℕ} {w : World}
    {result : Option Ref} (hcopied : ∀ j, Copied (input.attempt j)) (h : Owns l frame)
    (he : (redisExecute sha1 input call argv retries w l).outcome = .ok (l', result)) :
    Owns l' (refs result ++ frame) := by
  unfold redisExecute at he
  dsimp only at he
  by_cases hexceeded : call.maxRetries < retries
  · rw [if_pos hexceeded] at he
    cases he
  rw [if_neg hexceeded] at he
  generalize planExecution input.plan (w.log (.enter retries)).heap (Execution.maxSize call.maxRetries retries)
    call.server call.master call.slot (w.log (.enter retries)).task (w.log (.enter retries)).db = planned at he
  obtain f | ⟨_ | plan', task, db⟩ := planned
  · cases he
  · obtain ⟨rfl, rfl⟩ := Prod.mk.inj (Except.ok.inj he)
    exact h
  · dsimp only at he
    by_cases hempty : (plan'.contexts.isEmpty && plan'.servers.isEmpty) = true
    · rw [if_pos hempty] at he
      obtain ⟨rfl, rfl⟩ := Prod.mk.inj (Except.ok.inj he)
      exact h
    · rw [if_neg hempty, leave_outcome] at he
      exact attempts_owns hcopied h he

variable {fuel : ℕ} {input : ClusterInput}

theorem follow_owns {l : Ledger} {maxRetries : ℕ} {master : Bool} {slot hops i : ℕ} {server : Option ServerId} {asking : Bool}
    {argv : Argv} {retries : ℕ} {w : World} {result : Option Ref}
    (hcopied : ∀ i j, Copied ((input.call i).attempt j)) (h : Owns l frame)
    (he : (follow sha1 fuel input maxRetries master slot hops i server asking argv retries w l).outcome =
      .ok (l', result)) : Owns l' (refs result ++ frame) := by
  unfold follow at he
  dsimp only at he
  obtain ⟨r, hr⟩ : ∃ r, r = redisExecute sha1 (input.call i) ⟨maxRetries, server, asking, master, slot⟩ argv retries w l :=
    ⟨_, rfl⟩
  rw [← hr] at he
  have hcall : ∀ m reply, r.outcome = .ok (m, reply) → Owns m (refs reply ++ frame) := by
    intro m reply hm
    rw [hr] at hm
    exact redisExecute_owns (hcopied i) h hm
  clear hr
  obtain ⟨w', argv', retries', f | ⟨m, _ | ⟨id, reply⟩⟩⟩ := r
  · cases he
  · obtain ⟨rfl, rfl⟩ := Prod.mk.inj (Except.ok.inj he)
    exact hcall _ _ rfl
  have hm := hcall _ _ rfl
  cases reply with
  | error str =>
    dsimp only at he
    by_cases hredirection : (Reply.error str).isRedirection = true
    · rw [if_pos hredirection] at he
      have hfreed : Owns (freeReplyObject (some (id, .error str)) m) frame := freeReplyObject_owns hm
      generalize redirect fuel (input.redirect i) i str w' = redirected at he
      obtain ⟨w'', f | s⟩ := redirected
      · cases he
      cases hops with
      | zero =>
        obtain ⟨rfl, rfl⟩ := Prod.mk.inj (Except.ok.inj he)
        exact hfreed
      | succ hops =>
        dsimp only at he
        by_cases hleft : retries' ≤ maxRetries
        · rw [if_pos hleft] at he
          exact follow_owns hcopied hfreed he
        · rw [if_neg hleft] at he
          obtain ⟨rfl, rfl⟩ := Prod.mk.inj (Except.ok.inj he)
          exact hfreed
    · rw [if_neg hredirection] at he
      obtain ⟨rfl, rfl⟩ := Prod.mk.inj (Except.ok.inj he)
      exact hm
  | _ =>
    obtain ⟨rfl, rfl⟩ := Prod.mk.inj (Except.ok.inj he)
    exact hm

theorem clusterExecute_owns {maxRetries : ℕ} {master : Bool} {argv : Argv} {retries : ℕ} {w : World}
    {result : Option Ref} (hcopied : ∀ i j, Copied ((input.call i).attempt j)) (h : Owns l frame)
    (he : (clusterExecute sha1 fuel input maxRetries master argv retries w l).outcome = .ok (l', result)) :
    Owns l' (refs result ++ frame) := by
  unfold clusterExecute at he
  generalize argv.head? = head at he
  obtain _ | _ | command := head
  · cases he
  · cases he
  dsimp only at he
  by_cases hindex : 0 < getKeyIndex command ∧ getKeyIndex command < argv.length
  · rw [if_pos hindex] at he
    generalize argv[(getKeyIndex command).toNat]? = key at he
    obtain _ | _ | key := key
    · cases he
    · cases he
    · exact follow_owns hcopied h he
  · rw [if_neg hindex] at he
    obtain ⟨rfl, rfl⟩ := Prod.mk.inj (Except.ok.inj he)
    exact h

theorem dbExecute_owns {maxRetries : ℕ} {master : Bool} {argv : Argv} {w : World} {result : Option Ref}
    (hcopied : ∀ i j, Copied ((input.call i).attempt j)) (h : Owns l frame)
    (he : (dbExecute sha1 fuel input maxRetries master argv w l).outcome = .ok (l', result)) :
    Owns l' (refs result ++ frame) := by
  unfold dbExecute at he
  generalize argv.head? = head at he
  obtain _ | _ | command := head
  · cases he
  · cases he
  dsimp only at he
  by_cases hcluster : w.db.clusterEnabled = true
  · rw [if_pos hcluster] at he
    exact clusterExecute_owns hcopied h he
  · rw [if_neg hcluster] at he
    exact redisExecute_owns (hcopied 0) h he

end

end VmodRedis.ReplyOwnership
