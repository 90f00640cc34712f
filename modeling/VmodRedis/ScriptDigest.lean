import VmodRedis.ScriptFallback
import VmodRedis.Sha1Stream

namespace VmodRedis.ScriptDigest

open CStrings Replies Database Connections Planning DiscoveryWalk Execution ClusterExecution ScriptFallback Sha1
  Sha1Transform Sha1Stream

def hexDigit (n : ℕ) : UInt8 := .ofNat (if n < 10 then 48 + n else 87 + n)

def printByte (b : UInt8) : Bytes := [hexDigit (b.toNat / 16), hexDigit (b.toNat % 16)]

/-- The text of the digest of a script; the null pointer when it does not fit in the workspace. No result when
memory is accessed out of bounds. -/
def sha1 (order : ByteOrder) (uninitialized : Sha1Ctx) (fits : Bool) (script : Bytes) : Option (Option Bytes) := do
  let script := cstr script
  let context ← SHA1Update order (SHA1Init uninitialized) script (.ofNat 32 script.length)
  let buffer ← SHA1Final order context
  some (if fits then some (buffer.flatMap printByte) else none)

def digestText (script : Bytes) : Bytes := (messageDigest (cstr script)).flatMap printByte

theorem printed_length (digest : Bytes) : (digest.flatMap printByte).length = 2 * digest.length := by
  induction digest with
  | nil => rfl
  | cons b digest ih =>
    rw [List.flatMap_cons, List.length_append, ih, List.length_cons]
    change 2 + _ = _
    omega

def isHexDigit (c : UInt8) : Bool := (48 ≤ c && c ≤ 57) || (97 ≤ c && c ≤ 102)

theorem isHexDigit_hexDigit {n : ℕ} (h : n < 16) : isHexDigit (hexDigit n) = true := by
  have hall : ∀ d < 16, isHexDigit (hexDigit d) = true := by decide
  exact hall n h

theorem printed_isHexDigit (digest : Bytes) : ∀ c ∈ digest.flatMap printByte, isHexDigit c = true := by
  intro c hc
  obtain ⟨b, -, hb⟩ := List.mem_flatMap.mp hc
  have hlt := b.toNat_lt
  rcases List.mem_cons.mp hb with rfl | hb
  · exact isHexDigit_hexDigit (by omega)
  · rw [List.mem_singleton.mp hb]
    exact isHexDigit_hexDigit (by omega)

theorem sha1_take (order : ByteOrder) (uninitialized : Sha1Ctx) (fits : Bool) (script : Bytes) :
    sha1 order uninitialized fits script = some (if fits then
      some ((messageDigest ((cstr script).take ((cstr script).length % 2 ^ 32))).flatMap printByte) else none) := by
  have hlen : (BitVec.ofNat 32 (cstr script).length).toNat = (cstr script).length % 2 ^ 32 := BitVec.toNat_ofNat _ _
  have hle : (cstr script).length % 2 ^ 32 ≤ (cstr script).length := Nat.mod_le _ _
  have hlt : (cstr script).length % 2 ^ 32 < 2 ^ 32 := Nat.mod_lt _ (by decide)
  obtain ⟨context, hupdate, habsorbed⟩ := update_spec order (absorbed_init uninitialized)
    (show (BitVec.ofNat 32 (cstr script).length).toNat ≤ (cstr script).length by omega)
    (by rw [hlen, List.length_nil]; omega)
  rw [List.nil_append, hlen] at habsorbed
  unfold sha1
  dsimp only
  rw [hupdate]
  dsimp only [Option.bind_eq_bind, Option.bind_some]
  rw [SHA1Final_spec order habsorbed]
  rfl

theorem sha1_text (order : ByteOrder) (uninitialized : Sha1Ctx) (fits : Bool) (script : Bytes) :
    ∃ text, sha1 order uninitialized fits script = some (if fits then some text else none) ∧ text.length = 40 ∧
      (∀ c ∈ text, isHexDigit c = true) ∧ ((cstr script).length < 2 ^ 32 → text = digestText script) := by
  refine ⟨_, sha1_take order uninitialized fits script, ?_, printed_isHexDigit _, fun hshort => ?_⟩
  · rw [printed_length, messageDigest, digest_length]
  · rw [Nat.mod_eq_of_lt hshort, List.take_length, digestText]

/-- What may be sent for a command: its arguments, or in the place of a script its digest and then the script. -/
def Sendable (args sent : List Bytes) : Prop :=
  sent = args ∨ ∃ command script rest, args = command :: script :: rest ∧ strcasecmp command (bytes "EVAL") = true ∧
    (sent = bytes "EVAL" :: script :: rest ∨ sent = bytes "EVALSHA" :: digestText script :: rest)

def Carries (args : List Bytes) : Event → Prop
  | .exchange _ _ commands _ _ => ∃ sent, argsOf commands = some sent ∧ Sendable args sent
  | _ => True

def Left (args : List Bytes) (argv : Argv) : Prop := ∀ sent, argv.mapM id = some sent → Sendable args sent

section

variable {digest : Bytes → Bytes} {args : List Bytes} {argv : Argv}

theorem carries_of_not_isInner {e : Event} (h : e.isInner = false) : Carries args e := by
  cases e <;> first | exact trivial | cases h

theorem carries_of_isLocking {e : Event} (h : e.isLocking = true) : Carries args e := by
  cases e <;> first | exact trivial | cases h

theorem send_carries (answer : Command → Option Reply) (asking : Bool) (c : ContextId) (h : Left args argv) (w : World) :
    Logs (Carries args) w (send answer asking c argv w).1 := by
  unfold send
  cases hm : argv.mapM id with
  | none => exact .refl w
  | some sent =>
    refine ⟨[_], rfl, ?_⟩
    intro e he
    rw [List.mem_singleton.mp he]
    exact ⟨sent, argsOf_pipeline _ _ _, h sent hm⟩

theorem Left.cons {command script : Bytes} {rest : Argv} (h : Left args (some command :: some script :: rest))
    {command' script' : Bytes}
    (hs : ∀ sent, Sendable args (command :: script :: sent) → Sendable args (command' :: script' :: sent)) :
    Left args (some command' :: some script' :: rest) := by
  intro sent hm
  simp only [List.mapM_cons, id_eq, Option.bind_eq_bind, Option.bind_some] at hm
  cases hr : rest.mapM id with
  | none => simp [hr] at hm
  | some tail =>
    simp only [hr, Option.bind_some, Option.pure_def, Option.some.injEq] at hm
    rw [← hm]
    refine hs tail (h _ ?_)
    simp [hr]

theorem Sendable.of_eval {command script : Bytes} {rest : List Bytes} (h : Sendable args (command :: script :: rest))
    (hc : strcasecmp command (bytes "EVAL") = true) : script ∈ args ∧
      Sendable args (bytes "EVAL" :: script :: rest) ∧ Sendable args (bytes "EVALSHA" :: digestText script :: rest) := by
  obtain ⟨name, rfl, hname⟩ : ∃ name, args = name :: script :: rest ∧ strcasecmp name (bytes "EVAL") = true := by
    rcases h with rfl | ⟨name, body, tail, rfl, hname, he | he⟩
    · exact ⟨command, rfl, hc⟩
    · cases he
      exact ⟨name, rfl, hname⟩
    · cases he
      exact absurd hc (by decide)
  exact ⟨List.mem_cons_of_mem _ List.mem_cons_self, .inr ⟨name, script, rest, rfl, hname, .inl rfl⟩,
    .inr ⟨name, script, rest, rfl, hname, .inr rfl⟩⟩

structure Sends (args : List Bytes) (w w' : World) (argv : Argv) : Prop where
  logs : Logs (Carries args) w w'
  left : Left args argv

variable (hdigest : ∀ script ∈ args, digest script = digestText script)

include hdigest

theorem evaluate_sends (input : AttemptInput) (asking : Bool) (c : ContextId) {command script : Bytes} {rest : Argv}
    (hc : strcasecmp command (bytes "EVAL") = true) (h : Left args (some command :: some script :: rest)) (w : World) :
    Sends args w (evaluate digest input asking c script rest w).1 (evaluate digest input asking c script rest w).2.1 := by
  have hnull : ∀ argv : Argv, Left args (none :: argv) := fun argv sent hm => by simp at hm
  have heval : Left args (some (bytes "EVAL") :: some script :: rest) := h.cons fun sent hs => (hs.of_eval hc).2.1
  have hsha : Left args (some (bytes "EVALSHA") :: some (digest script) :: rest) := h.cons fun sent hs => by
    obtain ⟨hmem, -, hsend⟩ := hs.of_eval hc
    rwa [hdigest script hmem]
  have hfirst := send_carries input.first asking c hsha w
  unfold evaluate
  by_cases hevalsha : (!input.copies.evalsha) = true
  · rw [if_pos hevalsha]
    exact ⟨.refl w, hnull _⟩
  by_cases hcopy : (!input.copies.sha) = true
  · rw [if_neg hevalsha, if_pos hcopy]
    exact ⟨.refl w, fun sent hm => by simp at hm⟩
  rw [if_neg hevalsha, if_neg hcopy]
  dsimp only
  split
  · next hr =>
    rw [hr] at hfirst
    exact ⟨hfirst, hsha⟩
  · next w' reply hr =>
    rw [hr] at hfirst
    have hsecond := send_carries input.second asking c heval (countNoscript w')
    split_ifs
    · exact ⟨hfirst, hnull _⟩
    · refine ⟨?_, heval⟩
      dsimp only
      rw [ofSend_world]
      exact hfirst.trans hsecond
    · exact ⟨hfirst, hsha⟩

theorem executeOn_sends (input : AttemptInput) (asking : Bool) (c : ContextId) (h : Left args argv) (w : World) :
    Sends args w (executeOn digest input asking c argv w).1 (executeOn digest input asking c argv w).2.1 := by
  have hsend := send_carries input.first asking c h w
  unfold executeOn
  split
  · split_ifs with hc
    · exact evaluate_sends hdigest input asking c hc h w
    · refine ⟨?_, h⟩
      dsimp only
      rw [ofSend_world]
      exact hsend
  · refine ⟨?_, h⟩
    dsimp only
    rw [ofSend_world]
    exact hsend
  · exact ⟨.refl w, h⟩

theorem attempt_sends (input : AttemptInput) (asking : Bool) (plan : Plan) (h : Left args argv) (w : World) :
    Sends args w (attempt digest input asking plan argv w).world (attempt digest input asking plan argv w).argv := by
  have hlock : Logs (Carries args) w (lockRedisContext input plan w).1 :=
    (lockRedisContext_locking input plan w).logs.mono fun _ => carries_of_isLocking
  unfold attempt
  split
  · next hr =>
    rw [hr] at hlock
    exact ⟨hlock, h⟩
  · next hr =>
    rw [hr] at hlock
    exact ⟨hlock, h⟩
  · next w' c plan' hr =>
    rw [hr] at hlock
    obtain ⟨hlogs, hleft⟩ := executeOn_sends hdigest input asking c h w'
    split
    · next hx =>
      rw [hx] at hlogs hleft
      exact ⟨hlock.trans hlogs, hleft⟩
    · next hx =>
      rw [hx] at hlogs hleft
      exact ⟨(hlock.trans hlogs).congr (unlockRedisContext_trace c _), hleft⟩

theorem attempts_sends (input : ℕ → AttemptInput) (call : Call) (n i : ℕ) (plan : Plan) (h : Left args argv) (w : World) :
    Sends args w (attempts digest input call n i plan argv w).world (attempts digest input call n i plan argv w).argv := by
  induction n using Nat.strong_induction_on generalizing i plan argv w with
  | _ n ih =>
    obtain ⟨a, ha⟩ : ∃ a, attempt digest (input i) call.asking plan argv (w.log .attempt) = a := ⟨_, rfl⟩
    have hstart : Logs (Carries args) w (w.log .attempt) := (Logs.refl w).log trivial
    obtain ⟨hlogs, hleft⟩ := attempt_sends hdigest (input i) call.asking plan h (w.log .attempt)
    rw [ha] at hlogs hleft
    have hdone := hstart.trans hlogs
    rcases attempts_cases digest input call n i plan argv w ha with
      ⟨f, -, hr⟩ | ⟨-, hr⟩ | ⟨reply, -, -, hr⟩ | ⟨m, rfl, -, hr⟩ <;> rw [hr]
    · exact ⟨hdone, hleft⟩
    · exact ⟨hdone, hleft⟩
    · exact ⟨hdone.congr (countCommand_trace _ _ _), hleft⟩
    · obtain ⟨hrest, hend⟩ := ih m (Nat.lt_succ_self m) (i + 1) a.plan hleft
        (countCommand (call.maxRetries - (m + 1)) none a.world)
      exact ⟨(hdone.congr (countCommand_trace _ _ _)).trans hrest, hend⟩

theorem redisExecute_sends (input : CallInput) (call : Call) (retries : ℕ) (h : Left args argv) (w : World) :
    Sends args w (redisExecute digest input call argv retries w).world
      (redisExecute digest input call argv retries w).argv := by
  have henter : Logs (Carries args) w (w.log (.enter retries)) := (Logs.refl w).log trivial
  by_cases hr : retries ≤ call.maxRetries
  · obtain ⟨p, hp⟩ : ∃ p, planExecution input.plan w.heap (maxSize call.maxRetries retries) call.server call.master
      call.slot w.task w.db = p := ⟨_, rfl⟩
    rcases redisExecute_cases digest input call argv w hr hp with
      ⟨f, -, he⟩ | ⟨plan, task, db, -, -, he⟩ | ⟨plan, task, db, -, -, he⟩ <;> rw [he]
    · exact ⟨henter, h⟩
    · have hplanned : Logs (Carries args) w (w.planned retries task db) := henter
      exact ⟨hplanned.log trivial, h⟩
    · obtain ⟨hlogs, hleft⟩ := attempts_sends hdigest input.attempt call (call.maxRetries - retries) 0 plan h
        (w.planned retries task db)
      have hplanned : Logs (Carries args) w (w.planned retries task db) := henter
      rcases leave_cases (attempts digest input.attempt call (call.maxRetries - retries) 0 plan argv
        (w.planned retries task db)) with ⟨f, -, hl⟩ | ⟨reply, -, hl⟩ <;> rw [hl]
      · exact ⟨hplanned.trans hlogs, hleft⟩
      · exact ⟨(hplanned.trans hlogs).log trivial, hleft⟩
  · rw [redisExecute_exceeded digest input call argv w (Nat.not_le.mp hr)]
    exact ⟨henter, h⟩

theorem follow_sends (fuel : ℕ) (input : ClusterInput) (maxRetries : ℕ) (master : Bool) (slot hops i : ℕ)
    (server : Option ServerId) (asking : Bool) (retries : ℕ) (h : Left args argv) (w : World) :
    Logs (Carries args) w
      (follow digest fuel input maxRetries master slot hops i server asking argv retries w).world := by
  induction hops using Nat.strong_induction_on generalizing i server asking argv retries w with
  | _ hops ih =>
    obtain ⟨hlogs, hleft⟩ := redisExecute_sends hdigest (input.call i) ⟨maxRetries, server, asking, master, slot⟩ retries
      h w
    obtain ⟨r, hrun⟩ : ∃ r, redisExecute digest (input.call i) ⟨maxRetries, server, asking, master, slot⟩ argv retries
      w = r := ⟨_, rfl⟩
    rw [hrun] at hlogs hleft
    rcases follow_cases digest fuel input maxRetries master slot hops i server asking argv retries w hrun with
      ⟨-, he⟩ | ⟨str, -, hcases⟩
    · rw [he]
      exact hlogs
    · have hredirect : Logs (Carries args) r.world (redirect fuel (input.redirect i) i str r.world).1 :=
        (redirect_neutral fuel (input.redirect i) i str r.world).mono fun _ => carries_of_not_isInner
      rcases hcases with ⟨w', f, hw, he⟩ | ⟨w', s, hw, -, he⟩ | ⟨w', s, m, hw, rfl, -, he⟩ <;>
        rw [hw] at hredirect <;> rw [he]
      · exact hlogs.trans hredirect
      · exact hlogs.trans hredirect
      · have hfollowed : Logs (Carries args) w (w'.log .followed) := (hlogs.trans hredirect).log trivial
        exact hfollowed.trans (ih m (Nat.lt_succ_self m) (i + 1) (some s) _ _ hleft (w'.log .followed))

theorem dbExecute_sends (fuel : ℕ) (input : ClusterInput) (maxRetries : ℕ) (master : Bool) (h : Left args argv)
    (w : World) : Logs (Carries args) w (dbExecute digest fuel input maxRetries master argv w).world := by
  unfold dbExecute
  dsimp only
  split
  · split_ifs
    · rcases clusterExecute_cases digest input maxRetries _ argv 0 w with ⟨outcome, -, he⟩ | ⟨key, he⟩ <;> rw [he]
      · exact .refl w
      · exact follow_sends hdigest fuel input maxRetries _ _ _ 0 none false 0 h w
    · exact (redisExecute_sends hdigest (input.call 0) _ 0 h w).logs
  · exact .refl w

end

/-- In every run of a command, whatever is retried or redirected: all that is sent is the command as given, or, when
it is an `EVAL`, the command with the digest that the server knows its script by, or with the script. -/
theorem command_carries_digest (order : ByteOrder) (uninitialized : Sha1Ctx) (fuel : ℕ) (input : ClusterInput)
    (maxRetries : ℕ) (master : Bool) {args : List Bytes} (hshort : ∀ arg ∈ args, (cstr arg).length < 2 ^ 32) (w : World) :
    Logs (Carries args) w (dbExecute (fun script => ((sha1 order uninitialized true script).join).getD []) fuel input
      maxRetries master (args.map some) w).world := by
  refine dbExecute_sends (fun script hs => ?_) fuel input maxRetries master (fun sent hm => ?_) w
  · rw [sha1_take, Nat.mod_eq_of_lt (hshort script hs), List.take_length]
    rfl
  · rw [mapM_some] at hm
    exact .inl (Option.some.inj hm).symm

def evalArgs : List Bytes := [bytes "eval", bytes "return 1", bytes "0"]

theorem command_carries_digest_eval :
    Logs (Carries evalArgs) (idleWorld masters) (dbExecute (fun script =>
      ((sha1 .little blankCtx true script).join).getD []) 5 forgetting 3 false (evalArgs.map some)
      (idleWorld masters)).world :=
  command_carries_digest .little blankCtx 5 forgetting 3 false (by decide) (idleWorld masters)

end VmodRedis.ScriptDigest
