import VmodRedis.ExecutionTrace
import VmodRedis.Lib.TransitionSystem

namespace VmodRedis.ScriptFallback

open CStrings Replies Database Connections Planning DiscoveryWalk Execution ClusterExecution Slots TransitionSystem

def argsOf (commands : List Command) : Option (List Bytes) :=
  commands.findSome? fun command => match command with
    | .argv args => some args
    | _ => none

def isEvalsha (commands : List Command) : Bool :=
  (argsOf commands).any fun args => args.head? = some (bytes "EVALSHA")

def isUnknown : Event → Bool
  | .exchange _ _ commands reply _ => isEvalsha commands && reply.any Reply.isNoscript
  | _ => false

def isAnswered : Event → Bool
  | .exchange _ _ commands reply _ => isEvalsha commands && !reply.any Reply.isNoscript
  | _ => false

def isFailed : Event → Bool
  | .exchange _ _ _ _ err => err
  | _ => false

/-- Some `EVALSHA` is answered with `NOSCRIPT` on a connection with an error, or after another `EVALSHA` that
was answered otherwise. -/
def Misses : List Event → Prop
  | [] => False
  | e :: earlier =>
    (isUnknown e = true ∧ (isFailed e = true ∨ ∃ f ∈ earlier, isAnswered f = true)) ∨ Misses earlier

instance decidableMisses : DecidablePred Misses
  | [] => isFalse id
  | e :: earlier =>
    have := decidableMisses earlier
    inferInstanceAs (Decidable ((isUnknown e = true ∧ (isFailed e = true ∨ ∃ f ∈ earlier, isAnswered f = true)) ∨
      Misses earlier))

def Sends (c : ContextId) (args : List Bytes) : Event → Prop
  | .exchange _ d commands _ _ => d = c ∧ argsOf commands = some args
  | _ => False

/-- Right after each `EVALSHA` answered with `NOSCRIPT` the script itself, with the same arguments, is sent on
the same connection. -/
def FallsBack (script : Bytes) (events : List Event) : Prop :=
  ∀ later s c commands reply err earlier, events = later ++ .exchange s c commands reply err :: earlier →
    isUnknown (.exchange s c commands reply err) = true →
      ∃ name digest rest, argsOf commands = some (name :: digest :: rest) ∧
        ∃ front e, later = front ++ [e] ∧ Sends c (bytes "EVAL" :: script :: rest) e

def OnlyEvalsha (answer : Command → Option Reply) : Prop :=
  ∀ args reply, answer (.argv args) = some reply → reply.isNoscript = true →
    ∃ command, args.head? = some command ∧ strcasecmp command (bytes "EVALSHA") = true

theorem argsOf_pipeline (readonly asking : Bool) (args : List Bytes) :
    argsOf (pipeline readonly asking args) = some args := by
  cases readonly <;> cases asking <;> rfl

theorem readReplies_get {answer : Command → Option Reply} {commands : List Command} {i : ℕ} {reply : Reply}
    (h : ((readReplies answer commands).1[i]?).join = some reply) :
    ∃ command, commands[i]? = some command ∧ answer command = some reply := by
  induction commands generalizing i with
  | nil => simp [readReplies] at h
  | cons command rest ih =>
    unfold readReplies at h
    cases ha : answer command with
    | none =>
      rw [ha] at h
      cases i with
      | zero => cases h
      | succ i =>
        dsimp only at h
        rw [List.getElem?_cons_succ, List.getElem?_map] at h
        cases hi : rest[i]? <;> rw [hi] at h <;> cases h
    | some r =>
      rw [ha] at h
      cases i with
      | zero =>
        cases h
        exact ⟨command, rfl, ha⟩
      | succ i => exact ih h

theorem send_spec (answer : Command → Option Reply) (asking : Bool) (c : ContextId) (args : List Bytes) (w : World) :
    ∃ readonly reply err, (send answer asking c (args.map some) w).2 = .ok reply ∧
      (send answer asking c (args.map some) w).1.trace =
        .exchange (w.heap c).server c (pipeline readonly asking args) reply err :: w.trace ∧
      ((send answer asking c (args.map some) w).1.heap c).err = err ∧
      ∀ r, reply = some r → answer (.argv args) = some r := by
  unfold send
  rw [mapM_some]
  unfold getRedisRepy
  dsimp only
  refine ⟨isReadonly w c, _, _, rfl, rfl, ?_, fun r hr => ?_⟩
  · exact congrArg Context.err (Function.update_self c _ w.heap)
  · obtain ⟨command, hc, ha⟩ := readReplies_get hr
    have hargv : (pipeline (isReadonly w c) asking args)[(isReadonly w c).toNat + asking.toNat]? =
        some (.argv args) := by
      cases isReadonly w c <;> cases asking <;> rfl
    rw [hargv] at hc
    cases hc
    exact ha

structure Kept (sha1 : Bytes → Bytes) (script : Bytes) (rest : List Bytes) (argv : Argv) (events : List Event) :
    Prop where
  falls : FallsBack script events
  hits : ¬ Misses events
  argv : (∃ command, strcasecmp command (bytes "EVAL") = true ∧ argv = (command :: script :: rest).map some ∧
      ∀ e ∈ events, isAnswered e = false) ∨
    (argv = (bytes "EVALSHA" :: sha1 script :: rest).map some ∧ ∃ e ∈ events, isAnswered e = true)

def Progress (sha1 : Bytes → Bytes) (script : Bytes) (rest : List Bytes) (argv : Argv) (events : List Event)
    (reply : Option Reply) : Prop :=
  (Kept sha1 script rest argv events ∧ reply.any Reply.isNoscript = false) ∨
    (Misses events ∧ reply.any Reply.isNoscript = true)

variable {sha1 : Bytes → Bytes} {script : Bytes} {rest : List Bytes} {argv : Argv} {events : List Event}

theorem FallsBack.cons (h : FallsBack script events) {e : Event} (he : isUnknown e = false) :
    FallsBack script (e :: events) := by
  intro later s c commands reply err earlier heq hu
  cases later with
  | nil =>
    obtain ⟨rfl, -⟩ := List.cons.inj heq
    rw [he] at hu
    cases hu
  | cons f later =>
    obtain ⟨-, heq⟩ := List.cons.inj heq
    obtain ⟨name, digest, rest, hargs, front, g, rfl, hg⟩ := h later s c commands reply err earlier heq hu
    exact ⟨name, digest, rest, hargs, f :: front, g, rfl, hg⟩

theorem FallsBack.fallback (h : FallsBack script events) {s t : ServerId} {c : ContextId}
    {commands commands' : List Command} {reply reply' : Option Reply} {err err' : Bool} {name digest : Bytes}
    (hknown : argsOf commands = some (name :: digest :: rest))
    (hargs : argsOf commands' = some (bytes "EVAL" :: script :: rest))
    (he : isUnknown (.exchange t c commands' reply' err') = false) :
    FallsBack script (.exchange t c commands' reply' err' :: .exchange s c commands reply err :: events) := by
  intro later u d words answer failed earlier heq hu
  match later with
  | [] =>
    obtain ⟨heq, -⟩ := List.cons.inj heq
    rw [← heq, he] at hu
    cases hu
  | [f] =>
    obtain ⟨rfl, htail⟩ := List.cons.inj heq
    obtain ⟨hsame, -⟩ := List.cons.inj htail
    obtain ⟨-, hc, rfl, -⟩ := Event.exchange.inj hsame
    exact ⟨name, digest, rest, hknown, [], _, rfl, hc, hargs⟩
  | f :: g :: later =>
    obtain ⟨-, heq⟩ := List.cons.inj heq
    obtain ⟨-, heq⟩ := List.cons.inj heq
    obtain ⟨name, digest, rest, hargs', front, x, rfl, hx⟩ := h later u d words answer failed earlier heq hu
    exact ⟨name, digest, rest, hargs', f :: g :: front, x, rfl, hx⟩

theorem Kept.logs {w w' : World} {P : Event → Prop} (h : Kept sha1 script rest argv w.trace) (hl : Logs P w w')
    (hP : ∀ e, P e → isUnknown e = false ∧ isAnswered e = false) : Kept sha1 script rest argv w'.trace := by
  obtain ⟨events, ht, he⟩ := hl
  rw [ht]
  clear ht
  induction events with
  | nil => exact h
  | cons e events ih =>
    obtain ⟨hu, ha⟩ := hP e (he e List.mem_cons_self)
    obtain ⟨hfalls, hhits, hargv⟩ := ih fun f hf => he f (List.mem_cons_of_mem e hf)
    refine ⟨hfalls.cons hu, ?_, ?_⟩
    · rintro (⟨hu', -⟩ | hm)
      · rw [hu] at hu'
        cases hu'
      · exact hhits hm
    · rcases hargv with ⟨command, hc, rfl, hnone⟩ | ⟨rfl, f, hf, hfa⟩
      · refine Or.inl ⟨command, hc, rfl, fun f hf => ?_⟩
        rcases List.mem_cons.mp hf with rfl | hf
        · exact ha
        · exact hnone f hf
      · exact Or.inr ⟨rfl, f, List.mem_cons_of_mem e hf, hfa⟩

theorem neutral_of_not_isInner {e : Event} (h : e.isInner = false) : isUnknown e = false ∧ isAnswered e = false := by
  cases e <;> first | exact ⟨rfl, rfl⟩ | cases h

theorem Kept.log {w : World} (h : Kept sha1 script rest argv w.trace) {e : Event} (he : e.isInner = false) :
    Kept sha1 script rest argv (w.log e).trace := by
  have hl : Logs (fun e => e.isInner = false) w (w.log e) := (Logs.refl w).log he
  exact h.logs hl fun _ => neutral_of_not_isInner

theorem isEvalsha_pipeline (readonly asking : Bool) (args : List Bytes) :
    isEvalsha (pipeline readonly asking args) = decide (args.head? = some (bytes "EVALSHA")) := by
  unfold isEvalsha
  rw [argsOf_pipeline]
  rfl

theorem not_isNoscript {answer : Command → Option Reply} (h : OnlyEvalsha answer) {args : List Bytes}
    {reply : Option Reply} (hr : ∀ r, reply = some r → answer (.argv (bytes "EVAL" :: args)) = some r) :
    reply.any Reply.isNoscript = false := by
  cases reply with
  | none => rfl
  | some r =>
    by_contra hn
    obtain ⟨command, hc, he⟩ := h _ r (hr r rfl) (Bool.eq_true_of_not_eq_false hn)
    cases hc
    exact absurd he (by decide)

theorem isEvalsha_evalsha (readonly asking : Bool) (args : List Bytes) :
    isEvalsha (pipeline readonly asking (bytes "EVALSHA" :: args)) = true := by
  rw [isEvalsha_pipeline]
  rfl

theorem isEvalsha_eval (readonly asking : Bool) (args : List Bytes) :
    isEvalsha (pipeline readonly asking (bytes "EVAL" :: args)) = false := by
  rw [isEvalsha_pipeline]
  exact decide_eq_false (by simp; decide)

section

variable {s t : ServerId} {c : ContextId} {readonly readonly' asking err err' : Bool} {reply reply' : Option Reply}

theorem Progress.answered (hfalls : FallsBack script events) (hhits : ¬ Misses events)
    (hn : reply.any Reply.isNoscript = false) :
    Progress sha1 script rest ((bytes "EVALSHA" :: sha1 script :: rest).map some)
      (.exchange s c (pipeline readonly asking (bytes "EVALSHA" :: sha1 script :: rest)) reply err :: events) reply := by
  refine Or.inl ⟨⟨?_, ?_, Or.inr ⟨rfl, _, List.mem_cons_self, ?_⟩⟩, hn⟩
  · apply hfalls.cons
    simp only [isUnknown, hn, Bool.and_false]
  · rintro (⟨hu, -⟩ | hm)
    · simp only [isUnknown, hn, Bool.and_false, Bool.false_eq_true] at hu
    · exact hhits hm
  · simp only [isAnswered, isEvalsha_evalsha, hn, Bool.not_false, Bool.and_self]

theorem Progress.missed (hn : reply.any Reply.isNoscript = true)
    (h : err = true ∨ ∃ f ∈ events, isAnswered f = true) :
    Progress sha1 script rest argv
      (.exchange s c (pipeline readonly asking (bytes "EVALSHA" :: sha1 script :: rest)) reply err :: events) reply := by
  refine Or.inr ⟨Or.inl ⟨?_, h⟩, hn⟩
  simp only [isUnknown, isEvalsha_evalsha, hn, Bool.and_self]

theorem Progress.fallback (hfalls : FallsBack script events) (hhits : ¬ Misses events)
    (hnone : ∀ e ∈ events, isAnswered e = false) (hn : reply.any Reply.isNoscript = true)
    (hn' : reply'.any Reply.isNoscript = false) :
    Progress sha1 script rest ((bytes "EVAL" :: script :: rest).map some)
      (.exchange t c (pipeline readonly' asking (bytes "EVAL" :: script :: rest)) reply' err' ::
        .exchange s c (pipeline readonly asking (bytes "EVALSHA" :: sha1 script :: rest)) reply false :: events)
      reply' := by
  have heval := isEvalsha_eval readonly' asking (script :: rest)
  refine Or.inl ⟨⟨?_, ?_, Or.inl ⟨bytes "EVAL", by decide, rfl, ?_⟩⟩, hn'⟩
  · apply hfalls.fallback (argsOf_pipeline _ _ _) (argsOf_pipeline _ _ _)
    simp only [isUnknown, heval, Bool.false_and]
  · rintro (⟨hu, -⟩ | ⟨-, hf | ⟨f, hf, ha⟩⟩ | hm)
    · simp only [isUnknown, heval, Bool.false_and, Bool.false_eq_true] at hu
    · cases hf
    · rw [hnone f hf] at ha
      cases ha
    · exact hhits hm
  · intro e he
    rcases List.mem_cons.mp he with rfl | he
    · simp only [isAnswered, heval, Bool.false_and]
    · rcases List.mem_cons.mp he with rfl | he
      · simp only [isAnswered, hn, Bool.not_true, Bool.and_false]
      · exact hnone e he

end

theorem evaluate_progress {input : AttemptInput} (hcopies : input.copies = ⟨true, true, true⟩)
    (hsecond : OnlyEvalsha input.second) (asking : Bool) (c : ContextId) {w : World}
    (hfalls : FallsBack script w.trace) (hhits : ¬ Misses w.trace)
    (hnone : ∀ e ∈ w.trace, isAnswered e = false) :
    ∃ reply, (evaluate sha1 input asking c script (rest.map some) w).2.2 = .ok (.done reply) ∧
      Progress sha1 script rest (evaluate sha1 input asking c script (rest.map some) w).2.1
        (evaluate sha1 input asking c script (rest.map some) w).1.trace reply := by
  obtain ⟨readonly, reply, err, hout, htrace, herr, -⟩ :=
    send_spec input.first asking c (bytes "EVALSHA" :: sha1 script :: rest) w
  obtain ⟨⟨w', r⟩, hr⟩ : ∃ r, r = send input.first asking c ((bytes "EVALSHA" :: sha1 script :: rest).map some) w :=
    ⟨_, rfl⟩
  rw [← hr] at hout htrace herr
  obtain rfl : r = .ok reply := hout
  dsimp only at htrace herr
  simp only [List.map_cons] at hr
  simp only [evaluate, hcopies, Bool.not_true, Bool.false_eq_true, if_false, ← hr]
  by_cases hn : reply.any Reply.isNoscript = true
  · cases err with
    | false =>
      have hns : isNoscriptReply w' c reply = true := by
        simp only [isNoscriptReply, herr, hn, Bool.not_false, Bool.and_self]
      rw [if_pos hns]
      obtain ⟨readonly', reply', err', hout', htrace', -, hanswer⟩ :=
        send_spec input.second asking c (bytes "EVAL" :: script :: rest) (countNoscript w')
      obtain ⟨⟨w'', r⟩, hr'⟩ : ∃ r, r = send input.second asking c ((bytes "EVAL" :: script :: rest).map some)
        (countNoscript w') := ⟨_, rfl⟩
      rw [← hr'] at hout' htrace'
      obtain rfl : r = .ok reply' := hout'
      simp only [List.map_cons] at hr'
      simp only [← hr', Result.ofSend]
      refine ⟨reply', rfl, ?_⟩
      rw [htrace'.trans (congrArg (_ :: ·) htrace)]
      exact .fallback hfalls hhits hnone hn (not_isNoscript hsecond hanswer)
    | true =>
      have hns : ¬ isNoscriptReply w' c reply = true := by
        simp [isNoscriptReply, herr]
      rw [if_neg hns]
      refine ⟨reply, rfl, ?_⟩
      rw [htrace]
      exact .missed hn (Or.inl rfl)
  · have hns : ¬ isNoscriptReply w' c reply = true := by
      simp [isNoscriptReply, hn]
    rw [if_neg hns]
    refine ⟨reply, rfl, ?_⟩
    rw [htrace]
    exact .answered hfalls hhits (Bool.eq_false_iff.mpr hn)

theorem executeOn_progress {input : AttemptInput} (hcopies : input.copies = ⟨true, true, true⟩)
    (hsecond : OnlyEvalsha input.second) (asking : Bool) (c : ContextId) {w : World}
    (h : Kept sha1 script rest argv w.trace) :
    ∃ reply, (executeOn sha1 input asking c argv w).2.2 = .ok (.done reply) ∧
      Progress sha1 script rest (executeOn sha1 input asking c argv w).2.1
        (executeOn sha1 input asking c argv w).1.trace reply := by
  obtain ⟨hfalls, hhits, ⟨command, hc, rfl, hnone⟩ | ⟨rfl, hanswered⟩⟩ := h
  · have he : executeOn sha1 input asking c ((command :: script :: rest).map some) w =
        evaluate sha1 input asking c script (rest.map some) w := by
      simp only [executeOn, List.map_cons]
      rw [if_pos hc]
    rw [he]
    exact evaluate_progress hcopies hsecond asking c hfalls hhits hnone
  · obtain ⟨readonly, reply, err, hout, htrace, -, -⟩ :=
      send_spec input.first asking c (bytes "EVALSHA" :: sha1 script :: rest) w
    obtain ⟨⟨w', r⟩, hr⟩ : ∃ r, r = send input.first asking c ((bytes "EVALSHA" :: sha1 script :: rest).map some) w :=
      ⟨_, rfl⟩
    rw [← hr] at hout htrace
    obtain rfl : r = .ok reply := hout
    dsimp only at htrace
    have he : executeOn sha1 input asking c ((bytes "EVALSHA" :: sha1 script :: rest).map some) w =
        (w', (bytes "EVALSHA" :: sha1 script :: rest).map some, .ok (.done reply)) := by
      simp only [List.map_cons] at hr
      simp only [executeOn, List.map_cons]
      rw [if_neg (by decide), ← hr]
      rfl
    rw [he]
    refine ⟨reply, rfl, ?_⟩
    dsimp only
    rw [htrace]
    by_cases hn : reply.any Reply.isNoscript = true
    · exact .missed hn (Or.inr hanswered)
    · exact .answered hfalls hhits (Bool.eq_false_iff.mpr hn)

theorem attempt_progress {input : AttemptInput} (hcopies : input.copies = ⟨true, true, true⟩)
    (hsecond : OnlyEvalsha input.second) (asking : Bool) (plan : Plan) {w : World}
    (h : Kept sha1 script rest argv w.trace) :
    Progress sha1 script rest (attempt sha1 input asking plan argv w).argv
      (attempt sha1 input asking plan argv w).world.trace (resultReply (attempt sha1 input asking plan argv w).outcome) := by
  have hlocked : Kept sha1 script rest argv (lockRedisContext input plan w).1.trace := by
    refine h.logs (lockRedisContext_locking input plan w).logs fun e he => ?_
    cases e <;> first | exact ⟨rfl, rfl⟩ | cases he
  obtain ⟨⟨w', r⟩, hr⟩ : ∃ r, r = lockRedisContext input plan w := ⟨_, rfl⟩
  unfold attempt
  rw [← hr] at hlocked ⊢
  rcases r with f | ⟨_ | c, plan'⟩
  · exact Or.inl ⟨hlocked, rfl⟩
  · exact Or.inl ⟨hlocked, rfl⟩
  · obtain ⟨reply, hout, hp⟩ := executeOn_progress hcopies hsecond asking c hlocked
    obtain ⟨⟨w'', argv', d⟩, hx⟩ : ∃ r, r = executeOn sha1 input asking c argv w' := ⟨_, rfl⟩
    dsimp only at hout hp ⊢
    rw [← hx] at hout hp ⊢
    obtain rfl : d = .ok (.done reply) := hout
    dsimp only
    rw [unlockRedisContext_trace]
    exact hp

theorem attempts_progress {input : ℕ → AttemptInput} (hcopies : ∀ i, (input i).copies = ⟨true, true, true⟩)
    (hsecond : ∀ i, OnlyEvalsha (input i).second) (call : Call) (n i : ℕ) (plan : Plan) {w : World}
    (h : Kept sha1 script rest argv w.trace) :
    Progress sha1 script rest (attempts sha1 input call n i plan argv w).argv
      (attempts sha1 input call n i plan argv w).world.trace
      (replied (attempts sha1 input call n i plan argv w).outcome) := by
  induction n using Nat.strong_induction_on generalizing i plan argv w with
  | _ n ih =>
    have hstart : Kept sha1 script rest argv (w.log .attempt).trace := h.log rfl
    have hp := attempt_progress (hcopies i) (hsecond i) call.asking plan hstart
    obtain ⟨a, ha⟩ : ∃ a, attempt sha1 (input i) call.asking plan argv (w.log .attempt) = a := ⟨_, rfl⟩
    rw [ha] at hp
    rcases attempts_cases sha1 input call n i plan argv w ha with
      ⟨f, ho, hr⟩ | ⟨ho, hr⟩ | ⟨reply, ho, -, hr⟩ | ⟨m, rfl, ho, hr⟩ <;> rw [hr] <;> rw [ho] at hp
    · exact hp
    · exact hp
    · exact hp
    · rcases hp with ⟨hk, -⟩ | ⟨-, hn⟩
      · exact ih m (Nat.lt_succ_self m) (i + 1) a.plan hk
      · cases hn

def ProgressOf (sha1 : Bytes → Bytes) (script : Bytes) (rest : List Bytes) (r : Executed) : Prop :=
  Progress sha1 script rest r.argv r.world.trace (replied r.outcome)

theorem ProgressOf.leave {r : Executed} (h : ProgressOf sha1 script rest r) : ProgressOf sha1 script rest r.leave := by
  rcases leave_cases r with ⟨f, -, hl⟩ | ⟨reply, -, hl⟩ <;> rw [hl]
  · exact h
  · rcases h with ⟨hk, hn⟩ | ⟨hm, hn⟩
    · exact Or.inl ⟨hk.log rfl, hn⟩
    · exact Or.inr ⟨Or.inr hm, hn⟩

theorem redisExecute_progress {input : CallInput} (hcopies : ∀ i, (input.attempt i).copies = ⟨true, true, true⟩)
    (hsecond : ∀ i, OnlyEvalsha (input.attempt i).second) (call : Call) (retries : ℕ) {w : World}
    (h : Kept sha1 script rest argv w.trace) :
    ProgressOf sha1 script rest (redisExecute sha1 input call argv retries w) := by
  have henter : Kept sha1 script rest argv (w.log (.enter retries)).trace := h.log rfl
  by_cases hr : retries ≤ call.maxRetries
  · obtain ⟨p, hp⟩ : ∃ p, planExecution input.plan w.heap (maxSize call.maxRetries retries) call.server call.master
      call.slot w.task w.db = p := ⟨_, rfl⟩
    rcases redisExecute_cases sha1 input call argv w hr hp with
      ⟨f, -, he⟩ | ⟨plan, task, db, -, -, he⟩ | ⟨plan, task, db, -, -, he⟩ <;> rw [he]
    · exact Or.inl ⟨henter, rfl⟩
    · have hplanned : Kept sha1 script rest argv (w.planned retries task db).trace := henter
      exact Or.inl ⟨hplanned.log rfl, rfl⟩
    · have hplanned : Kept sha1 script rest argv (w.planned retries task db).trace := henter
      exact ProgressOf.leave (attempts_progress hcopies hsecond call _ 0 plan hplanned)
  · rw [redisExecute_exceeded sha1 input call argv w (Nat.not_le.mp hr)]
    exact Or.inl ⟨henter, rfl⟩

theorem redirect_neutral (fuel : ℕ) (input : RedirectInput) (i : ℕ) (str : Bytes) (w : World) :
    Logs (fun e => e.isInner = false) w (redirect fuel input i str w).1 := by
  rcases redirect_cases fuel input i str w with
    ⟨-, h⟩ | ⟨location, db, -, -, h⟩ | ⟨location, s, db, -, -, ⟨-, h⟩ | ⟨-, ⟨-, h⟩ | ⟨found, walk, -, h⟩⟩⟩ <;> rw [h]
  · exact .refl w
  · exact .of_eq rfl
  · exact ⟨[.redirection true location s], rfl, by simp [Event.isInner]⟩
  · exact ⟨[.discovering i s, .redirection false location s], rfl, by simp [Event.isInner]⟩
  · exact ⟨[.discovering i s, .redirection false location s], rfl, by simp [Event.isInner]⟩

theorem follow_progress {input : ClusterInput}
    (hcopies : ∀ i j, ((input.call i).attempt j).copies = ⟨true, true, true⟩)
    (hsecond : ∀ i j, OnlyEvalsha ((input.call i).attempt j).second) (fuel maxRetries : ℕ) (master : Bool)
    (slot hops i : ℕ) (server : Option ServerId) (asking : Bool) (retries : ℕ) {w : World}
    (h : Kept sha1 script rest argv w.trace) :
    ProgressOf sha1 script rest
      (follow sha1 fuel input maxRetries master slot hops i server asking argv retries w) := by
  induction hops using Nat.strong_induction_on generalizing i server asking argv retries w with
  | _ hops ih =>
    have hp := redisExecute_progress (hcopies i) (hsecond i) ⟨maxRetries, server, asking, master, slot⟩ retries h
    obtain ⟨r, hrun⟩ : ∃ r, redisExecute sha1 (input.call i) ⟨maxRetries, server, asking, master, slot⟩ argv retries
      w = r := ⟨_, rfl⟩
    rw [hrun] at hp
    rcases follow_cases sha1 fuel input maxRetries master slot hops i server asking argv retries w hrun with
      ⟨-, he⟩ | ⟨str, ⟨ho, hi⟩, hcases⟩
    · rw [he]
      exact hp
    · unfold ProgressOf at hp
      rw [ho] at hp
      have hk : Kept sha1 script rest r.argv r.world.trace := by
        rcases hp with ⟨hk, -⟩ | ⟨-, hn⟩
        · exact hk
        · exact absurd (Reply.isNoscript_not_redirection hn) (by rw [hi]; exact Bool.noConfusion)
      have hk' := hk.logs (redirect_neutral fuel (input.redirect i) i str r.world) fun _ => neutral_of_not_isInner
      rcases hcases with ⟨w', f, hw, he⟩ | ⟨w', s, hw, -, he⟩ | ⟨w', s, m, hw, rfl, -, he⟩ <;> rw [hw] at hk' <;>
        rw [he]
      · exact Or.inl ⟨hk', rfl⟩
      · exact Or.inl ⟨hk', rfl⟩
      · have hfollowed : Kept sha1 script rest r.argv (w'.log .followed).trace := hk'.log rfl
        exact ih m (Nat.lt_succ_self m) (i + 1) _ _ _ hfollowed

theorem Kept.start {command : Bytes} (hc : strcasecmp command (bytes "EVAL") = true) :
    Kept sha1 script rest ((command :: script :: rest).map some) [] where
  falls := fun later s c commands reply err earlier heq => absurd heq (by simp)
  hits := id
  argv := Or.inl ⟨command, hc, rfl, nofun⟩

theorem Kept.push (h : Kept sha1 script rest argv events) (arg : Bytes) :
    Kept sha1 script (rest ++ [arg]) (argv ++ [some arg]) events := by
  obtain ⟨hfalls, hhits, ⟨command, hc, rfl, hnone⟩ | ⟨rfl, hanswered⟩⟩ := h
  · exact ⟨hfalls, hhits, Or.inl ⟨command, hc, by simp, hnone⟩⟩
  · exact ⟨hfalls, hhits, Or.inr ⟨by simp, hanswered⟩⟩

theorem clusterExecute_progress {input : ClusterInput}
    (hcopies : ∀ i j, ((input.call i).attempt j).copies = ⟨true, true, true⟩)
    (hsecond : ∀ i j, OnlyEvalsha ((input.call i).attempt j).second) (fuel maxRetries : ℕ) (master : Bool)
    (retries : ℕ) {w : World} (h : Kept sha1 script rest argv w.trace) :
    ProgressOf sha1 script rest (clusterExecute sha1 fuel input maxRetries master argv retries w) := by
  rcases clusterExecute_cases sha1 input maxRetries master argv retries w with ⟨outcome, ho, he⟩ | ⟨key, he⟩ <;> rw [he]
  · refine Or.inl ⟨h, ?_⟩
    rcases ho with rfl | rfl <;> rfl
  · exact follow_progress hcopies hsecond fuel maxRetries master _ _ 0 none false retries h

section

variable (sha1) (argv)

theorem attempts_logs (input : ℕ → AttemptInput) (call : Call) (n i : ℕ) (plan : Plan) (w : World) :
    Logs (fun _ => True) w (attempts sha1 input call n i plan argv w).world := by
  induction n using Nat.strong_induction_on generalizing i plan argv w with
  | _ n ih =>
    obtain ⟨a, ha⟩ : ∃ a, attempt sha1 (input i) call.asking plan argv (w.log .attempt) = a := ⟨_, rfl⟩
    have hattempt : Logs (fun _ => True) (w.log .attempt)
        (attempt sha1 (input i) call.asking plan argv (w.log .attempt)).world :=
      (attempt_inner sha1 (input i) call.asking plan argv (w.log .attempt)).logs.mono fun _ _ => trivial
    have hdone := ((Logs.refl w).log trivial).trans hattempt
    rw [ha] at hdone
    rcases attempts_cases sha1 input call n i plan argv w ha with
      ⟨f, -, hr⟩ | ⟨-, hr⟩ | ⟨reply, -, -, hr⟩ | ⟨m, rfl, -, hr⟩ <;> rw [hr]
    · exact hdone
    · exact hdone
    · exact hdone.congr (countCommand_trace _ _ _)
    · exact (hdone.congr (countCommand_trace _ _ _)).trans (ih m (Nat.lt_succ_self m) _ (i + 1) a.plan _)

theorem redisExecute_logs (input : CallInput) (call : Call) (retries : ℕ) (w : World) :
    Logs (fun _ => True) w (redisExecute sha1 input call argv retries w).world := by
  have henter : Logs (fun _ => True) w (w.log (.enter retries)) := (Logs.refl w).log trivial
  by_cases hr : retries ≤ call.maxRetries
  · obtain ⟨p, hp⟩ : ∃ p, planExecution input.plan w.heap (maxSize call.maxRetries retries) call.server call.master
      call.slot w.task w.db = p := ⟨_, rfl⟩
    rcases redisExecute_cases sha1 input call argv w hr hp with
      ⟨f, -, he⟩ | ⟨plan, task, db, -, -, he⟩ | ⟨plan, task, db, -, -, he⟩ <;> rw [he]
    · exact henter
    · have hplanned : Logs (fun _ => True) w (w.planned retries task db) := henter
      exact hplanned.log trivial
    · have hplanned : Logs (fun _ => True) w (w.planned retries task db) := henter
      have hdone := hplanned.trans (attempts_logs sha1 argv input.attempt call (call.maxRetries - retries) 0 plan _)
      rcases leave_cases (attempts sha1 input.attempt call (call.maxRetries - retries) 0 plan argv
        (w.planned retries task db)) with ⟨f, -, hl⟩ | ⟨reply, -, hl⟩ <;> rw [hl]
      · exact hdone
      · exact hdone.log trivial
  · rw [redisExecute_exceeded sha1 input call argv w (Nat.not_le.mp hr)]
    exact henter

theorem follow_logs (fuel : ℕ) (input : ClusterInput) (maxRetries : ℕ) (master : Bool) (slot hops i : ℕ)
    (server : Option ServerId) (asking : Bool) (retries : ℕ) (w : World) : Logs (fun _ => True) w
      (follow sha1 fuel input maxRetries master slot hops i server asking argv retries w).world := by
  induction hops using Nat.strong_induction_on generalizing i server asking argv retries w with
  | _ hops ih =>
    obtain ⟨r, hrun⟩ : ∃ r, redisExecute sha1 (input.call i) ⟨maxRetries, server, asking, master, slot⟩ argv retries
      w = r := ⟨_, rfl⟩
    have hlogs := redisExecute_logs sha1 argv (input.call i) ⟨maxRetries, server, asking, master, slot⟩ retries w
    rw [hrun] at hlogs
    rcases follow_cases sha1 fuel input maxRetries master slot hops i server asking argv retries w hrun with
      ⟨-, he⟩ | ⟨str, -, hcases⟩
    · rw [he]
      exact hlogs
    · have hredirect := hlogs.trans
        ((redirect_neutral fuel (input.redirect i) i str r.world).mono fun _ _ => trivial)
      rcases hcases with ⟨w', f, hw, he⟩ | ⟨w', s, hw, -, he⟩ | ⟨w', s, m, hw, rfl, -, he⟩ <;>
        rw [hw] at hredirect <;> rw [he]
      · exact hredirect
      · exact hredirect
      · exact (hredirect.log trivial).trans (ih m (Nat.lt_succ_self m) _ (i + 1) _ _ _ _)

theorem clusterExecute_logs (fuel : ℕ) (input : ClusterInput) (maxRetries : ℕ) (master : Bool) (retries : ℕ)
    (w : World) :
    Logs (fun _ => True) w (clusterExecute sha1 fuel input maxRetries master argv retries w).world := by
  rcases clusterExecute_cases sha1 input maxRetries master argv retries w with ⟨outcome, -, he⟩ | ⟨key, he⟩ <;> rw [he]
  · exact .refl w
  · exact follow_logs sha1 argv fuel input maxRetries master _ _ 0 none false retries w

end

theorem Misses.logs {P : Event → Prop} {w w' : World} (h : Misses w.trace) (hl : Logs P w w') : Misses w'.trace := by
  obtain ⟨events, ht, -⟩ := hl
  rw [ht]
  clear ht
  induction events with
  | nil => exact h
  | cons e events ih => exact Or.inr ih

/-- An enqueued command: its arguments as they are now, what its executions did, the newest event first, and
what they handed back. -/
structure Enqueued where
  argv : Argv
  events : List Event
  replies : List (Option Reply)

def Enqueued.after (x : Enqueued) (r : Executed) : Enqueued := ⟨r.argv, r.world.trace, replied r.outcome :: x.replies⟩

/-- A further argument, or an execution. Between executions, anything may happen to the database and to the
task. -/
inductive Enqueued.Step (sha1 : Bytes → Bytes) : Enqueued → Enqueued → Prop
  | push (x : Enqueued) (arg : Bytes) : Step sha1 x { x with argv := x.argv ++ [some arg] }
  | redisExecute (x : Enqueued) (input : CallInput) (call : Call) (retries : ℕ) (w : World)
      (htrace : w.trace = x.events) (hcopies : ∀ j, (input.attempt j).copies = ⟨true, true, true⟩)
      (hsecond : ∀ j, OnlyEvalsha (input.attempt j).second) :
      Step sha1 x (x.after (Execution.redisExecute sha1 input call x.argv retries w))
  | clusterExecute (x : Enqueued) (fuel : ℕ) (input : ClusterInput) (maxRetries : ℕ) (master : Bool) (retries : ℕ)
      (w : World) (htrace : w.trace = x.events)
      (hcopies : ∀ i j, ((input.call i).attempt j).copies = ⟨true, true, true⟩)
      (hsecond : ∀ i j, OnlyEvalsha ((input.call i).attempt j).second) :
      Step sha1 x (x.after (ClusterExecution.clusterExecute sha1 fuel input maxRetries master x.argv retries w))

def enqueued (sha1 : Bytes → Bytes) (args : List Bytes) : System Enqueued where
  init x := x = ⟨args.map some, [], []⟩
  step := Enqueued.Step sha1

def HandsBackNoscript (x : Enqueued) : Prop := ∃ reply ∈ x.replies, reply.any Reply.isNoscript = true

instance (x : Enqueued) : Decidable (HandsBackNoscript x) :=
  inferInstanceAs (Decidable (∃ reply ∈ x.replies, reply.any Reply.isNoscript = true))

def Hidden (sha1 : Bytes → Bytes) (script : Bytes) (x : Enqueued) : Prop :=
  ((∃ rest, Kept sha1 script rest x.argv x.events) ∧ ¬ HandsBackNoscript x) ∨ (Misses x.events ∧ HandsBackNoscript x)

theorem Hidden.after {x : Enqueued} {w : World} (h : Hidden sha1 script x) (ht : w.trace = x.events) {r : Executed}
    (hl : Logs (fun _ => True) w r.world)
    (hp : ∀ rest, Kept sha1 script rest x.argv w.trace → ProgressOf sha1 script rest r) :
    Hidden sha1 script (x.after r) := by
  have hreplies : HandsBackNoscript (x.after r) ↔
      (replied r.outcome).any Reply.isNoscript = true ∨ HandsBackNoscript x := by
    simp [HandsBackNoscript, Enqueued.after]
  unfold Hidden
  rw [hreplies]
  rcases h with ⟨⟨rest, hk⟩, hn⟩ | ⟨hm, hn⟩
  · rcases hp rest (ht ▸ hk) with ⟨hk', hn'⟩ | ⟨hm, hn'⟩
    · refine Or.inl ⟨⟨rest, hk'⟩, ?_⟩
      simp [hn', hn]
    · exact Or.inr ⟨hm, Or.inl hn'⟩
  · rw [← ht] at hm
    exact Or.inr ⟨hm.logs hl, Or.inr hn⟩

theorem Hidden.step {x y : Enqueued} (h : Hidden sha1 script x) (hs : Enqueued.Step sha1 x y) :
    Hidden sha1 script y := by
  cases hs with
  | push arg => exact h.imp_left fun ⟨⟨rest, hk⟩, hn⟩ => ⟨⟨rest ++ [arg], hk.push arg⟩, hn⟩
  | redisExecute input call retries w ht hcopies hsecond =>
    exact h.after ht (redisExecute_logs sha1 x.argv input call retries w) fun rest hk =>
      redisExecute_progress hcopies hsecond call retries hk
  | clusterExecute fuel input maxRetries master retries w ht hcopies hsecond =>
    exact h.after ht (clusterExecute_logs sha1 x.argv fuel input maxRetries master retries w) fun rest hk =>
      clusterExecute_progress hcopies hsecond fuel maxRetries master retries hk

/-- However often a command that was enqueued as `EVAL` is executed, the fallback from `EVALSHA` works in exactly
the runs in which no `EVALSHA` misses. -/
theorem evalsha_fallback {sha1 : Bytes → Bytes} {command script : Bytes} {rest : List Bytes}
    (hc : strcasecmp command (bytes "EVAL") = true) {x : Enqueued}
    (h : (enqueued sha1 (command :: script :: rest)).Reachable x) :
    (¬ HandsBackNoscript x ∧ FallsBack script x.events) ↔ ¬ Misses x.events := by
  have hhidden : Hidden sha1 script x := by
    refine System.invariant (P := Hidden sha1 script) ?_ (fun _ _ _ hx hs => hx.step hs) h
    rintro x rfl
    exact Or.inl ⟨⟨rest, .start hc⟩, by simp [HandsBackNoscript]⟩
  rcases hhidden with ⟨⟨rest', hk⟩, hn⟩ | ⟨hm, hn⟩
  · exact ⟨fun _ => hk.hits, fun _ => ⟨hn, hk.falls⟩⟩
  · exact ⟨fun h => absurd hn h.1, fun h => absurd hm h⟩

def uncached (down : Bool) : AttemptInput :=
  let answer : Command → Option Reply
    | .argv args =>
      if down then none
      else if args.head? = some (bytes "EVALSHA") then some (.error (bytes "NOSCRIPT No matching script."))
      else some (.string (bytes "v"))
    | _ => some (.status (bytes "OK"))
  ⟨⟨0, fun _ => 0, fun _ => false⟩, true, [], ⟨true, true, true⟩, answer, answer⟩

theorem uncached_onlyEvalsha (down : Bool) : OnlyEvalsha (uncached down).second := by
  intro args reply ha hn
  cases down with
  | true => cases ha
  | false =>
    by_cases hh : args.head? = some (bytes "EVALSHA")
    · exact ⟨_, hh, by decide⟩
    · simp only [uncached, Bool.false_eq_true, if_false, if_neg hh, Option.some.injEq] at ha
      rw [← ha] at hn
      cases hn

def forgetting : ClusterInput where
  call _ := ⟨⟨true, ⟨0, fun _ => 0, fun _ => false⟩, 1024, 1024⟩, fun j => uncached (j = 0)⟩
  redirect := (redirecting []).redirect

theorem evalsha_fallback_forgets :
    ¬ ∀ (input : ClusterInput) (call : Call) (command script : Bytes) (rest : List Bytes) (w : World),
      (∀ i j, ((input.call i).attempt j).copies = ⟨true, true, true⟩) →
      (∀ i j, OnlyEvalsha ((input.call i).attempt j).first ∧ OnlyEvalsha ((input.call i).attempt j).second) →
      strcasecmp command (bytes "EVAL") = true → w.trace = [] → ¬ (replied (redisExecute id (input.call 0) call
        ((command :: script :: rest).map some) 0 w).outcome).any Reply.isNoscript = true := by
  intro h
  refine h forgetting ⟨1, none, false, true, 0⟩ (bytes "EVAL") (bytes "return 1") [bytes "0"] (idleWorld masters)
    (fun _ _ => rfl) (fun _ j => ⟨uncached_onlyEvalsha (j = 0), uncached_onlyEvalsha (j = 0)⟩) (by decide) rfl ?_
  decide +kernel

def remembering : CallInput := ⟨⟨true, ⟨0, fun _ => 0, fun _ => false⟩, 1024, 1024⟩, fun _ => uncached false⟩

def started : Enqueued := ⟨[bytes "eval", bytes "return 1", bytes "0"].map some, [], []⟩

def Enqueued.execute (x : Enqueued) : Enqueued :=
  x.after (redisExecute id remembering ⟨1, none, false, true, 0⟩ x.argv 0 { idleWorld masters with trace := x.events })

def twice : Enqueued := { started.execute with argv := started.execute.argv ++ [some (bytes "arg")] }.execute

theorem twice_reachable : (enqueued id [bytes "eval", bytes "return 1", bytes "0"]).Reachable twice := by
  have hexecute : ∀ x, Enqueued.Step id x x.execute := fun x =>
    .redisExecute x remembering _ 0 _ rfl (fun _ => rfl) fun _ => uncached_onlyEvalsha false
  have hstart : (enqueued id [bytes "eval", bytes "return 1", bytes "0"]).Reachable started :=
    System.reachable_init rfl
  exact ((hstart.step (hexecute started)).step (.push started.execute (bytes "arg"))).step (hexecute _)

theorem evalsha_fallback_remembers :
    FallsBack (bytes "return 1") twice.events ∧ twice.events.countP isUnknown = 2 ∧
      twice.replies.map (·.any Reply.isNoscript) = [false, false] := by
  refine ⟨((evalsha_fallback (by decide) twice_reachable).mpr ?_).2, by decide +kernel, by decide +kernel⟩
  decide +kernel

end VmodRedis.ScriptFallback
