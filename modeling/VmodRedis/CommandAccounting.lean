import VmodRedis.CommandStats
import VmodRedis.RedirectionTexts
import VmodRedis.RetryBounds

namespace VmodRedis.CommandAccounting

open CStrings Replies Database Planning DiscoveryWalk Execution ClusterExecution CommandStats Slots

section

variable (sha1 : Bytes → Bytes)

def attemptReplies (input : ℕ → AttemptInput) (call : Call) :
    ℕ → ℕ → Plan → Argv → World → Option (List (Option Reply))
  | n, i, plan, argv, w =>
    let a := attempt sha1 (input i) call.asking plan argv (w.log .attempt)
    match a.outcome with
    | .ok (.done reply) =>
      match reply, n with
      | none, n + 1 =>
        (attemptReplies input call n (i + 1) a.plan a.argv (countCommand (call.maxRetries - (n + 1)) none a.world)).map
          (none :: ·)
      | reply, _ => some [reply]
    | _ => none

def callReplies (input : CallInput) (call : Call) (argv : Argv) (retries : ℕ) (w : World) : Option (List (Option Reply)) :=
  if call.maxRetries < retries then none
  else
    match planExecution input.plan w.heap (maxSize call.maxRetries retries) call.server call.master call.slot w.task
      w.db with
    | .ok (some plan, task, db) =>
      if plan.contexts.isEmpty && plan.servers.isEmpty then none
      else attemptReplies sha1 input.attempt call (call.maxRetries - retries) 0 plan argv (w.planned retries task db)
    | _ => none

/-- A call of `redis_execute`: the value of `*retries` that it finds, and what its attempts get. -/
structure CallRecord where
  entered : ℕ
  replies : List (Option Reply)

def passRecords (fuel : ℕ) (input : ClusterInput) (maxRetries : ℕ) (master : Bool) (slot : ℕ) :
    ℕ → Pass → Option (List CallRecord)
  | n, p =>
    match callReplies sha1 (input.call p.i) ⟨maxRetries, p.server, p.asking, master, slot⟩ p.argv p.retries p.world with
    | none => none
    | some replies =>
      match p.next sha1 fuel input maxRetries master slot, n with
      | .failed _ _, _ => none
      | .again q, n + 1 => (passRecords fuel input maxRetries master slot n q).map (⟨p.retries, replies⟩ :: ·)
      | _, _ => some [⟨p.retries, replies⟩]

inductive Executor where
  | redisExecute (input : CallInput) (call : Call)
  | clusterExecute (fuel : ℕ) (input : ClusterInput) (maxRetries : ℕ) (master : Bool)

namespace Executor

def run (argv : Argv) (retries : ℕ) (w : World) : Executor → Executed
  | .redisExecute input call => Execution.redisExecute sha1 input call argv retries w
  | .clusterExecute fuel input maxRetries master =>
    ClusterExecution.clusterExecute sha1 fuel input maxRetries master argv retries w

def records (argv : Argv) (retries : ℕ) (w : World) : Executor → Option (List CallRecord)
  | .redisExecute input call => (callReplies sha1 input call argv retries w).map fun replies => [⟨retries, replies⟩]
  | .clusterExecute fuel input maxRetries master =>
    match argv.head? with
    | some (some command) =>
      let index := getKeyIndex command
      if 0 < index ∧ index < argv.length then
        match argv[index.toNat]? with
        | some (some key) =>
          let start := Pass.start argv retries w
          passRecords sha1 fuel input maxRetries master (getClusterSlot key) start.hops start
        | _ => none
      else some []
    | _ => none

end Executor

end

structure Accounted (w w' : World) (retries retries' calls fresh : ℕ) (replies : List (Option Reply)) : Prop where
  made : ∃ events, w'.trace = events ++ w.trace ∧ events.countP isAttempt = replies.length
  executed : (commands w'.db).total + (commands w'.db).failed =
    (commands w.db).total + (commands w.db).failed + replies.length
  failed : (commands w'.db).failed = (commands w.db).failed + replies.countP Option.isNone
  retried : (commands w'.db).retried + fresh = (commands w.db).retried + replies.length
  consumed : retries + replies.length = retries' + calls

namespace Accounted

variable {w w' w'' : World} {retries retries' retries'' calls calls' fresh fresh' : ℕ} {replies replies' : List (Option Reply)}

theorem append (h : Accounted w w' retries retries' calls fresh replies)
    (h' : Accounted w' w'' retries' retries'' calls' fresh' replies') :
    Accounted w w'' retries retries'' (calls + calls') (fresh + fresh') (replies ++ replies') where
  made := by
    obtain ⟨events, ht, hn⟩ := h.made
    obtain ⟨events', ht', hn'⟩ := h'.made
    refine ⟨events' ++ events, by rw [ht', ht, List.append_assoc], ?_⟩
    rw [List.countP_append, List.length_append, hn, hn', Nat.add_comm]
  executed := by
    have := h.executed
    have := h'.executed
    rw [List.length_append]
    omega
  failed := by
    rw [h'.failed, h.failed, List.countP_append, Nat.add_assoc]
  retried := by
    have := h.retried
    have := h'.retried
    rw [List.length_append]
    omega
  consumed := by
    have := h.consumed
    have := h'.consumed
    rw [List.length_append]
    omega

theorem silent (h : ∃ events, w'.trace = events ++ w.trace ∧ events.countP isAttempt = 0)
    (hc : commands w'.db = commands w.db) (retries : ℕ) : Accounted w w' retries retries 0 0 [] where
  made := h
  executed := by rw [hc]; rfl
  failed := by rw [hc]; rfl
  retried := by rw [hc]; rfl
  consumed := rfl

end Accounted

theorem countP_isAttempt {events : List Event} (h : ∀ e ∈ events, isUncounted e = true) : events.countP isAttempt = 0 := by
  rw [List.countP_eq_zero]
  intro e he
  have hu := h e he
  cases e with
  | attempt => cases hu
  | _ => exact Bool.false_ne_true

theorem countCommand_commands (retries : ℕ) (reply : Option Reply) (w : World) :
    commands (countCommand retries reply w).db =
      ⟨(commands w.db).total + (if reply.isNone then 0 else 1), (commands w.db).failed + (if reply.isNone then 1 else 0),
        (commands w.db).retried + (if retries = 0 then 0 else 1)⟩ := by
  unfold countCommand commands
  cases retries <;> cases reply <;> rfl

section

variable {sha1 : Bytes → Bytes}

theorem attempt_accounted (input : AttemptInput) (asking : Bool) (plan : Plan) (argv : Argv) (w : World)
    {retries retries' calls : ℕ} (hr : retries + 1 = retries' + calls) (reply : Option Reply) :
    Accounted w (countCommand retries reply (attempt sha1 input asking plan argv (w.log .attempt)).world) retries retries'
      calls (if retries = 0 then 1 else 0) [reply] := by
  obtain ⟨inner, ht, hi⟩ := (attempt_inner sha1 input asking plan argv (w.log .attempt)).logs
  have hcommands : commands (attempt sha1 input asking plan argv (w.log .attempt)).world.db = commands w.db :=
    attempt_commands sha1 input asking plan argv (w.log .attempt)
  have hcounted := countCommand_commands retries reply (attempt sha1 input asking plan argv (w.log .attempt)).world
  rw [hcommands] at hcounted
  constructor
  case made =>
    refine ⟨inner ++ [.attempt], ?_, ?_⟩
    · rw [countCommand_trace, ht, List.append_assoc]
      rfl
    · rw [List.countP_append, countP_isAttempt fun e he => isUncounted_of_isInner (hi e he)]
      rfl
  case executed =>
    rw [hcounted]
    cases reply <;> simp [Nat.add_comm, Nat.add_left_comm]
  case failed =>
    rw [hcounted]
    cases reply <;> rfl
  case retried =>
    rw [hcounted]
    cases retries <;> rfl
  case consumed => exact hr

theorem attempts_accounted {input : ℕ → AttemptInput} {call : Call} {n i : ℕ} {plan : Plan} {argv : Argv} {w : World}
    (hn : n ≤ call.maxRetries) {replies : List (Option Reply)}
    (h : attemptReplies sha1 input call n i plan argv w = some replies) :
    Accounted w (attempts sha1 input call n i plan argv w).world (call.maxRetries - n)
      (attempts sha1 input call n i plan argv w).retries 1 (if call.maxRetries - n = 0 then 1 else 0) replies := by
  obtain ⟨a, ha⟩ : ∃ a, attempt sha1 (input i) call.asking plan argv (w.log .attempt) = a := ⟨_, rfl⟩
  have hattempt := @attempt_accounted sha1 (input i) call.asking plan argv w (call.maxRetries - n)
  unfold attemptReplies at h
  dsimp only at h
  rw [ha] at h hattempt
  rcases attempts_cases sha1 input call n i plan argv w ha with ⟨f, ho, -⟩ | ⟨ho, -⟩ | ⟨reply, ho, hlast, hr⟩ |
      ⟨m, rfl, ho, hr⟩
  · rw [ho] at h
    cases h
  · rw [ho] at h
    cases h
  · rw [hr]
    have hreplies : replies = [reply] := by
      rw [ho] at h
      cases reply with
      | some reply => exact (Option.some.inj h).symm
      | none =>
        obtain rfl := hlast rfl
        exact (Option.some.inj h).symm
    rw [hreplies]
    exact hattempt rfl reply
  · rw [hr]
    rw [ho] at h
    obtain ⟨rest, hrest, rfl⟩ := Option.map_eq_some_iff.mp h
    have hstep : call.maxRetries - (m + 1) + 1 = call.maxRetries - m + 0 := by omega
    have hne : call.maxRetries - m ≠ 0 := by omega
    have htail := attempts_accounted (Nat.le_of_succ_le hn) hrest
    rw [if_neg hne] at htail
    have hall := (hattempt hstep none).append htail
    rw [Nat.zero_add, Nat.add_zero] at hall
    exact hall

theorem redisExecute_accounted {input : CallInput} {call : Call} {argv : Argv} {retries : ℕ} {w : World}
    {replies : List (Option Reply)} (h : callReplies sha1 input call argv retries w = some replies) :
    Accounted w (redisExecute sha1 input call argv retries w).world retries
      (redisExecute sha1 input call argv retries w).retries 1 (if retries = 0 then 1 else 0) replies := by
  unfold callReplies at h
  split_ifs at h with hlt
  have hr : retries ≤ call.maxRetries := Nat.le_of_not_lt hlt
  rcases redisExecute_cases sha1 input call argv w hr rfl with ⟨f, hp, -⟩ | ⟨plan, task, db, hp, hempty, -⟩ |
      ⟨plan, task, db, hp, hne, hx⟩
  · rw [hp] at h
    cases h
  · rw [hp] at h
    cases plan with
    | none => cases h
    | some plan =>
      obtain ⟨hcontexts, hservers⟩ := hempty plan rfl
      dsimp only at h
      rw [hcontexts, hservers] at h
      cases h
  · rw [hp] at h
    dsimp only at h
    have hloop : ¬ (plan.contexts.isEmpty && plan.servers.isEmpty) = true := by
      simpa using hne
    rw [if_neg hloop] at h
    have hplan : Accounted w (w.planned retries task db) retries retries 0 0 [] :=
      .silent ⟨[.enter retries], rfl, rfl⟩ (planExecution_commands hp) retries
    obtain ⟨r, hrun⟩ : ∃ r, attempts sha1 input.attempt call (call.maxRetries - retries) 0 plan argv
      (w.planned retries task db) = r := ⟨_, rfl⟩
    have hattempts := attempts_accounted (Nat.sub_le _ _) h
    rw [Nat.sub_sub_self hr, hrun] at hattempts
    have hall := hplan.append hattempts
    rw [Nat.zero_add, Nat.zero_add, List.nil_append] at hall
    rw [hx, hrun]
    rcases leave_cases r with ⟨f, -, hl⟩ | ⟨reply, -, hl⟩
    · rw [hl]
      exact hall
    · have hleave : Accounted r.world (r.world.log (.leave r.retries)) r.retries r.retries 0 0 [] := by
        refine .silent ?_ ?_ _
        · exact ⟨[.leave r.retries], rfl, rfl⟩
        · rfl
      rw [hl, ← List.append_nil replies]
      exact hall.append hleave

theorem redirect_accounted (fuel : ℕ) (input : RedirectInput) (i : ℕ) (str : Bytes) (w : World) (retries : ℕ) :
    Accounted w (redirect fuel input i str w).1 retries retries 0 0 [] := by
  obtain ⟨events, ht, hu⟩ := redirect_uncounted fuel input i str w
  refine .silent ⟨events, ht, countP_isAttempt hu⟩ ?_ retries
  exact redirect_commands fuel input i str w

section

variable {fuel : ℕ} {input : ClusterInput} {maxRetries : ℕ} {master : Bool} {slot n : ℕ} {p : Pass}
  {records : List CallRecord} {replies : List (Option Reply)}

theorem passRecords_cases (hn : p.hops = n) (h : passRecords sha1 fuel input maxRetries master slot n p = some records) :
    ∃ replies, callReplies sha1 (input.call p.i) ⟨maxRetries, p.server, p.asking, master, slot⟩ p.argv p.retries p.world =
        some replies ∧
      ((p.next sha1 fuel input maxRetries master slot = .returned ∧ records = [⟨p.retries, replies⟩]) ∨
        (∃ w, p.next sha1 fuel input maxRetries master slot = .exhausted w ∧ records = [⟨p.retries, replies⟩]) ∨
        ∃ q m rest, p.next sha1 fuel input maxRetries master slot = .again q ∧ n = m + 1 ∧ q.hops = m ∧
          passRecords sha1 fuel input maxRetries master slot m q = some rest ∧
          records = ⟨p.retries, replies⟩ :: rest) := by
  have hcases := Pass.next_cases sha1 fuel input maxRetries master slot p
  unfold passRecords at h
  cases hc : callReplies sha1 (input.call p.i) ⟨maxRetries, p.server, p.asking, master, slot⟩ p.argv p.retries p.world with
  | none =>
    rw [hc] at h
    cases h
  | some replies =>
    rw [hc] at h
    dsimp only at h
    refine ⟨replies, rfl, ?_⟩
    cases hnext : p.next sha1 fuel input maxRetries master slot with
    | returned =>
      rw [hnext] at h
      exact Or.inl ⟨rfl, (Option.some.inj h).symm⟩
    | failed w f =>
      rw [hnext] at h
      cases h
    | exhausted w =>
      rw [hnext] at h
      exact Or.inr (Or.inl ⟨w, rfl, (Option.some.inj h).symm⟩)
    | again q =>
      have hhops : 0 < p.hops ∧ q.hops = p.hops - 1 := by
        rw [hnext] at hcases
        rcases hcases with ⟨-, hreturned⟩ | ⟨str, w, d, -, -, hd⟩
        · cases hreturned
        · cases d with
          | error f => cases hd
          | ok s =>
            dsimp only at hd
            split_ifs at hd with hmore
            cases hd
            exact ⟨hmore.1, rfl⟩
      rw [hnext] at h
      obtain ⟨m, rfl⟩ : ∃ m, n = m + 1 := ⟨n - 1, by omega⟩
      obtain ⟨rest, hrest, rfl⟩ := Option.map_eq_some_iff.mp h
      exact Or.inr (Or.inr ⟨q, m, rest, rfl, rfl, by omega, hrest, rfl⟩)

theorem next_accounted (p : Pass) :
    (∀ w, p.next sha1 fuel input maxRetries master slot = .exhausted w →
      Accounted (p.executed sha1 input maxRetries master slot).world w
        (p.executed sha1 input maxRetries master slot).retries (p.executed sha1 input maxRetries master slot).retries 0 0 []) ∧
      ∀ q, p.next sha1 fuel input maxRetries master slot = .again q →
        Accounted (p.executed sha1 input maxRetries master slot).world q.world
          (p.executed sha1 input maxRetries master slot).retries q.retries 0 0 [] := by
  have hcases := Pass.next_cases sha1 fuel input maxRetries master slot p
  obtain ⟨r, hr⟩ : ∃ r, p.executed sha1 input maxRetries master slot = r := ⟨_, rfl⟩
  rw [hr] at hcases ⊢
  rcases hcases with ⟨-, hnext⟩ | ⟨str, w, d, -, hw, hnext⟩ <;> rw [hnext]
  · constructor
    · intro w hw
      cases hw
    · intro q hq
      cases hq
  have hredirect := redirect_accounted fuel (input.redirect p.i) p.i str r.world r.retries
  rw [hw] at hredirect
  cases d with
  | error f =>
    constructor
    · intro w hw
      cases hw
    · intro q hq
      cases hq
  | ok s =>
    have hfollowed : Accounted w (w.log .followed) r.retries r.retries 0 0 [] := by
      refine .silent ?_ ?_ _
      · exact ⟨[.followed], rfl, rfl⟩
      · rfl
    dsimp only
    split_ifs
    · constructor
      · intro w hw
        cases hw
      · rintro q ⟨⟩
        exact hredirect.append hfollowed
    · constructor
      · rintro w' ⟨⟩
        exact hredirect
      · intro q hq
        cases hq

theorem record_accounted {w w' : World} {retries retries' : ℕ}
    (h : Accounted w w' retries retries' 1 (if retries = 0 then 1 else 0) replies) :
    Accounted w w' retries retries' [CallRecord.mk retries replies].length
      ([CallRecord.mk retries replies].countP fun r => r.entered = 0)
      ([CallRecord.mk retries replies].flatMap CallRecord.replies) := by
  simpa [List.countP_cons] using h

theorem passes_accounted (hn : p.hops = n) (h : passRecords sha1 fuel input maxRetries master slot n p = some records) :
    Accounted p.world (p.run sha1 fuel input maxRetries master slot).world p.retries
      (p.run sha1 fuel input maxRetries master slot).retries records.length (records.countP fun r => r.entered = 0)
      (records.flatMap CallRecord.replies) := by
  induction n using Nat.strong_induction_on generalizing p records with
  | _ n ih =>
    obtain ⟨replies, hc, hrest⟩ := passRecords_cases hn h
    have hcall := record_accounted (redisExecute_accounted hc)
    obtain ⟨hexhausted, hagain⟩ := @next_accounted sha1 fuel input maxRetries master slot p
    rw [Pass.run_eq]
    rcases hrest with ⟨hnext, rfl⟩ | ⟨w, hnext, rfl⟩ | ⟨q, m, rest, hnext, rfl, hq, hrest, rfl⟩
    · rw [hnext]
      exact hcall
    · rw [hnext]
      have hall := hcall.append (hexhausted w hnext)
      rw [Nat.add_zero, Nat.add_zero, List.append_nil] at hall
      exact hall
    · rw [hnext]
      have hall := (hcall.append (hagain q hnext)).append (ih m (Nat.lt_succ_self m) hq hrest)
      rw [Nat.add_zero, Nat.add_zero, List.append_nil, ← List.length_append, ← List.countP_append,
        ← List.flatMap_append] at hall
      exact hall

end

end

structure Counts (w : World) (r : Executed) (replies : List (Option Reply)) : Prop where
  made : ∃ events, r.world.trace = events ++ w.trace ∧ events.countP isAttempt = replies.length
  executed : (commands r.world.db).total + (commands r.world.db).failed =
    (commands w.db).total + (commands w.db).failed + replies.length
  failed : (commands r.world.db).failed = (commands w.db).failed + replies.countP Option.isNone

structure Balanced (w : World) (retries : ℕ) (r : Executed) (replies : List (Option Reply)) : Prop extends
    Counts w r replies where
  retried : (commands r.world.db).retried + retries = (commands w.db).retried + r.retries

theorem Executor.accounted {sha1 : Bytes → Bytes} {e : Executor} {argv : Argv} {retries : ℕ} {w : World}
    {records : List CallRecord} (h : e.records sha1 argv retries w = some records) :
    Accounted w (e.run sha1 argv retries w).world retries (e.run sha1 argv retries w).retries records.length
      (records.countP fun r => r.entered = 0) (records.flatMap CallRecord.replies) := by
  cases e with
  | redisExecute input call =>
    obtain ⟨replies, hc, rfl⟩ := Option.map_eq_some_iff.mp h
    exact record_accounted (redisExecute_accounted hc)
  | clusterExecute fuel input maxRetries master =>
    unfold Executor.records at h
    unfold Executor.run ClusterExecution.clusterExecute
    rcases hcommand : argv.head? with _ | _ | command
    · rw [hcommand] at h
      cases h
    · rw [hcommand] at h
      cases h
    · rw [hcommand] at h
      dsimp only at h ⊢
      by_cases hi : 0 < getKeyIndex command ∧ getKeyIndex command < argv.length
      · rw [if_pos hi] at h ⊢
        rcases hkey : argv[(getKeyIndex command).toNat]? with _ | _ | key
        · rw [hkey] at h
          cases h
        · rw [hkey] at h
          cases h
        · rw [hkey] at h
          exact passes_accounted rfl h
      · rw [if_neg hi] at h ⊢
        obtain rfl := Option.some.inj h
        refine .silent ?_ ?_ _
        · exact ⟨[], rfl, rfl⟩
        · rfl

/-- A retry is counted for each attempt but the first one of a call that finds no retries. -/
theorem commands_balanced_iff {sha1 : Bytes → Bytes} {e : Executor} {argv : Argv} {retries : ℕ} {w : World}
    {records : List CallRecord} (h : e.records sha1 argv retries w = some records) :
    Counts w (e.run sha1 argv retries w) (records.flatMap CallRecord.replies) ∧
      (Balanced w retries (e.run sha1 argv retries w) (records.flatMap CallRecord.replies) ↔
        ∀ record ∈ records, record.entered = 0) := by
  have ha := e.accounted h
  have hcounts : Counts w (e.run sha1 argv retries w) (records.flatMap CallRecord.replies) :=
    ⟨ha.made, ha.executed, ha.failed⟩
  have hretried := ha.retried
  have hconsumed := ha.consumed
  have hall : (∀ record ∈ records, record.entered = 0) ↔ (records.countP fun r => r.entered = 0) = records.length := by
    rw [List.countP_eq_length]
    simp only [decide_eq_true_eq]
  refine ⟨hcounts, ?_⟩
  rw [hall]
  constructor
  · intro hb
    have := hb.retried
    omega
  · intro hn
    exact ⟨hcounts, by omega⟩

def flaky (str : Bytes) : ClusterInput where
  call i := ⟨((redirecting str).call i).plan, fun j =>
    { ((redirecting str).call i).attempt j with connected := i ≠ 0 || j ≠ 0 }⟩
  redirect := (redirecting str).redirect

def flakily (str : Bytes) : Executor := .clusterExecute 0 (flaky str) 1 false

theorem commands_balanced_iff_retried :
    ∃ records, (flakily (bytes "TRYAGAIN")).records id getKey 0 (idleWorld masters) = some records ∧
      Balanced (idleWorld masters) 0 ((flakily (bytes "TRYAGAIN")).run id getKey 0 (idleWorld masters))
        (records.flatMap CallRecord.replies) ∧
      (commands ((flakily (bytes "TRYAGAIN")).run id getKey 0 (idleWorld masters)).world.db).retried = 1 := by
  have hrun : ((flakily (bytes "TRYAGAIN")).records id getKey 0 (idleWorld masters)).map
      (List.all · fun record => record.entered = 0) = some true := by decide +kernel
  obtain ⟨records, h, hall⟩ := Option.map_eq_some_iff.mp hrun
  exact ⟨records, h, (commands_balanced_iff h).2.mpr (by simpa using hall), by decide +kernel⟩

theorem commands_unbalanced :
    ¬ ∀ (e : Executor) (argv : Argv) (retries : ℕ) (w : World) (records : List CallRecord),
      e.records id argv retries w = some records →
        Balanced w retries (e.run id argv retries w) (records.flatMap CallRecord.replies) := by
  intro hall
  obtain ⟨e, he⟩ : ∃ e, e = flakily (bytes "ASK 0 10.0.0.2:6379") := ⟨_, rfl⟩
  obtain ⟨records, h⟩ := Option.isSome_iff_exists.mp
    (show (e.records id getKey 0 (idleWorld masters)).isSome = true by rw [he]; decide +kernel)
  have hretried := (hall e getKey 0 (idleWorld masters) records h).retried
  have hrun : (commands (e.run id getKey 0 (idleWorld masters)).world.db).retried = 2 ∧
      (e.run id getKey 0 (idleWorld masters)).retries = 1 ∧ (commands (idleWorld masters).db).retried = 0 := by
    rw [he]
    decide +kernel
  rw [hrun.1, hrun.2.1, hrun.2.2] at hretried
  exact absurd hretried (by decide)

end VmodRedis.CommandAccounting
