import VmodRedis.ExecutionTrace

namespace VmodRedis.ClusterExecution

open CStrings Replies Database Connections Registry Planning DiscoveryWalk Execution Slots

def isAttempt : Event → Bool
  | .attempt => true
  | _ => false

def isFollowed : Event → Bool
  | .followed => true
  | _ => false

def retriesOf : Event → Option ℕ
  | .enter k | .leave k => some k
  | _ => none

structure Counted (maxRetries hops retries retries' calls : ℕ) (events : List Event) : Prop where
  attempts : events.countP isAttempt + retries ≤ retries' + calls
  followed : events.countP isFollowed = hops
  le : retries ≤ retries'
  le_max : retries' ≤ maxRetries
  bounded : ∀ e ∈ events, ∀ k, retriesOf e = some k → k ≤ maxRetries

variable {maxRetries hops hops' retries retries' retries'' calls calls' : ℕ} {events events' : List Event}

theorem Counted.append (h : Counted maxRetries hops retries retries' calls events)
    (h' : Counted maxRetries hops' retries' retries'' calls' events') :
    Counted maxRetries (hops + hops') retries retries'' (calls + calls') (events' ++ events) where
  attempts := by
    have := h.attempts
    have := h'.attempts
    rw [List.countP_append]
    omega
  followed := by
    have := h.followed
    have := h'.followed
    rw [List.countP_append]
    omega
  le := h.le.trans h'.le
  le_max := h'.le_max
  bounded e he := (List.mem_append.mp he).elim (h'.bounded e) (h.bounded e)

def isUncounted : Event → Bool
  | .enter _ | .leave _ | .attempt | .followed => false
  | _ => true

theorem Counted.uncounted (hr : retries ≤ maxRetries) (h : ∀ e ∈ events, isUncounted e = true) :
    Counted maxRetries 0 retries retries 0 events where
  attempts := by
    have h0 : events.countP isAttempt = 0 := by
      rw [List.countP_eq_zero]
      intro e he
      have := h e he
      cases e <;> simp_all [isUncounted, isAttempt]
    omega
  followed := by
    rw [List.countP_eq_zero]
    intro e he
    have := h e he
    cases e <;> simp_all [isUncounted, isFollowed]
  le := le_refl _
  le_max := hr
  bounded e he k hk := by
    have := h e he
    cases e <;> simp_all [isUncounted, retriesOf]

theorem isUncounted_of_isInner {e : Event} (h : e.isInner = true) : isUncounted e = true := by
  cases e <;> first | rfl | cases h

theorem Counted.attempt (hr : retries ≤ maxRetries) : Counted maxRetries 0 retries retries 1 [.attempt] :=
  ⟨by simp [isAttempt, Nat.add_comm], by simp [isFollowed], le_refl _, hr, by simp [retriesOf]⟩

theorem Counted.retry (hr : retries ≤ retries') (hr' : retries' ≤ maxRetries)
    (h : Counted maxRetries hops retries retries calls events) (hc : calls ≤ calls' + (retries' - retries)) :
    Counted maxRetries hops retries retries' calls' events :=
  ⟨by have := h.attempts; omega, h.followed, hr, hr', h.bounded⟩

theorem Counted.enter (hr : retries ≤ maxRetries) : Counted maxRetries 0 retries retries 0 [.enter retries] :=
  ⟨by simp [isAttempt], by simp [isFollowed], le_refl _, hr, by simp [retriesOf, hr]⟩

theorem Counted.leave (hr : retries ≤ maxRetries) : Counted maxRetries 0 retries retries 0 [.leave retries] :=
  ⟨by simp [isAttempt], by simp [isFollowed], le_refl _, hr, by simp [retriesOf, hr]⟩

theorem Counted.weaken (h : Counted maxRetries hops retries retries' calls events) (hc : calls ≤ calls') :
    Counted maxRetries hops retries retries' calls' events :=
  ⟨by have := h.attempts; omega, h.followed, h.le, h.le_max, h.bounded⟩

theorem Counted.follow (hr : retries ≤ maxRetries) : Counted maxRetries 1 retries retries 0 [.followed] :=
  ⟨by simp [isAttempt], by simp [isFollowed], le_refl _, hr, by simp [retriesOf]⟩

def Bounds (maxRetries hops retries calls : ℕ) (w : World) (r : Executed) : Prop :=
  ∃ events, r.world.trace = events ++ w.trace ∧ Counted maxRetries hops retries r.retries calls events

section

variable (sha1 : Bytes → Bytes)

theorem attempts_bounds (input : ℕ → AttemptInput) (call : Call) (n i : ℕ) (plan : Plan) (argv : Argv)
    (w : World) (hn : n ≤ call.maxRetries) :
    Bounds call.maxRetries 0 (call.maxRetries - n) 1 w (attempts sha1 input call n i plan argv w) := by
  induction n using Nat.strong_induction_on generalizing i plan argv w with
  | _ n ih =>
    have hr : call.maxRetries - n ≤ call.maxRetries := Nat.sub_le _ _
    obtain ⟨a, ha⟩ : ∃ a, attempt sha1 (input i) call.asking plan argv (w.log .attempt) = a := ⟨_, rfl⟩
    obtain ⟨inner, ht, hi⟩ := (attempt_inner sha1 (input i) call.asking plan argv (w.log .attempt)).logs
    rw [ha] at ht
    have htrace : a.world.trace = (inner ++ [.attempt]) ++ w.trace := ht.trans (by simp [World.log])
    have hcount := (Counted.attempt hr).append (.uncounted hr fun e he => isUncounted_of_isInner (hi e he))
    rcases attempts_cases sha1 input call n i plan argv w ha with
      ⟨f, -, h⟩ | ⟨-, h⟩ | ⟨reply, -, -, h⟩ | ⟨m, rfl, -, h⟩
    · rw [h]
      exact ⟨_, htrace, hcount⟩
    · rw [h]
      exact ⟨_, htrace, hcount.retry hr (le_refl _) (by omega)⟩
    · rw [h]
      exact ⟨_, htrace, hcount⟩
    · rw [h]
      obtain ⟨events, he, hc⟩ := ih m (by omega) (i + 1) a.plan a.argv
        (countCommand (call.maxRetries - (m + 1)) none a.world) (by omega)
      refine ⟨events ++ (inner ++ [.attempt]), ?_, ?_⟩
      · rw [he, countCommand_trace, htrace, List.append_assoc, List.append_assoc, List.append_assoc]
      · have hstep : Counted call.maxRetries 0 (call.maxRetries - (m + 1)) (call.maxRetries - m) 0
            (inner ++ [.attempt]) := hcount.retry (by omega) (by omega) (by omega)
        exact (hstep.append hc).weaken (by omega)

theorem redisExecute_bounds (input : CallInput) (call : Call) (argv : Argv) (retries : ℕ) (w : World)
    (hr : retries ≤ call.maxRetries) :
    Bounds call.maxRetries 0 retries 1 w (redisExecute sha1 input call argv retries w) := by
  obtain ⟨p, hp⟩ : ∃ p, planExecution input.plan w.heap (maxSize call.maxRetries retries) call.server call.master
    call.slot w.task w.db = p := ⟨_, rfl⟩
  rcases redisExecute_cases sha1 input call argv w hr hp with
    ⟨f, -, h⟩ | ⟨plan, task, db, -, -, h⟩ | ⟨plan, task, db, -, -, h⟩
  · rw [h]
    exact ⟨_, rfl, (Counted.enter hr).weaken (by omega)⟩
  · rw [h]
    refine ⟨[.leave call.maxRetries, .enter retries], rfl, ?_⟩
    have hentered : Counted call.maxRetries 0 retries call.maxRetries 1 [.enter retries] :=
      (Counted.enter hr).retry hr (le_refl _) (by omega)
    exact (hentered.append (.leave (le_refl _))).weaken (le_refl _)
  · rw [h]
    obtain ⟨r, hrun⟩ : ∃ r, attempts sha1 input.attempt call (call.maxRetries - retries) 0 plan argv
      (w.planned retries task db) = r := ⟨_, rfl⟩
    obtain ⟨events, he, hc⟩ := attempts_bounds sha1 input.attempt call (call.maxRetries - retries) 0 plan argv
      (w.planned retries task db) (Nat.sub_le _ _)
    rw [Nat.sub_sub_self hr, hrun] at hc
    rw [hrun] at he ⊢
    have htrace : r.world.trace = (events ++ [.enter retries]) ++ w.trace :=
      he.trans (by rw [List.append_assoc]; rfl)
    have hcount := (Counted.enter hr).append hc
    rcases leave_cases r with ⟨f, -, hl⟩ | ⟨reply, -, hl⟩
    · rw [hl]
      exact ⟨_, htrace, hcount.weaken (by omega)⟩
    · rw [hl]
      refine ⟨.leave r.retries :: (events ++ [.enter retries]), congrArg (_ :: ·) htrace, ?_⟩
      exact (hcount.append (.leave hc.le_max)).weaken (by omega)

theorem redirect_uncounted (fuel : ℕ) (input : RedirectInput) (i : ℕ) (str : Bytes) (w : World) :
    Logs (fun e => isUncounted e = true) w (redirect fuel input i str w).1 := by
  rcases redirect_cases fuel input i str w with
    ⟨-, h⟩ | ⟨location, db, -, -, h⟩ | ⟨location, s, db, -, -, ⟨-, h⟩ | ⟨-, ⟨-, h⟩ | ⟨found, walk, -, h⟩⟩⟩ <;> rw [h]
  · exact .refl w
  · exact .of_eq rfl
  · exact ⟨[.redirection true location s], rfl, by simp [isUncounted]⟩
  · exact ⟨[.discovering i s, .redirection false location s], rfl, by simp [isUncounted]⟩
  · exact ⟨[.discovering i s, .redirection false location s], rfl, by simp [isUncounted]⟩

variable {sha1}

theorem Bounds.redirected {w w' : World} {r : Executed} (h : Bounds maxRetries hops retries calls w r)
    (hl : Logs (fun e => isUncounted e = true) r.world w') (outcome : Except Fault (Option Reply)) :
    Bounds maxRetries hops retries calls w { r with world := w', outcome := outcome } := by
  obtain ⟨events, he, hc⟩ := h
  obtain ⟨events', he', hu⟩ := hl
  exact ⟨events' ++ events, by rw [he', he, List.append_assoc], hc.append (.uncounted hc.le_max hu)⟩

variable (sha1) in
theorem follow_bounds (fuel : ℕ) (input : ClusterInput) (maxRetries : ℕ) (master : Bool) (slot hops i : ℕ)
    (server : Option ServerId) (asking : Bool) (argv : Argv) (retries : ℕ) (w : World) (hr : retries ≤ maxRetries) :
    ∃ k ≤ hops, Bounds maxRetries k retries (1 + k) w
      (follow sha1 fuel input maxRetries master slot hops i server asking argv retries w) := by
  induction hops using Nat.strong_induction_on generalizing i server asking argv retries w with
  | _ hops ih =>
    obtain ⟨r, hrun⟩ : ∃ r, redisExecute sha1 (input.call i) ⟨maxRetries, server, asking, master, slot⟩ argv retries
      w = r := ⟨_, rfl⟩
    have hb := redisExecute_bounds sha1 (input.call i) ⟨maxRetries, server, asking, master, slot⟩ argv retries w hr
    rw [hrun] at hb
    rcases follow_cases sha1 fuel input maxRetries master slot hops i server asking argv retries w hrun with
      ⟨-, h⟩ | ⟨str, -, ⟨w', f, hw, h⟩ | ⟨w', s, hw, -, h⟩ | ⟨w', s, m, hw, rfl, hle, h⟩⟩
    · rw [h]
      exact ⟨0, Nat.zero_le _, hb⟩
    all_goals
      have hl := redirect_uncounted fuel (input.redirect i) i str r.world
      rw [hw] at hl
      rw [h]
    · exact ⟨0, Nat.zero_le _, hb.redirected hl _⟩
    · exact ⟨0, Nat.zero_le _, hb.redirected hl _⟩
    · obtain ⟨k, hk, events, he, hc⟩ := ih m (Nat.lt_succ_self m) (i + 1) (some s) (!strncmp str (bytes "MOVED")) r.argv
        r.retries (w'.log .followed) hle
      obtain ⟨events', he', hc'⟩ := hb.redirected hl r.outcome
      refine ⟨k + 1, by omega, events ++ (.followed :: events'), ?_, ?_⟩
      · rw [he, List.append_assoc]
        exact congrArg (events ++ .followed :: ·) he'
      · have hf := (hc'.append (.follow hle)).append hc
        have hcalls : 1 + 0 + (1 + k) = 1 + (k + 1) := by omega
        have hhops : 0 + 1 + k = k + 1 := by omega
        rw [hcalls, hhops] at hf
        exact hf

theorem redirect_error {fuel : ℕ} {input : RedirectInput} {i : ℕ} {str : Bytes} {w w' : World} {f : Fault}
    (h : redirect fuel input i str w = (w', .error f)) :
    f = .malformedRedirection ∨ f = .serverRejected ∨ f = .diverged := by
  rcases redirect_cases fuel input i str w with
    ⟨-, hr⟩ | ⟨location, db, -, -, hr⟩ | ⟨location, s, db, -, -, ⟨-, hr⟩ | ⟨-, ⟨-, hr⟩ | ⟨found, walk, -, hr⟩⟩⟩ <;>
    rw [hr] at h <;> cases h
  · exact .inl rfl
  · exact .inr (.inl rfl)
  · exact .inr (.inr rfl)

theorem not_isRedirection {r : Executed} (h : ∀ str, ¬ isRedirected str r) {reply : Reply}
    (ho : r.outcome = .ok (some reply)) : reply.isRedirection = false := by
  cases reply with
  | error str => exact Bool.eq_false_iff.mpr fun hi => h str ⟨ho, hi⟩
  | _ => rfl

structure Ends (r : Executed) : Prop where
  reply : ∀ reply, r.outcome = .ok (some reply) → reply.isRedirection = false
  retries : r.outcome ≠ .error .retriesExceeded
  blocked : r.outcome = .error .blocked → r.world.db.sharedConnections = true

theorem follow_ends (fuel : ℕ) (input : ClusterInput) (maxRetries : ℕ) (master : Bool) (slot hops i : ℕ)
    (server : Option ServerId) (asking : Bool) (argv : Argv) (retries : ℕ) (w : World) (hr : retries ≤ maxRetries) :
    Ends (follow sha1 fuel input maxRetries master slot hops i server asking argv retries w) := by
  induction hops using Nat.strong_induction_on generalizing i server asking argv retries w with
  | _ hops ih =>
    obtain ⟨r, hrun⟩ : ∃ r, redisExecute sha1 (input.call i) ⟨maxRetries, server, asking, master, slot⟩ argv retries
      w = r := ⟨_, rfl⟩
    have hf : ∀ f, r.outcome = .error f → ofCall r.world f = true := by
      rw [← hrun]
      exact fun f ho => redisExecute_fault hr ho
    rcases follow_cases sha1 fuel input maxRetries master slot hops i server asking argv retries w hrun with
      ⟨hn, h⟩ | ⟨str, -, ⟨w', f, hw, h⟩ | ⟨w', s, hw, -, h⟩ | ⟨w', s, m, hw, rfl, hle, h⟩⟩ <;> rw [h]
    · exact ⟨fun reply => not_isRedirection hn, fun ho => absurd (hf _ ho) Bool.false_ne_true, hf _⟩
    · have hfault := redirect_error hw
      refine ⟨nofun, fun ho => ?_, fun ho => ?_⟩ <;> cases ho <;> simp at hfault
    · exact ⟨nofun, nofun, nofun⟩
    · exact ih m (Nat.lt_succ_self m) (i + 1) _ _ _ _ _ hle

theorem redirect_moved {input : RedirectInput} {i : ℕ} {str location : Bytes} {s : ServerId} {w : World} {db : Db}
    (hl : redirectionLocation str = some location)
    (ha : unsafeAddRedisServer input.add input.rules location .tbd w.db = (some s, db))
    (hm : strncmp str (bytes "MOVED") = true) (fuel : ℕ) :
    redirect fuel input i str w =
      match unsafeDiscoverSlots fuel input.discovery s (World.discovering w db location i s).db with
      | none => (World.discovering w db location i s, .error .diverged)
      | some (_, walk) => ({ World.discovering w db location i s with db := walk.db }, .ok s) := by
  simp only [redirect, hl, ha, hm, Bool.not_true, Bool.false_eq_true, if_false]
  rfl

theorem redirect_settles (F : ℕ) (input : RedirectInput) (i : ℕ) (str : Bytes) (w : World)
    (h : ∀ s earlier, (redirect F input i str w).2 = .error .diverged →
      (redirect F input i str w).1.trace = .discovering i s :: earlier →
      ∃ fuel, (unsafeDiscoverSlots fuel input.discovery s (redirect F input i str w).1.db).isSome) :
    ∃ F' ≥ F, ∃ w' d, d ≠ .error .diverged ∧ ∀ fuel ≥ F', redirect fuel input i str w = (w', d) := by
  cases hl : redirectionLocation str with
  | none =>
    refine ⟨F, le_refl F, w, .error .malformedRedirection, by simp, fun fuel _ => ?_⟩
    rw [redirect, hl]
  | some location =>
    obtain ⟨⟨s, db⟩, ha⟩ : ∃ p, unsafeAddRedisServer input.add input.rules location .tbd w.db = p := ⟨_, rfl⟩
    cases s with
    | none =>
      refine ⟨F, le_refl F, { w with db := db }, .error .serverRejected, by simp, fun fuel _ => ?_⟩
      simp only [redirect, hl, ha]
    | some s =>
      cases hm : strncmp str (bytes "MOVED") with
      | false =>
        refine ⟨F, le_refl F, countAsk ({ w with db := db }.log (.redirection true location s)), .ok s, by simp,
          fun fuel _ => ?_⟩
        simp only [redirect, hl, ha, hm, Bool.not_false, if_true]
      | true =>
        have heq := redirect_moved (i := i) hl ha hm
        obtain ⟨fuel, hf⟩ : ∃ fuel, (unsafeDiscoverSlots fuel input.discovery s
            (World.discovering w db location i s).db).isSome := by
          cases hd : unsafeDiscoverSlots F input.discovery s (World.discovering w db location i s).db with
          | none =>
            have hF := heq F
            rw [hd] at hF
            have := h s (World.discovering w db location i s).trace.tail (by rw [hF]) (by rw [hF]; rfl)
            rwa [hF] at this
          | some p => exact ⟨F, by rw [hd]; rfl⟩
        obtain ⟨p, hp⟩ := Option.isSome_iff_exists.mp hf
        refine ⟨max F fuel, le_max_left _ _, { World.discovering w db location i s with db := p.2.db }, .ok s, by simp,
          fun fuel' hfuel => ?_⟩
        rw [heq, unsafeDiscoverSlots_mono ((le_max_right F fuel).trans hfuel) hp]

theorem redirect_mono {fuel fuel' : ℕ} (hle : fuel ≤ fuel') {input : RedirectInput} {i : ℕ} {str : Bytes} {w : World}
    (h : (redirect fuel input i str w).2 ≠ .error .diverged) :
    redirect fuel' input i str w = redirect fuel input i str w := by
  rcases redirect_cases fuel input i str w with
    ⟨hl, hr⟩ | ⟨location, db, hl, ha, hr⟩ | ⟨location, s, db, hl, ha, ⟨hm, hr⟩ | ⟨hm, ⟨-, hr⟩ | ⟨found, walk, hd, hr⟩⟩⟩
  · rw [hr, redirect, hl]
  · rw [hr, redirect, hl]
    simp only [ha]
  · rw [hr, redirect, hl]
    simp only [ha, hm, Bool.not_false, if_true]
  · rw [hr] at h
    exact absurd rfl h
  · have hd' := unsafeDiscoverSlots_mono hle hd
    rw [World.discovering] at hd' hr
    rw [hr, redirect, hl]
    simp only [ha, hm, Bool.not_true, Bool.false_eq_true, if_false, hd']

theorem follow_mono {fuel fuel' : ℕ} (hle : fuel ≤ fuel') (input : ClusterInput) (maxRetries : ℕ) (master : Bool)
    (slot hops i : ℕ) (server : Option ServerId) (asking : Bool) (argv : Argv) (retries : ℕ) (w : World)
    (h : (follow sha1 fuel input maxRetries master slot hops i server asking argv retries w).outcome ≠
      .error .diverged) :
    follow sha1 fuel' input maxRetries master slot hops i server asking argv retries w =
      follow sha1 fuel input maxRetries master slot hops i server asking argv retries w := by
  induction hops using Nat.strong_induction_on generalizing i server asking argv retries w with
  | _ hops ih =>
    obtain ⟨r, hrun⟩ : ∃ r, redisExecute sha1 (input.call i) ⟨maxRetries, server, asking, master, slot⟩ argv retries
      w = r := ⟨_, rfl⟩
    have hne : ∀ str w' f, isRedirected str r → redirect fuel (input.redirect i) i str r.world = (w', .error f) →
        f ≠ .diverged := by
      rintro str w' f hi hw rfl
      rw [follow_redirected sha1 fuel input maxRetries master slot hops i server asking argv retries w hrun hi, hw] at h
      exact h rfl
    rcases follow_cases sha1 fuel input maxRetries master slot hops i server asking argv retries w hrun with
      ⟨hn, hf⟩ | ⟨str, hi, ⟨w', f, hw, hf⟩ | ⟨w', s, hw, hstop, hf⟩ | ⟨w', s, m, hw, rfl, hretry, hf⟩⟩
    · rcases follow_cases sha1 fuel' input maxRetries master slot hops i server asking argv retries w hrun with
        ⟨-, hf'⟩ | ⟨str, hi, -⟩
      · rw [hf, hf']
      · exact absurd hi (hn str)
    · have hw' : redirect fuel' (input.redirect i) i str r.world = (w', .error f) := by
        rw [redirect_mono hle (by rw [hw]; exact fun he => hne str w' f hi hw (Except.error.inj he)), hw]
      rw [hf, follow_redirected sha1 fuel' input maxRetries master slot hops i server asking argv retries w hrun hi, hw']
    · have hw' : redirect fuel' (input.redirect i) i str r.world = (w', .ok s) := by
        rw [redirect_mono hle (by rw [hw]; exact nofun), hw]
      rw [hf, follow_redirected sha1 fuel' input maxRetries master slot hops i server asking argv retries w hrun hi, hw']
      cases hops with
      | zero => rfl
      | succ m =>
        rcases hstop with h0 | hlt
        · cases h0
        · exact if_neg (Nat.not_le.mpr hlt)
    · have hw' : redirect fuel' (input.redirect i) i str r.world = (w', .ok s) := by
        rw [redirect_mono hle (by rw [hw]; exact nofun), hw]
      rw [hf] at h ⊢
      rw [follow_redirected sha1 fuel' input maxRetries master slot _ i server asking argv retries w hrun hi, hw']
      exact (if_pos hretry).trans (ih m (Nat.lt_succ_self m) _ _ _ _ _ _ h)

/-- However much fuel a run gets, the discovery at which it stops, if it stops at one, returns. -/
def DiscoveriesReturn (input : ClusterInput) (run : ℕ → Executed) (F : ℕ) : Prop :=
  ∀ fuel ≥ F, ∀ i s earlier, (run fuel).outcome = .error .diverged →
    (run fuel).world.trace = .discovering i s :: earlier →
    ∃ fuel', (unsafeDiscoverSlots fuel' (input.redirect i).discovery s (run fuel).world.db).isSome

section

variable {F fuel maxRetries slot hops i retries : ℕ} {input : ClusterInput} {master asking : Bool}
  {server : Option ServerId} {argv : Argv} {w w' : World} {r : Executed} {str : Bytes} {s : ServerId}

theorem follow_not_redirected (hrun : redisExecute sha1 (input.call i) ⟨maxRetries, server, asking, master, slot⟩ argv
      retries w = r) (hr : retries ≤ maxRetries) (hd : ¬ ∃ str, isRedirected str r) (fuel : ℕ) :
    (follow sha1 fuel input maxRetries master slot hops i server asking argv retries w).outcome ≠ .error .diverged := by
  rcases follow_cases sha1 fuel input maxRetries master slot hops i server asking argv retries w hrun with
    ⟨-, he⟩ | ⟨str, hi, -⟩
  · rw [he]
    intro ho
    have hf : ofCall r.world .diverged = true := by
      rw [← hrun] at ho ⊢
      exact redisExecute_fault hr ho
    exact Bool.false_ne_true hf
  · exact absurd ⟨str, hi⟩ hd

theorem follow_next (hrun : redisExecute sha1 (input.call i) ⟨maxRetries, server, asking, master, slot⟩ argv
      retries w = r) (hi : isRedirected str r)
    (hw : redirect fuel (input.redirect i) i str r.world = (w', .ok s)) (hle : r.retries ≤ maxRetries) (m : ℕ) :
    follow sha1 fuel input maxRetries master slot (m + 1) i server asking argv retries w =
      follow sha1 fuel input maxRetries master slot m (i + 1) (some s) (!strncmp str (bytes "MOVED")) r.argv r.retries
        (w'.log .followed) := by
  rw [follow_redirected sha1 fuel input maxRetries master slot (m + 1) i server asking argv retries w hrun hi, hw]
  exact if_pos hle

theorem DiscoveriesReturn.redirected (hrun : redisExecute sha1 (input.call i) ⟨maxRetries, server, asking, master, slot⟩
      argv retries w = r) (hi : isRedirected str r)
    (h : DiscoveriesReturn input
      (fun fuel => follow sha1 fuel input maxRetries master slot hops i server asking argv retries w) F)
    {earlier : List Event} (hdiv : (redirect F (input.redirect i) i str r.world).2 = .error .diverged)
    (ht : (redirect F (input.redirect i) i str r.world).1.trace = .discovering i s :: earlier) :
    ∃ fuel, (unsafeDiscoverSlots fuel (input.redirect i).discovery s
      (redirect F (input.redirect i) i str r.world).1.db).isSome := by
  have hF := follow_redirected sha1 F input maxRetries master slot hops i server asking argv retries w hrun hi
  obtain ⟨⟨w', d⟩, hw⟩ : ∃ p, redirect F (input.redirect i) i str r.world = p := ⟨_, rfl⟩
  rw [hw] at hdiv ht hF ⊢
  cases hdiv
  have hreturn := h F (le_refl F) i s earlier
  dsimp only at hreturn
  rw [hF] at hreturn
  exact hreturn rfl ht

end

theorem follow_returns (F : ℕ) (input : ClusterInput) (maxRetries : ℕ) (master : Bool) (slot hops i : ℕ)
    (server : Option ServerId) (asking : Bool) (argv : Argv) (retries : ℕ) (w : World) (hr : retries ≤ maxRetries)
    (h : DiscoveriesReturn input
      (fun fuel => follow sha1 fuel input maxRetries master slot hops i server asking argv retries w) F) :
    ∃ F', ∀ fuel ≥ F', (follow sha1 fuel input maxRetries master slot hops i server asking argv retries w).outcome ≠
      .error .diverged := by
  induction hops using Nat.strong_induction_on generalizing F i server asking argv retries w with
  | _ hops ih =>
    obtain ⟨r, hrun⟩ : ∃ r, redisExecute sha1 (input.call i) ⟨maxRetries, server, asking, master, slot⟩ argv retries
      w = r := ⟨_, rfl⟩
    by_cases hd : ∃ str, isRedirected str r
    · obtain ⟨str, hi⟩ := hd
      have heq : ∀ fuel, _ := fun fuel =>
        follow_redirected sha1 fuel input maxRetries master slot hops i server asking argv retries w hrun hi
      obtain ⟨F', hF, w', d, hne, hset⟩ := redirect_settles F (input.redirect i) i str r.world
        fun s earlier => h.redirected hrun hi
      cases d with
      | error f =>
        refine ⟨F', fun fuel hfuel => ?_⟩
        rw [heq fuel, hset fuel hfuel]
        intro ho
        cases ho
        exact hne rfl
      | ok s =>
        cases hops with
        | zero =>
          refine ⟨F', fun fuel hfuel => ?_⟩
          rw [heq fuel, hset fuel hfuel]
          exact nofun
        | succ m =>
          by_cases hle : r.retries ≤ maxRetries
          · have hnext := fun fuel hfuel => follow_next hrun hi (hset fuel hfuel) hle m
            obtain ⟨F'', hF''⟩ := ih m (Nat.lt_succ_self m) F' (i + 1) (some s) (!strncmp str (bytes "MOVED")) r.argv
              r.retries (w'.log .followed) hle (by
                intro fuel hfuel
                have hreturn := h fuel (hF.trans hfuel)
                dsimp only at hreturn
                rwa [hnext fuel hfuel] at hreturn)
            refine ⟨max F' F'', fun fuel hfuel => ?_⟩
            rw [hnext fuel ((le_max_left F' F'').trans hfuel)]
            exact hF'' fuel ((le_max_right F' F'').trans hfuel)
          · refine ⟨F', fun fuel hfuel => ?_⟩
            rw [heq fuel, hset fuel hfuel]
            dsimp only
            rw [if_neg hle]
            exact nofun
    · exact ⟨0, fun fuel _ => follow_not_redirected hrun hr hd fuel⟩

variable (sha1)

theorem clusterExecute_mono {fuel fuel' : ℕ} (hle : fuel ≤ fuel') (input : ClusterInput) (maxRetries : ℕ)
    (master : Bool) (argv : Argv) (retries : ℕ) (w : World)
    (h : (clusterExecute sha1 fuel input maxRetries master argv retries w).outcome ≠ .error .diverged) :
    clusterExecute sha1 fuel' input maxRetries master argv retries w =
      clusterExecute sha1 fuel input maxRetries master argv retries w := by
  rcases clusterExecute_cases sha1 input maxRetries master argv retries w with ⟨outcome, -, he⟩ | ⟨key, he⟩
  · rw [he, he]
  · rw [he] at h
    rw [he, he]
    exact follow_mono hle _ _ _ _ _ _ _ _ _ _ _ h

/-- The two nested loops of `cluster_execute` end, and the counter that they share bounds the attempts. -/
theorem clusterExecute_bounded (input : ClusterInput) (maxRetries : ℕ) (master : Bool) (argv : Argv)
    (retries : ℕ) (w : World) (hr : retries ≤ maxRetries)
    (hd : DiscoveriesReturn input
      (fun fuel => clusterExecute sha1 fuel input maxRetries master argv retries w) 0) :
    (∃ F r, r.outcome ≠ .error .diverged ∧
        ∀ fuel ≥ F, clusterExecute sha1 fuel input maxRetries master argv retries w = r) ∧
      ∀ fuel, Ends (clusterExecute sha1 fuel input maxRetries master argv retries w) ∧
        ∃ events,
          (clusterExecute sha1 fuel input maxRetries master argv retries w).world.trace = events ++ w.trace ∧
          (∀ k, .enter k ∈ events ∨ .leave k ∈ events → k ≤ maxRetries) ∧
          events.countP isFollowed ≤ hopsOf w.db ∧
          events.countP isAttempt ≤ 1 + maxRetries + events.countP isFollowed := by
  rcases clusterExecute_cases sha1 input maxRetries master argv retries w with ⟨outcome, ho, h⟩ | ⟨key, h⟩
  · simp only [h]
    have hends : Ends ⟨w, argv, retries, outcome⟩ := by
      rcases ho with rfl | rfl <;> exact ⟨nofun, nofun, nofun⟩
    refine ⟨⟨0, _, ?_, fun _ _ => rfl⟩, fun _ => ⟨hends, [], rfl, by simp, by simp, by simp⟩⟩
    rcases ho with rfl | rfl <;> exact nofun
  · simp only [h] at hd ⊢
    obtain ⟨F, hF⟩ := follow_returns 0 input maxRetries master (getClusterSlot key) (hopsOf w.db) 0 none false argv
      retries w hr hd
    have hF := hF F (le_refl F)
    refine ⟨⟨F, _, hF, fun fuel hfuel => follow_mono hfuel _ _ _ _ _ _ _ _ _ _ _ hF⟩,
      fun fuel => ⟨follow_ends fuel input maxRetries master _ _ 0 none false argv retries w hr, ?_⟩⟩
    obtain ⟨k, hk, events, he, hc⟩ := follow_bounds sha1 fuel input maxRetries master (getClusterSlot key)
      (hopsOf w.db) 0 none false argv retries w hr
    refine ⟨events, he, fun n hn => ?_, hc.followed.trans_le hk, ?_⟩
    · rcases hn with hn | hn <;> exact hc.bounded _ hn n rfl
    · have := hc.attempts
      have := hc.le_max
      have := hc.followed
      omega

end

theorem DiscoveriesReturn.of_ends {input : ClusterInput} {run : ℕ → Executed} {F : ℕ}
    (hmono : ∀ fuel, (run 0).outcome ≠ .error .diverged → run fuel = run 0)
    (h : (run 0).outcome.toOption.isSome = true) : DiscoveriesReturn input run F := by
  have hends : (run 0).outcome ≠ .error .diverged := fun ho => by
    rw [ho] at h
    cases h
  intro fuel _ i s earlier ho _
  rw [hmono fuel hends] at ho
  exact absurd ho hends

theorem clusterExecute_bounded_moved :
    ∃ F r, r.outcome ≠ .error .diverged ∧
      ∀ fuel ≥ F, clusterExecute id fuel (redirecting (bytes "MOVED 0 10.0.0.2:6379")) 1 false getKey 0
        (idleWorld masters) = r :=
  (clusterExecute_bounded id (redirecting (bytes "MOVED 0 10.0.0.2:6379")) 1 false getKey 0 (idleWorld masters)
    (Nat.zero_le 1) (.of_ends (fun fuel => clusterExecute_mono id (Nat.zero_le fuel) _ _ _ _ _ _)
      (by decide +kernel))).1

end VmodRedis.ClusterExecution
