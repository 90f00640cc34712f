import VmodRedis.Lib.TransitionSystem
import VmodRedis.RedirectionRouting
import VmodRedis.RetryBounds

namespace VmodRedis.ClusterExecution

open CStrings Replies Database Connections Registry Planning DiscoveryWalk Execution Slots TransitionSystem

def blank : UInt8 := 32

def IsNumber (low high : ℕ) (s : Bytes) : Prop := IsDigits s ∧ low ≤ digitsValue s ∧ digitsValue s ≤ high

def redirectionText (word slot host port : Bytes) : Bytes :=
  word ++ blank :: (slot ++ blank :: (host ++ colon :: port))

def IsRedirection (text : Bytes) : Prop :=
  ∃ word slot host port, text = redirectionText word slot host port ∧ word ∈ [bytes "MOVED", bytes "ASK"] ∧
    IsNumber 0 (nredisClusterSlots - 1) slot ∧ blank ∉ host ∧ IsNumber 1 65535 port

theorem redirectionLocation_text {word slot host port : Bytes} (hword : blank ∉ word) (hslot : blank ∉ slot)
    (h : 0 ∉ redirectionText word slot host port) :
    redirectionLocation (redirectionText word slot host port) = some (host ++ colon :: port) := by
  have hrest : 0 ∉ slot ++ blank :: (host ++ colon :: port) := by
    intro hm
    exact h (List.mem_append_right _ (List.mem_cons_of_mem _ hm))
  rw [redirectionLocation]
  change (strchr (word ++ blank :: _) blank).bind _ = _
  rw [strchr_append hword h, Option.bind_some, List.tail_cons]
  change (strchr (slot ++ blank :: _) blank).map _ = _
  rw [strchr_append hslot hrest]
  rfl

theorem redirectionLocation_cstr (str : Bytes) : redirectionLocation (cstr str) = redirectionLocation str := by
  simp only [redirectionLocation, strchr, cstr_cstr]

theorem isRedirection_of_word {str word rest : Bytes} (h : cstr str = word ++ rest)
    (hword : word ∈ [bytes "MOVED", bytes "ASK"]) : (Reply.error str).isRedirection = true := by
  simp only [Reply.isRedirection, Reply.isMoved, Reply.isAsk, Reply.isError, strncmp, h, Bool.or_eq_true,
    List.isPrefixOf_iff_prefix]
  rcases List.mem_cons.mp hword with rfl | hword
  · exact Or.inl (List.prefix_append _ _)
  · rw [List.mem_singleton.mp hword]
    exact Or.inr (List.prefix_append _ _)

theorem isRedirection_handled {str : Bytes} (h : IsRedirection (cstr str)) :
    (Reply.error str).isRedirection = true ∧
      ∃ location, redirectionLocation str = some location ∧ colon ∈ cstr location := by
  obtain ⟨word, slot, host, port, htext, hword, ⟨hslot, -⟩, -, hport, -⟩ := h
  have hzero : 0 ∉ redirectionText word slot host port := htext ▸ zero_not_mem_cstr str
  have hblank : blank ∉ word := by
    rcases List.mem_cons.mp hword with rfl | hword
    · decide
    · rw [List.mem_singleton.mp hword]
      decide
  refine ⟨isRedirection_of_word htext hword, host ++ colon :: port, ?_, ?_⟩
  · rw [← redirectionLocation_cstr, htext]
    exact redirectionLocation_text hblank (hslot.not_mem (by decide)) hzero
  · rw [cstr_of_not_mem]
    · simp
    · intro hm
      apply hzero
      simp only [redirectionText, List.mem_append, List.mem_cons] at hm ⊢
      exact Or.inr (Or.inr (Or.inr (Or.inr hm)))

theorem unsafeAddRedisServer_colon (db : Db) {location : Bytes} (h : colon ∈ cstr location) (input : AddInput)
    (rules : List WeightRule) (role : Role) :
    ∃ s db', unsafeAddRedisServer input rules location role db = (some s, db') := by
  obtain ⟨parts, hparts⟩ := Option.isSome_iff_exists.mp ((strrchr_isSome location colon).mpr h)
  unfold unsafeAddRedisServer
  cases findServer db location with
  | none =>
    obtain ⟨host, port⟩ := parts
    have hnew : newRedisServer db location role = some
        { raw := cstr location, address := .host host (atoi port), role := role, weight := 0, pool := .empty,
          slots := fun _ => false, sickness := ⟨0, 0⟩ } := by
      simp [newRedisServer, hparts, Address.isHost]
    rw [hnew]
    exact ⟨_, _, rfl⟩
  | some found => exact ⟨_, _, rfl⟩

structure Pass where
  hops : ℕ
  i : ℕ
  server : Option ServerId
  asking : Bool
  argv : Argv
  retries : ℕ
  world : World

inductive Next where
  | returned
  | failed (w : World) (f : Fault)
  | exhausted (w : World)
  | again (pass : Pass)

section

variable (sha1 : Bytes → Bytes) (fuel : ℕ) (input : ClusterInput) (maxRetries : ℕ) (master : Bool) (slot : ℕ)

def Pass.executed (p : Pass) : Executed :=
  redisExecute sha1 (input.call p.i) ⟨maxRetries, p.server, p.asking, master, slot⟩ p.argv p.retries p.world

def Pass.run (p : Pass) : Executed :=
  follow sha1 fuel input maxRetries master slot p.hops p.i p.server p.asking p.argv p.retries p.world

def Pass.next (p : Pass) : Next :=
  let r := p.executed sha1 input maxRetries master slot
  match r.outcome with
  | .ok (some (.error str)) =>
    if (Reply.error str).isRedirection then
      match redirect fuel (input.redirect p.i) p.i str r.world with
      | (w, .error f) => .failed w f
      | (w, .ok s) =>
        if 0 < p.hops ∧ r.retries ≤ maxRetries then
          .again ⟨p.hops - 1, p.i + 1, some s, !strncmp str (bytes "MOVED"), r.argv, r.retries, w.log .followed⟩
        else .exhausted w
    else .returned
  | _ => .returned

theorem Pass.next_cases (p : Pass) :
    ((∀ str, ¬ isRedirected str (p.executed sha1 input maxRetries master slot)) ∧
        p.next sha1 fuel input maxRetries master slot = .returned) ∨
      ∃ str w d, isRedirected str (p.executed sha1 input maxRetries master slot) ∧
        redirect fuel (input.redirect p.i) p.i str (p.executed sha1 input maxRetries master slot).world = (w, d) ∧
        p.next sha1 fuel input maxRetries master slot =
          match d with
          | .error f => .failed w f
          | .ok s =>
            if 0 < p.hops ∧ (p.executed sha1 input maxRetries master slot).retries ≤ maxRetries then
              .again ⟨p.hops - 1, p.i + 1, some s, !strncmp str (bytes "MOVED"),
                (p.executed sha1 input maxRetries master slot).argv,
                (p.executed sha1 input maxRetries master slot).retries, w.log .followed⟩
            else .exhausted w := by
  obtain ⟨r, hr⟩ : ∃ r, p.executed sha1 input maxRetries master slot = r := ⟨_, rfl⟩
  by_cases hd : ∃ str, isRedirected str r
  · obtain ⟨str, ho, hi⟩ := hd
    obtain ⟨⟨w, d⟩, hw⟩ : ∃ q, redirect fuel (input.redirect p.i) p.i str r.world = q := ⟨_, rfl⟩
    right
    rw [hr]
    refine ⟨str, w, d, ⟨ho, hi⟩, hw, ?_⟩
    unfold Pass.next
    rw [hr]
    dsimp only
    rw [ho]
    dsimp only
    rw [if_pos hi, hw]
    cases d <;> rfl
  · left
    rw [hr]
    refine ⟨fun str h => hd ⟨str, h⟩, ?_⟩
    unfold Pass.next
    rw [hr]
    dsimp only
    split
    · next str ho =>
      have hi : ¬ (Reply.error str).isRedirection = true := fun hi => hd ⟨str, ho, hi⟩
      rw [if_neg hi]
    · rfl

theorem Pass.run_eq (p : Pass) : p.run sha1 fuel input maxRetries master slot =
    match p.next sha1 fuel input maxRetries master slot with
    | .returned => p.executed sha1 input maxRetries master slot
    | .failed w f => { p.executed sha1 input maxRetries master slot with world := w, outcome := .error f }
    | .exhausted w => { p.executed sha1 input maxRetries master slot with world := w, outcome := .ok none }
    | .again q => q.run sha1 fuel input maxRetries master slot := by
  obtain ⟨r, hr⟩ : ∃ r, p.executed sha1 input maxRetries master slot = r := ⟨_, rfl⟩
  have hcases := Pass.next_cases sha1 fuel input maxRetries master slot p
  rw [hr] at hcases ⊢
  rcases hcases with ⟨hn, h⟩ | ⟨str, w, d, hi, hw, h⟩ <;> rw [h]
  · rcases follow_cases sha1 fuel input maxRetries master slot p.hops p.i p.server p.asking p.argv p.retries p.world hr with
      ⟨-, he⟩ | ⟨str, hi, -⟩
    · exact he
    · exact absurd hi (hn str)
  · rw [Pass.run, follow_redirected sha1 fuel input maxRetries master slot p.hops p.i p.server p.asking p.argv p.retries
      p.world hr hi, hw]
    cases d with
    | error f => rfl
    | ok s =>
      cases p.hops with
      | zero => rfl
      | succ hops =>
        dsimp only
        by_cases hle : r.retries ≤ maxRetries
        · rw [if_pos hle, if_pos ⟨Nat.succ_pos hops, hle⟩]
          rfl
        · rw [if_neg hle, if_neg fun h => hle h.2]

def passes (start : Pass) : System Pass where
  init p := p = start
  step p q := p.next sha1 fuel input maxRetries master slot = .again q

def Next.world : Next → Option World
  | .returned => none
  | .failed w _ | .exhausted w => some w
  | .again q => some q.world

structure Pass.Ready (p : Pass) : Prop where
  route : ∃ last, OnRoute last p.world ∧ Follows last p.world p.server p.asking
  clustered : p.world.db.clusterEnabled = true

theorem Pass.Ready.next {p : Pass} (h : p.Ready) :
    (∀ w, (p.next sha1 fuel input maxRetries master slot).world = some w → WellPlaced w.db ∧ w.db.clusterEnabled = true) ∧
      ∀ q, p.next sha1 fuel input maxRetries master slot = .again q → q.Ready := by
  obtain ⟨⟨last, hroute, hfollows⟩, hclustered⟩ := h
  obtain ⟨r, hr⟩ : ∃ r, p.executed sha1 input maxRetries master slot = r := ⟨_, rfl⟩
  obtain ⟨hsent, hlater⟩ := redisExecute_route sha1 (input.call p.i) ⟨maxRetries, p.server, p.asking, master, slot⟩
    p.argv p.retries hroute hfollows
  have hcases := Pass.next_cases sha1 fuel input maxRetries master slot p
  rw [Pass.executed] at hr
  rw [Pass.executed, hr] at hcases
  rw [hr] at hsent hlater
  rcases hcases with ⟨-, h⟩ | ⟨str, w, d, ⟨ho, hi⟩, hw, h⟩ <;> rw [h]
  · refine ⟨fun w hw => ?_, fun q hq => ?_⟩
    · cases hw
    · cases hq
  · obtain ⟨hroute', hlater', hat⟩ := redirect_route fuel (input.redirect p.i) p.i str hsent
    rw [hw] at hroute' hlater' hat
    rw [ho] at hroute'
    have hcluster : w.db.clusterEnabled = true :=
      (congrArg Options.clusterEnabled (hlater.trans hlater').retains.options).trans hclustered
    have hplaced : WellPlaced w.db := hroute'.sound.wellPlaced
    cases d with
    | error f =>
      refine ⟨fun w₁ hw₁ => ?_, fun q hq => ?_⟩
      · cases hw₁
        exact ⟨hplaced, hcluster⟩
      · cases hq
    | ok s =>
      dsimp only
      split_ifs with hmore
      · have hlogged : WellPlaced (w.log .followed).db ∧ (w.log .followed).db.clusterEnabled = true := ⟨hplaced, hcluster⟩
        constructor
        · intro w₁ hw₁
          obtain rfl : w.log .followed = w₁ := Option.some.inj hw₁
          exact hlogged
        · rintro q ⟨⟩
          obtain ⟨location, hloc, hs⟩ := hat s rfl
          obtain ⟨hnext, -⟩ := hroute'.log (e := .followed) trivial rfl
          have hlast : lastAfter (some (.error str)) last = some (!strncmp str (bytes "MOVED"), location) := by
            simp [lastAfter, redirectionOf, hi, hloc]
          change OnRoute (lastAfter (some (.error str)) last) (w.log .followed) at hnext
          rw [hlast] at hnext
          refine ⟨⟨_, hnext, by simp, ?_⟩, hlogged.2⟩
          rintro q ⟨⟩
          exact ⟨s, rfl, hs⟩
      · refine ⟨fun w₁ hw₁ => ?_, fun q hq => ?_⟩
        · cases hw₁
          exact ⟨hplaced, hcluster⟩
        · cases hq

/-- A pass handles the error that its command was answered with: no assertion fails, neither those of the
loop nor that of a discovery, whose servers must be hosts, and only a redirection is not returned. -/
structure Pass.Handles (p : Pass) (str : Bytes) : Prop where
  asserts : ∀ w f, p.next sha1 fuel input maxRetries master slot = .failed w f → f = .diverged
  hosts : ∀ w, (p.next sha1 fuel input maxRetries master slot).world = some w →
    ∀ s, w.db.Registered s → (w.db.server s).address.isHost = true
  followed : p.next sha1 fuel input maxRetries master slot ≠ .returned ↔ IsRedirection (cstr str)

theorem Pass.next_of_redirection {p : Pass} {str : Bytes}
    (ho : (p.executed sha1 input maxRetries master slot).outcome = .ok (some (.error str)))
    (hi : (Reply.error str).isRedirection = true) :
    p.next sha1 fuel input maxRetries master slot ≠ .returned ∧
      ∀ w f, p.next sha1 fuel input maxRetries master slot = .failed w f →
        redirect fuel (input.redirect p.i) p.i str (p.executed sha1 input maxRetries master slot).world = (w, .error f) := by
  rcases Pass.next_cases sha1 fuel input maxRetries master slot p with ⟨hn, -⟩ | ⟨str', w, d, hi', hw, h⟩
  · exact absurd ⟨ho, hi⟩ (hn str)
  · have hstr : str' = str := by
      have heq := hi'.1.symm.trans ho
      simpa using heq
    subst hstr
    rw [h]
    cases d with
    | error f =>
      refine ⟨nofun, ?_⟩
      rintro w' f' ⟨⟩
      exact hw
    | ok s =>
      dsimp only
      split_ifs
      · exact ⟨nofun, nofun⟩
      · exact ⟨nofun, nofun⟩

theorem redirect_of_isRedirection {i : ℕ} {str : Bytes} {w w' : World} {f : Fault} (h : IsRedirection (cstr str))
    (rinput : RedirectInput) (hr : redirect fuel rinput i str w = (w', .error f)) : f = .diverged := by
  obtain ⟨-, location, hl, hcolon⟩ := isRedirection_handled h
  obtain ⟨s, db', hs⟩ := unsafeAddRedisServer_colon w.db hcolon rinput.add rinput.rules .tbd
  rcases redirect_cases fuel rinput i str w with
    ⟨hn, -⟩ | ⟨location', db, hl', ha, -⟩ | ⟨_, _, _, _, _, ⟨-, he⟩ | ⟨-, ⟨-, he⟩ | ⟨_, _, -, he⟩⟩⟩
  · rw [hn] at hl
    cases hl
  · rw [hl] at hl'
    cases hl'
    rw [hs] at ha
    cases ha
  · rw [he] at hr
    cases hr
  · rw [he] at hr
    cases hr
    rfl
  · rw [he] at hr
    cases hr

def Pass.start (argv : Argv) (retries : ℕ) (w : World) : Pass := ⟨hopsOf w.db, 0, none, false, argv, retries, w⟩

theorem clusterExecute_passes (argv : Argv) (retries : ℕ) (w : World) :
    (∃ outcome, clusterExecute sha1 fuel input maxRetries master argv retries w = ⟨w, argv, retries, outcome⟩) ∨
      ∃ key, clusterExecute sha1 fuel input maxRetries master argv retries w =
        (Pass.start argv retries w).run sha1 fuel input maxRetries master (getClusterSlot key) := by
  rcases clusterExecute_cases sha1 input maxRetries master argv retries w with ⟨outcome, -, he⟩ | ⟨key, he⟩
  · exact Or.inl ⟨outcome, he fuel⟩
  · exact Or.inr ⟨key, he fuel⟩

theorem Pass.start_ready {argv : Argv} {retries : ℕ} {w : World} (h : Sound w) (ht : w.trace = [])
    (hc : w.db.clusterEnabled = true) : (Pass.start argv retries w).Ready :=
  ⟨⟨none, ⟨h, ht ▸ trivial, ht ▸ rfl⟩, rfl, nofun⟩, hc⟩

/-- In a run of `cluster_execute`, exactly the errors that are redirections, or do not begin like one, are handled as
they should be. -/
theorem clusterExecute_handles_iff (argv : Argv) (retries : ℕ) (w : World) (h : Sound w) (ht : w.trace = [])
    (hc : w.db.clusterEnabled = true) (p : Pass)
    (hp : (passes sha1 fuel input maxRetries master slot (Pass.start argv retries w)).Reachable p) (str : Bytes)
    (ho : (p.executed sha1 input maxRetries master slot).outcome = .ok (some (.error str))) :
    p.Handles sha1 fuel input maxRetries master slot str ↔
      (Reply.error str).isRedirection = false ∨ IsRedirection (cstr str) := by
  have hready : p.Ready := by
    refine System.invariant (P := Pass.Ready) ?_ ?_ hp
    · rintro q rfl
      exact Pass.start_ready h ht hc
    · intro q q' _ hq hstep
      exact (hq.next sha1 fuel input maxRetries master slot).2 q' hstep
  have hhosts : ∀ w, (p.next sha1 fuel input maxRetries master slot).world = some w →
      ∀ s, w.db.Registered s → (w.db.server s).address.isHost = true := by
    intro w hw
    obtain ⟨hplaced, hcluster⟩ := (hready.next sha1 fuel input maxRetries master slot).1 w hw
    exact hplaced.hosts hcluster
  cases hi : (Reply.error str).isRedirection with
  | true =>
    obtain ⟨hne, hfailed⟩ := Pass.next_of_redirection sha1 fuel input maxRetries master slot ho hi
    constructor
    · exact fun hh => Or.inr (hh.followed.mp hne)
    · rintro (hfalse | htext)
      · cases hfalse
      · exact ⟨fun w f hf => redirect_of_isRedirection fuel htext _ (hfailed w f hf), hhosts, iff_of_true hne htext⟩
  | false =>
    refine iff_of_true ?_ (Or.inl rfl)
    rcases Pass.next_cases sha1 fuel input maxRetries master slot p with ⟨-, hn⟩ | ⟨str', w, d, ⟨ho', hi'⟩, -, -⟩
    · refine ⟨fun w f hf => ?_, hhosts, iff_of_false (not_not.mpr hn) fun htext => ?_⟩
      · rw [hn] at hf
        cases hf
      · rw [(isRedirection_handled htext).1] at hi
        cases hi
    · have hstr : str' = str := by simpa using ho'.symm.trans ho
      rw [hstr, hi] at hi'
      cases hi'

end

def errorText : Reply → Option Bytes
  | .error str => some str
  | _ => none

theorem outcome_of_errorText {outcome : Except Fault (Option Reply)} {str : Bytes}
    (h : outcome.map (fun reply => reply.bind errorText) = .ok (some str)) : outcome = .ok (some (.error str)) := by
  rcases outcome with f | _ | reply
  · cases h
  · cases h
  · cases reply <;> cases h
    rfl

theorem ask_isRedirection : IsRedirection (cstr (bytes "ASK 0 10.0.0.2:6379")) :=
  ⟨bytes "ASK", bytes "0", bytes "10.0.0.2", bytes "6379", by decide, by decide,
    ⟨isDigits_of_all (by decide) (by decide), by decide, by decide⟩, by decide,
    ⟨isDigits_of_all (by decide) (by decide), by decide, by decide⟩⟩

theorem clusterExecute_handles_iff_ask : (Pass.start getKey 0 (idleWorld masters)).Handles id 0
    (redirecting (bytes "ASK 0 10.0.0.2:6379")) 1 false 0 (bytes "ASK 0 10.0.0.2:6379") := by
  apply (clusterExecute_handles_iff id 0 (redirecting (bytes "ASK 0 10.0.0.2:6379")) 1 false 0 getKey 0
    (idleWorld masters) masters_sound rfl (by decide +kernel) _ (System.reachable_init rfl) _ ?_).mpr
  · exact Or.inr ask_isRedirection
  · apply outcome_of_errorText
    decide +kernel

def Next.fault : Next → Option Fault
  | .failed _ f => some f
  | _ => none

theorem clusterExecute_mishandles :
    ¬ ∀ (input : ClusterInput) (w : World) (str : Bytes), Sound w → w.trace = [] → w.db.clusterEnabled = true →
      ((Pass.start getKey 0 w).executed id input 1 false 0).outcome = .ok (some (.error str)) →
      (Pass.start getKey 0 w).Handles id 0 input 1 false 0 str := by
  intro h
  have hfault : ((Pass.start getKey 0 (idleWorld masters)).next id 0 (redirecting (bytes "MOVED")) 1 false 0).fault =
      some .malformedRedirection := by decide +kernel
  have hh := (h (redirecting (bytes "MOVED")) (idleWorld masters) (bytes "MOVED") masters_sound rfl (by decide +kernel)
    (outcome_of_errorText (by decide +kernel))).asserts
  cases hn : (Pass.start getKey 0 (idleWorld masters)).next id 0 (redirecting (bytes "MOVED")) 1 false 0 with
  | failed w f =>
    rw [hn] at hfault
    cases hfault
    cases hh w _ hn
  | _ =>
    rw [hn] at hfault
    cases hfault

end VmodRedis.ClusterExecution
