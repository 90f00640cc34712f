import VmodRedis.DatabaseCreation
import VmodRedis.PlanExhaustion
import VmodRedis.PlanOrder
import VmodRedis.RetryBounds

namespace VmodRedis.Planning

open CStrings Database Connections Registry

theorem planOrder_counts {db db' : Db} (h : CountsOnly db db') (now : ℤ) (master : Bool) (slot : ℕ) :
    planOrder db' now master slot = planOrder db now master slot := by
  have hcluster : db'.clusterEnabled = db.clusterEnabled := congrArg Options.clusterEnabled h.same.options
  have hpreferred : preferred db' now master slot = preferred db now master slot := by
    funext s
    simp only [preferred, ownsSlot, healthy, h.server, hcluster]
  have hreserve : reserve db' now master = reserve db now master := by
    funext s
    simp only [reserve, healthy, h.server]
  have hhealthy : healthy db' now = healthy db now := by
    funext s
    simp only [healthy, h.server]
  unfold planOrder Db.allServers
  rw [hpreferred, hreserve, hhealthy, hcluster, h.same.servers]

theorem populateExecutionPlan_servers {input : PlanInput} {heap : Heap} {maxSize : ℕ} {master : Bool} {slot : ℕ}
    {task task' : Task} {db db' : Db} {plan : Plan}
    (hplaced : Buckets.Placed (fun s => (db.server s).bucket) db.servers)
    (h : populateExecutionPlan input heap maxSize master slot task db = .ok (plan, task', db')) :
    plan.servers = [] ∨
      plan.servers = (planOrder db input.probe.now master slot).take (maxSize - plan.contexts.length) := by
  obtain ⟨hplanned, -⟩ := contextsOf_spec (suitableForCommand db heap master slot) input heap maxSize task db
  unfold populateExecutionPlan at h
  generalize contextsOf (suitableForCommand db heap master slot) input heap maxSize task db = scan at h hplanned
  dsimp only at h
  split_ifs at h with ho hw hlt hfits <;> cases h
  · exact Or.inl rfl
  · have hplaced' : Buckets.Placed (fun s => (scan.db.server s).bucket) scan.db.servers := by
      rw [hplanned.counts.server, hplanned.counts.same.servers]
      exact hplaced
    by_cases hroom : pointerSize ≤ input.serversWs
    · obtain ⟨db', he, -⟩ := serversOf_eq hplaced' (Nat.sub_ne_zero_of_lt hlt) (Or.inl hroom)
      right
      rw [he, planOrder_counts hplanned.counts]
      exact List.nil_append _
    · exact Or.inl ((serversOf_spec _ _ _ _ _ _).starved (Nat.not_le.mp hroom))
  · exact Or.inl rfl

def fitting (suitable : ContextId → Bool) (input : PlanInput) (heap : Heap) (maxSize : ℕ) (task : Task) (db : Db) :
    List ContextId :=
  if db.sharedConnections then []
  else if maxSize = 0 then usable suitable input.probe heap db task.contexts
  else (usable suitable input.probe heap db task.contexts).take maxSize

structure EnoughWorkspace (input : PlanInput) (heap : Heap) (maxSize : ℕ) (master : Bool) (slot : ℕ) (task : Task)
    (db : Db) : Prop where
  allocated : input.allocated = true
  contexts : pointerSize * (fitting (suitableForCommand db heap master slot) input heap maxSize task db).length ≤
    input.contextsWs
  servers : pointerSize *
      min (maxSize - (fitting (suitableForCommand db heap master slot) input heap maxSize task db).length)
        (planOrder db input.probe.now master slot).length ≤ input.serversWs

section

variable {suitable : ContextId → Bool} {input : PlanInput} {heap : Heap} {maxSize : ℕ} {task : Task} {db : Db}

theorem usable_eq_nil_of_fitting (maxSize : ℕ) (hshared : db.sharedConnections = false)
    (h : fitting suitable input heap maxSize task db = []) :
    usable suitable input.probe heap db task.contexts = [] := by
  rw [fitting, hshared, if_neg Bool.false_ne_true] at h
  split_ifs at h with hm
  · exact h
  · exact (List.take_eq_nil_iff.mp h).resolve_left hm

theorem not_overflows (hws : pointerSize * (fitting suitable input heap maxSize task db).length ≤ input.contextsWs) :
    ¬ Overflows suitable input heap task db := by
  rintro ⟨hshared, hlow, hne⟩
  apply hne
  apply usable_eq_nil_of_fitting maxSize hshared
  rw [← List.length_eq_zero_iff]
  by_contra hn
  have := Nat.le_mul_of_pos_right pointerSize (Nat.pos_of_ne_zero hn)
  omega

theorem plannable_eq_fitting
    (hws : pointerSize * (fitting suitable input heap maxSize task db).length ≤ input.contextsWs) :
    plannable suitable input heap maxSize task db = fitting suitable input heap maxSize task db := by
  cases hshared : db.sharedConnections with
  | true => simp [plannable, fitting, hshared]
  | false =>
    by_cases hlow : input.contextsWs < pointerSize
    · have hnil : fitting suitable input heap maxSize task db = [] := by
        rw [← List.length_eq_zero_iff]
        by_contra hn
        have := Nat.le_mul_of_pos_right pointerSize (Nat.pos_of_ne_zero hn)
        omega
      rw [hnil, plannable, if_pos (Or.inr hlow)]
    · simp [plannable, fitting, hshared, hlow]

end

theorem populateExecutionPlan_fits {input : PlanInput} {heap : Heap} {maxSize : ℕ} {master : Bool} {slot : ℕ} {task : Task}
    {db : Db} (hplaced : Buckets.Placed (fun s => (db.server s).bucket) db.servers)
    (hroom : EnoughWorkspace input heap maxSize master slot task db) {contexts : List ContextId}
    (hc : fitting (suitableForCommand db heap master slot) input heap maxSize task db = contexts) :
    ∃ task' db', populateExecutionPlan input heap maxSize master slot task db = .ok (⟨contexts, 0,
      (planOrder db input.probe.now master slot).take (maxSize - contexts.length), 0⟩, task', db') := by
  obtain ⟨-, hcontexts, hservers⟩ := hroom
  obtain ⟨hplanned, hover⟩ := contextsOf_spec (suitableForCommand db heap master slot) input heap maxSize task db
  obtain ⟨scan, hscan⟩ : ∃ r, r = contextsOf (suitableForCommand db heap master slot) input heap maxSize task db :=
    ⟨_, rfl⟩
  rw [← hscan] at hplanned hover
  have hfit : scan.planned = contexts := by
    rw [hplanned.contexts, plannable_eq_fitting hcontexts, hc]
  have hno : scan.overflow = false := by
    rw [← Bool.not_eq_true, hover]
    exact not_overflows hcontexts
  have horder := planOrder_counts hplanned.counts input.probe.now master slot
  rw [hc] at hcontexts hservers
  unfold populateExecutionPlan
  rw [← hscan]
  dsimp only
  rw [hno, hfit, if_neg Bool.false_ne_true, if_neg (Nat.not_lt.mpr hcontexts)]
  by_cases hlt : contexts.length < maxSize
  · have hplaced' : Buckets.Placed (fun s => (scan.db.server s).bucket) scan.db.servers := by
      rw [hplanned.counts.server, hplanned.counts.same.servers]
      exact hplaced
    have hw : pointerSize ≤ input.serversWs ∨ planOrder scan.db input.probe.now master slot = [] := by
      rw [horder, ← List.length_eq_zero_iff]
      rcases Nat.eq_zero_or_pos (planOrder db input.probe.now master slot).length with hz | hpos
      · exact Or.inr hz
      · left
        refine (Nat.le_mul_of_pos_right pointerSize ?_).trans hservers
        exact Nat.lt_min.mpr ⟨Nat.sub_pos_of_lt hlt, hpos⟩
    obtain ⟨db', he, -⟩ := serversOf_eq hplaced' (show maxSize - contexts.length ≠ 0 by omega) hw
    rw [horder] at he
    have hfits : ¬ (input.serversWs <
        pointerSize * ((planOrder db input.probe.now master slot).take (maxSize - contexts.length)).length) := by
      rw [List.length_take]
      exact Nat.not_lt.mpr hservers
    rw [if_pos hlt, he, if_neg (by simpa [ServerScan.take] using hfits)]
    exact ⟨_, _, rfl⟩
  · have hnone : maxSize - contexts.length = 0 := by omega
    rw [if_neg hlt, hnone, List.take_zero]
    exact ⟨_, _, rfl⟩

end VmodRedis.Planning

namespace VmodRedis.Execution

open CStrings Replies Database Connections Registry Planning DatabaseCreation

def Attempted (w : World) (r : Executed) : Prop :=
  ∃ events, r.world.trace = events ++ w.trace ∧ .attempt ∈ events

theorem attempts_attempted (sha1 : Bytes → Bytes) (input : ℕ → AttemptInput) (call : Call) {n : ℕ} (i : ℕ) (plan : Plan)
    (argv : Argv) (w : World) (hn : n ≤ call.maxRetries) : Attempted w (attempts sha1 input call n i plan argv w) := by
  obtain ⟨a, ha⟩ : ∃ a, attempt sha1 (input i) call.asking plan argv (w.log .attempt) = a := ⟨_, rfl⟩
  obtain ⟨inner, ht, -⟩ := (attempt_inner sha1 (input i) call.asking plan argv (w.log .attempt)).logs
  rw [ha] at ht
  have htrace : a.world.trace = (inner ++ [.attempt]) ++ w.trace := ht.trans (by simp [World.log])
  rcases attempts_cases sha1 input call n i plan argv w ha with
    ⟨f, -, h⟩ | ⟨-, h⟩ | ⟨reply, -, -, h⟩ | ⟨m, rfl, -, h⟩ <;> rw [h]
  · exact ⟨inner ++ [.attempt], htrace, by simp⟩
  · exact ⟨inner ++ [.attempt], htrace, by simp⟩
  · exact ⟨inner ++ [.attempt], (countCommand_trace _ _ _).trans htrace, by simp⟩
  · obtain ⟨events, he, -⟩ := ClusterExecution.attempts_bounds sha1 input call m (i + 1) a.plan a.argv
      (countCommand (call.maxRetries - (m + 1)) none a.world) (by omega)
    refine ⟨events ++ (inner ++ [.attempt]), ?_, by simp⟩
    rw [he, countCommand_trace, htrace, List.append_assoc, List.append_assoc, List.append_assoc]

theorem redisExecute_attempted (sha1 : Bytes → Bytes) (input : CallInput) (call : Call) (argv : Argv) {retries : ℕ}
    (w : World) (hr : retries ≤ call.maxRetries) {plan : Plan} {task : Task} {db : Db}
    (hp : planExecution input.plan w.heap (maxSize call.maxRetries retries) call.server call.master call.slot w.task
      w.db = .ok (some plan, task, db)) :
    Attempted w (redisExecute sha1 input call argv retries w) ↔ ¬ (plan.contexts = [] ∧ plan.servers = []) := by
  rcases redisExecute_cases sha1 input call argv w hr hp with
    ⟨f, hf, -⟩ | ⟨p, task', db', hp', hempty, h⟩ | ⟨p, task', db', hp', hne, h⟩
  · cases hf
  · cases hp'
    rw [h]
    constructor
    · rintro ⟨events, he, hm⟩ -
      have hevents : [.leave call.maxRetries, .enter retries] = events := List.append_cancel_right he
      rw [← hevents] at hm
      simp at hm
    · exact fun hn => absurd (hempty plan rfl) hn
  · cases hp'
    rw [h]
    refine ⟨fun _ => hne, fun _ => ?_⟩
    obtain ⟨r, hrun⟩ : ∃ r, attempts sha1 input.attempt call (call.maxRetries - retries) 0 plan argv
      (w.planned retries task db) = r := ⟨_, rfl⟩
    obtain ⟨events, he, hm⟩ := attempts_attempted sha1 input.attempt call 0 plan argv (w.planned retries task db)
      (Nat.sub_le call.maxRetries retries)
    rw [hrun] at he ⊢
    have htrace : r.world.trace = (events ++ [.enter retries]) ++ w.trace :=
      he.trans (by rw [List.append_assoc]; rfl)
    rcases leave_cases r with ⟨f, -, hl⟩ | ⟨reply, -, hl⟩
    · rw [hl]
      exact ⟨_, htrace, List.mem_append_left _ hm⟩
    · rw [hl]
      exact ⟨.leave r.retries :: (events ++ [.enter retries]), congrArg (_ :: ·) htrace, by simp [hm]⟩

theorem maxSize_zero {maxRetries : ℕ} (h : maxRetries ≤ uintMax) :
    maxSize maxRetries 0 = if maxRetries = uintMax then 0 else maxRetries + 1 := by
  unfold maxSize uintMax at *
  rw [if_neg (Nat.lt_irrefl 0)]
  split_ifs <;> omega

theorem planExecution_of_populated {input : PlanInput} {heap : Heap} {maxSize : ℕ} {master : Bool} {slot : ℕ}
    {task task' : Task} {db db' : Db} {plan : Plan} (ha : input.allocated = true)
    (h : populateExecutionPlan input heap maxSize master slot task db = .ok (plan, task', db')) :
    planExecution input heap maxSize none master slot task db = .ok (some plan, task', db') := by
  unfold planExecution
  rw [if_pos ha]
  dsimp only
  rw [h]
  rfl

/-- What a standalone database stored as its retries, or a task with `.retries()`, is a VCL integer. -/
theorem redisExecute_attempts_iff (sha1 : Bytes → Bytes) (input : CallInput) (stored : ℤ) (asking master : Bool) (slot : ℕ)
    (argv : Argv) (w : World) (hplaced : Buckets.Placed (fun s => (w.db.server s).bucket) w.db.servers)
    (hcluster : w.db.clusterEnabled = false)
    (heligible : ∃ s, w.db.Registered s ∧ (master = true → (w.db.server s).role ≠ .slave))
    (hroom : EnoughWorkspace input.plan w.heap (maxSize (toUnsigned stored) 0) master slot w.task w.db) :
    ((Attempted w (redisExecute sha1 input ⟨toUnsigned stored, none, asking, master, slot⟩ argv 0 w) ∧
        maxSize (toUnsigned stored) 0 = toUnsigned stored + 1) ↔ toUnsigned stored ≠ uintMax) ∧
      (Attempted w (redisExecute sha1 input ⟨toUnsigned stored, none, asking, master, slot⟩ argv 0 w) ↔
        toUnsigned stored ≠ uintMax ∨ (w.db.sharedConnections = false ∧
          usable (suitableForCommand w.db w.heap master slot) input.plan.probe w.heap w.db w.task.contexts ≠ [])) := by
  have hle : toUnsigned stored ≤ uintMax := toUnsigned_le stored
  have hsize := maxSize_zero hle
  obtain ⟨contexts, hc⟩ : ∃ contexts, fitting (suitableForCommand w.db w.heap master slot) input.plan w.heap
    (maxSize (toUnsigned stored) 0) w.task w.db = contexts := ⟨_, rfl⟩
  obtain ⟨task, db, hplan⟩ := populateExecutionPlan_fits hplaced hroom hc
  have horder : planOrder w.db input.plan.probe.now master slot ≠ [] := by
    obtain ⟨s, hs, hrole⟩ := heligible
    refine List.ne_nil_of_mem (a := s) ?_
    rw [mem_planOrder, Eligible, hcluster]
    exact ⟨hs, hrole⟩
  have hattempted := redisExecute_attempted sha1 input ⟨toUnsigned stored, none, asking, master, slot⟩ argv w
    (Nat.zero_le _) (planExecution_of_populated hroom.allocated hplan)
  dsimp only at hattempted
  rw [hattempted]
  by_cases hmax : toUnsigned stored = uintMax
  · rw [if_pos hmax] at hsize
    rw [hsize] at hc hattempted ⊢
    rw [Nat.zero_sub, List.take_zero]
    refine ⟨by simp [hmax], ?_⟩
    rw [← hc, fitting]
    cases hshared : w.db.sharedConnections <;> simp [hmax]
  · rw [if_neg hmax] at hsize
    have hsome : ¬ (contexts = [] ∧
        (planOrder w.db input.plan.probe.now master slot).take (maxSize (toUnsigned stored) 0 - contexts.length) = []) := by
      rintro ⟨hnil, hservers⟩
      rw [hnil, List.length_nil, Nat.sub_zero, hsize, List.take_eq_nil_iff] at hservers
      exact hservers.elim (Nat.succ_ne_zero _) horder
    exact ⟨iff_of_true ⟨hsome, hsize⟩ hmax, iff_of_true hsome (Or.inl hmax)⟩

def spacious : CallInput := ⟨⟨true, ⟨0, fun _ => 0, fun _ => false⟩, 8, 8⟩, fun _ => refusing⟩

def idle : World := ClusterExecution.idleWorld standalone

theorem idle_enough {retries : ℕ} (h : maxSize retries 0 = 0 ∨ maxSize retries 0 = 1) (master : Bool) (slot : ℕ) :
    EnoughWorkspace spacious.plan idle.heap (maxSize retries 0) master slot idle.task idle.db := by
  have hnil : fitting (suitableForCommand idle.db idle.heap master slot) spacious.plan idle.heap (maxSize retries 0)
      idle.task idle.db = [] := by
    unfold fitting
    split_ifs
    · rfl
    · rfl
    · exact List.take_nil
  refine ⟨rfl, ?_, ?_⟩
  · rw [hnil]
    exact Nat.zero_le _
  · rw [hnil, List.length_nil, Nat.sub_zero]
    have hmin : min (maxSize retries 0) (planOrder idle.db spacious.plan.probe.now master slot).length ≤ 1 :=
      (Nat.min_le_left _ _).trans (by omega)
    exact Nat.mul_le_mul_left pointerSize hmin

theorem redisExecute_attempts_iff_idle :
    Attempted idle (redisExecute id spacious ⟨DatabaseCreation.toUnsigned 0, none, false, true, 0⟩
      (getKeyArgs.map some) 0 idle) :=
  ((redisExecute_attempts_iff id spacious 0 false true 0 (getKeyArgs.map some) idle standalone_fresh.1.placed
    (by decide +kernel) ⟨0, connected_registered, fun _ => by decide +kernel⟩ (idle_enough (Or.inr rfl) true 0)).1.mpr
      (by decide)).1

theorem redisExecute_may_not_attempt :
    ¬ ∀ (stored : ℤ) (input : CallInput) (master : Bool) (w : World), WellPlaced w.db → w.db.clusterEnabled = false →
      (∃ s, w.db.Registered s ∧ (master = true → (w.db.server s).role ≠ .slave)) →
      EnoughWorkspace input.plan w.heap (maxSize (toUnsigned stored) 0) master 0 w.task w.db →
      Attempted w (redisExecute id input ⟨toUnsigned stored, none, false, master, 0⟩ (getKeyArgs.map some) 0 w) := by
  intro h
  obtain ⟨events, he, hm⟩ := h (-1) spacious true idle standalone_fresh.1 (by decide +kernel)
    ⟨0, connected_registered, fun _ => by decide +kernel⟩ (idle_enough (Or.inl (by decide)) true 0)
  have hnone : (redisExecute id spacious ⟨toUnsigned (-1), none, false, true, 0⟩ (getKeyArgs.map some) 0
      idle).world.trace.countP ClusterExecution.isAttempt = 0 := by decide +kernel
  rw [he, List.countP_eq_zero] at hnone
  exact hnone _ (List.mem_append_left _ hm) rfl

end VmodRedis.Execution
