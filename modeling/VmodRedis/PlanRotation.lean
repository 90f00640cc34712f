import VmodRedis.PlanOrder

namespace VmodRedis.Planning

open CStrings Database Connections Registry RoundRobin

structure PlanCall where
  input : PlanInput
  heap : Heap
  maxSize : ℕ
  task : Task

def populateExecutionPlans (master : Bool) (slot : ℕ) : List PlanCall → Db → Except Fault (List Plan × Db)
  | [], db => .ok ([], db)
  | call :: calls, db => do
    let (plan, _, db) ← populateExecutionPlan call.input call.heap call.maxSize master slot call.task db
    let (plans, db) ← populateExecutionPlans master slot calls db
    pure (plan :: plans, db)

def preferredOf (db : Db) (now : ℤ) (master : Bool) (slot : ℕ) (b : Bucket) : List ServerId :=
  (db.servers b).filter (preferred db now master slot)

section

variable {db db' : Db} {now now' : ℤ} {master : Bool} {slot : ℕ}

def SameHealth (db : Db) (now now' : ℤ) : Prop := ∀ s, db.Registered s → healthy db now' s = healthy db now s

theorem preferred_sameHealth (h : SameHealth db now now') {s : ServerId} (hs : db.Registered s) :
    preferred db now' master slot s = preferred db now master slot s := by
  rw [preferred, preferred, h s hs]

theorem healthy_rotated (h : Rotated db db') (s : ServerId) : healthy db' now s = healthy db now s := by
  rw [healthy, healthy, h.server]

theorem preferred_rotated (h : Rotated db db') (s : ServerId) :
    preferred db' now master slot s = preferred db now master slot s := by
  have hcluster : db'.clusterEnabled = db.clusterEnabled := congrArg Options.clusterEnabled h.options
  simp only [preferred, ownsSlot, healthy, h.server, hcluster]

theorem SameHealth.rotated (hh : SameHealth db now now') (h : Rotated db db') : SameHealth db' now now' := by
  intro s hs
  rw [healthy_rotated h, healthy_rotated h, hh s ((h.registered s).mp hs)]

theorem eligible_rotated (hr : Rotated db db') (hh : SameHealth db now now') (s : ServerId) :
    Eligible db' now' master slot s ↔ Eligible db now master slot s := by
  have hcluster : db'.clusterEnabled = db.clusterEnabled := congrArg Options.clusterEnabled hr.options
  have hpreferred : ∀ t, db.Registered t → preferred db' now' master slot t = preferred db now master slot t := by
    intro t ht
    rw [preferred_rotated hr, preferred_sameHealth hh ht]
  unfold Eligible
  rw [hcluster, hr.server, hr.registered]
  refine and_congr_right fun hs => ?_
  rw [hpreferred s hs]
  have hexists : (∃ t, db'.Registered t ∧ preferred db' now' master slot t = true) ↔
      ∃ t, db.Registered t ∧ preferred db now master slot t = true := by
    apply exists_congr
    intro t
    rw [hr.registered]
    exact and_congr_right fun ht => by rw [hpreferred t ht]
  rw [hexists]

theorem planOrder_length (hplaced : Buckets.Placed (fun s => (db.server s).bucket) db.servers) (hr : Rotated db db')
    (hh : SameHealth db now now') :
    (planOrder db' now' master slot).length = (planOrder db now master slot).length := by
  have hplaced' : Buckets.Placed (fun s => (db'.server s).bucket) db'.servers := by
    rw [hr.server]
    exact hplaced.perm hr.servers
  apply List.Perm.length_eq
  rw [List.perm_ext_iff_of_nodup (planOrder_nodup hplaced') (planOrder_nodup hplaced)]
  intro s
  rw [mem_planOrder, mem_planOrder, eligible_rotated hr hh]

def firstPreferred (db : Db) (now : ℤ) (master : Bool) (slot : ℕ) : Option Bucket :=
  buckets.find? fun b => preferredOf db now master slot b ≠ []

theorem preferredOf_sameHealth (hh : SameHealth db now now') (b : Bucket) :
    preferredOf db now' master slot b = preferredOf db now master slot b :=
  List.filter_congr fun _ hs => preferred_sameHealth hh ⟨b, hs⟩

theorem preferredOf_rotated (hr : Rotated db db') (b : Bucket) :
    (preferredOf db' now master slot b).Perm (preferredOf db now master slot b) := by
  rw [preferredOf, funext (preferred_rotated hr)]
  exact (hr.servers b).filter _

theorem firstPreferred_rotated (hr : Rotated db db') :
    firstPreferred db' now master slot = firstPreferred db now master slot := by
  unfold firstPreferred
  congr 1
  funext b
  rw [decide_eq_decide]
  apply not_congr
  rw [← List.length_eq_zero_iff, ← List.length_eq_zero_iff, (preferredOf_rotated hr b).length_eq]

theorem listed_first (hplaced : Buckets.Placed (fun s => (db.server s).bucket) db.servers) (b : Bucket) :
    listed db now master slot .first b = preferredOf db now master slot b := by
  rw [listed_eq hplaced]
  simp only [considered_first]
  rfl

theorem firstList_eq (hplaced : Buckets.Placed (fun s => (db.server s).bucket) db.servers) :
    firstList db now master slot buckets = firstPreferred db now master slot := by
  simp only [firstList, firstPreferred, listed_first hplaced]

theorem planOrder_head {b : Bucket} (hb : firstPreferred db now master slot = some b) :
    (planOrder db now master slot).head? = (preferredOf db now master slot b).head? := by
  obtain ⟨hne, pre, post, hsplit, hpre⟩ := List.find?_eq_some_iff_append.mp hb
  rw [decide_eq_true_eq] at hne
  have hnil : pre.flatMap (preferredOf db now master slot) = [] := by
    rw [List.flatMap_eq_nil_iff]
    intro c hc
    simpa using hpre c hc
  have hfirst : db.allServers.filter (preferred db now master slot) = preferredOf db now master slot b ++
      post.flatMap (preferredOf db now master slot) := by
    rw [Db.allServers, List.filter_flatMap, hsplit, List.flatMap_append, List.flatMap_cons]
    change pre.flatMap (preferredOf db now master slot) ++ _ = _
    rw [hnil]
    rfl
  have hfound : db.allServers.filter (preferred db now master slot) ≠ [] := by
    rw [hfirst]
    exact fun h => hne (List.append_eq_nil_iff.mp h).1
  have hhead : (db.allServers.filter (preferred db now master slot)).head? = (preferredOf db now master slot b).head? := by
    rw [hfirst, List.head?_append_of_ne_nil _ hne]
  unfold planOrder
  dsimp only
  rw [if_neg hfound]
  split_ifs
  · exact hhead
  · rw [List.head?_append_of_ne_nil _ hfound, hhead]

theorem Turned.preferred {remaining : ℕ} {b : Bucket} (h : Turned now master slot remaining buckets db db')
    (hplaced : Buckets.Placed (fun s => (db.server s).bucket) db.servers) (hr : remaining ≠ 0)
    (hb : firstPreferred db now master slot = some b) :
    db'.servers b = turn (preferred db now master slot) (db.servers b) := by
  have hlisted : listed db now master slot .first b ≠ [] := by
    have hfound := List.find?_some hb
    rw [decide_eq_true_eq] at hfound
    rw [listed_first hplaced]
    exact hfound
  have hlist : listConsidered master b.2 .first = true := by
    by_contra hn
    rw [listed, if_neg hn] at hlisted
    exact hlisted rfl
  rw [h.served hr b ((firstList_eq hplaced).trans hb)]
  apply turn_congr
  intro s hs
  have hrole : (db.server s).role = b.2 := congrArg Prod.snd (hplaced.key_eq b s hs)
  rw [← considered_first, hrole, hlist, Bool.true_and]

end

theorem populateExecutionPlans_served {now : ℤ} {master : Bool} {slot : ℕ} {calls : List PlanCall} {db : Db} {b : Bucket}
    (hplaced : Buckets.Placed (fun s => (db.server s).bucket) db.servers) (hshared : db.sharedConnections = true)
    (hhealth : ∀ call ∈ calls, SameHealth db now call.input.probe.now) (hsize : ∀ call ∈ calls, 1 ≤ call.maxSize)
    (hroom : ∀ call ∈ calls,
      pointerSize * min call.maxSize (planOrder db now master slot).length ≤ call.input.serversWs)
    (hb : firstPreferred db now master slot = some b) :
    ∃ plans db', populateExecutionPlans master slot calls db = .ok (plans, db') ∧
      plans.map (·.servers.head?) = served (preferred db now master slot) calls.length (db.servers b) ∧
      Rotated db db' := by
  induction calls generalizing db with
  | nil => exact ⟨[], db, rfl, rfl, .refl db⟩
  | cons call calls ih =>
    have hh := hhealth call List.mem_cons_self
    have hlength : (planOrder db call.input.probe.now master slot).length = (planOrder db now master slot).length :=
      planOrder_length hplaced (.refl db) hh
    have hfirst : firstPreferred db call.input.probe.now master slot = some b := by
      simp only [firstPreferred, preferredOf_sameHealth hh]
      exact hb
    obtain ⟨next, hplan, hturned⟩ := populateExecutionPlan_eq call.heap call.task hplaced hshared
      (hsize call List.mem_cons_self) (by rw [hlength]; exact hroom call List.mem_cons_self)
    have hr := hturned.rotated
    have hplaced' : Buckets.Placed (fun s => (next.server s).bucket) next.servers := by
      rw [hr.server]
      exact hplaced.perm hr.servers
    have hturn : next.servers b = turn (preferred db now master slot) (db.servers b) := by
      rw [hturned.preferred hplaced (Nat.one_le_iff_ne_zero.mp (hsize call List.mem_cons_self)) hfirst]
      exact turn_congr fun s hs => preferred_sameHealth hh ⟨b, hs⟩
    obtain ⟨plans, db', hplans, hserved, hr'⟩ := ih hplaced'
      ((congrArg Options.sharedConnections hr.options).trans hshared)
      (fun c hc => (hhealth c (List.mem_cons_of_mem call hc)).rotated hr)
      (fun c hc => hsize c (List.mem_cons_of_mem call hc))
      (fun c hc => by
        rw [planOrder_length hplaced hr fun _ _ => rfl]
        exact hroom c (List.mem_cons_of_mem call hc))
      ((firstPreferred_rotated hr).trans hb)
    refine ⟨⟨[], 0, (planOrder db call.input.probe.now master slot).take call.maxSize, 0⟩ :: plans, db', ?_, ?_,
      hr.trans hr'⟩
    · rw [populateExecutionPlans, hplan]
      change (populateExecutionPlans master slot calls next >>= _) = _
      rw [hplans]
      rfl
    · rw [List.map_cons, hserved, List.length_cons, served, hturn, funext (preferred_rotated hr)]
      congr 1
      dsimp only
      rw [List.head?_take, if_neg (Nat.one_le_iff_ne_zero.mp (hsize call List.mem_cons_self)), planOrder_head hfirst,
        preferredOf_sameHealth hh, preferredOf, List.head?_filter]

/-- Consecutive plans take turns: each server of the list that serves them heads one plan. -/
theorem populateExecutionPlans_round (now : ℤ) (master : Bool) (slot : ℕ) (calls : List PlanCall) (db : Db) (b : Bucket)
    (hplaced : Buckets.Placed (fun s => (db.server s).bucket) db.servers) (hshared : db.sharedConnections = true)
    (hhealth : ∀ call ∈ calls, SameHealth db now call.input.probe.now) (hsize : ∀ call ∈ calls, 1 ≤ call.maxSize)
    (hroom : ∀ call ∈ calls,
      pointerSize * min call.maxSize (planOrder db now master slot).length ≤ call.input.serversWs)
    (hb : firstPreferred db now master slot = some b)
    (hn : calls.length = (preferredOf db now master slot b).length) :
    ∃ plans db', populateExecutionPlans master slot calls db = .ok (plans, db') ∧
      plans.map (·.servers.head?) = (preferredOf db now master slot b).map some ∧
      (∀ s ∈ preferredOf db now master slot b, (plans.map (·.servers.head?)).count (some s) = 1) ∧
      ∀ c, (db'.servers c).Perm (db.servers c) := by
  obtain ⟨plans, db', hplans, hserved, hr⟩ := populateExecutionPlans_served hplaced hshared hhealth hsize hroom hb
  have hheads : plans.map (·.servers.head?) = (preferredOf db now master slot b).map some := by
    rw [hserved, hn]
    exact served_round _ _
  refine ⟨plans, db', hplans, hheads, fun s hs => ?_, hr.servers⟩
  rw [hheads]
  apply List.count_eq_one_of_mem
  · exact ((hplaced.nodup b).filter _).map (Option.some_injective ServerId)
  · exact List.mem_map_of_mem hs

def roomyCall (maxSize : ℕ) : PlanCall := ⟨roomy, fun _ => ⟨0, 0, false, 0, 0⟩, maxSize, ⟨0, []⟩⟩

theorem populateExecutionPlans_round_replicated :
    ∃ plans db', populateExecutionPlans false 0 [roomyCall 1, roomyCall 2] replicated = .ok (plans, db') ∧
      plans.map (·.servers.head?) = (preferredOf replicated roomy.probe.now false 0 (3, .slave)).map some := by
  have hcalls : ∀ call ∈ [roomyCall 1, roomyCall 2], call.input = roomy ∧ 1 ≤ call.maxSize ∧ call.maxSize ≤ 2 := by
    intro call hc
    rcases List.mem_cons.mp hc with rfl | hc
    · exact ⟨rfl, le_refl 1, by decide⟩
    · rw [List.mem_singleton.mp hc]
      exact ⟨rfl, by decide, le_refl 2⟩
  have hroom : ∀ call ∈ [roomyCall 1, roomyCall 2], pointerSize *
      min call.maxSize (planOrder replicated roomy.probe.now false 0).length ≤ call.input.serversWs := by
    intro call hc
    rw [(hcalls call hc).1]
    refine (Nat.mul_le_mul_left pointerSize ?_).trans replicated_room
    exact Nat.le_min.mpr ⟨(Nat.min_le_left _ _).trans (hcalls call hc).2.2, Nat.min_le_right _ _⟩
  obtain ⟨plans, db', hplans, hheads, -⟩ := populateExecutionPlans_round roomy.probe.now false 0
    [roomyCall 1, roomyCall 2] replicated (3, .slave) replicated_placed (by decide +kernel)
    (fun call hc s _ => by rw [(hcalls call hc).1]) (fun call hc => (hcalls call hc).2.1) hroom (by decide +kernel)
    (by decide +kernel)
  exact ⟨plans, db', hplans, hheads⟩

end VmodRedis.Planning
