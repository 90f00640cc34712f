import Mathlib.Data.Set.Card
import VmodRedis.DiscoveryTopology
import VmodRedis.Lib.TransitionSystem
import VmodRedis.PlanScans
import VmodRedis.SentinelUpdate

namespace VmodRedis.RegistryInvariant

open CStrings Replies Database Connections Registry Discovery Planning SentinelUpdate TransitionSystem

/-- The operations on the registry of a database. A discovery is a sequence of queries, and what the
other functions do with pools, sickness and counters may happen between any two operations. -/
inductive Step : Db → Db → Prop
  | add (db : Db) (input : AddInput) (rules : List WeightRule) (location : Bytes) (role : Role) :
      Step db (unsafeAddRedisServer input rules location role db).2
  | plan (db db' : Db) (input : PlanInput) (heap : Heap) (maxSize : ℕ) (server : Option ServerId)
      (master : Bool) (slot : ℕ) (task task' : Task) (plan : Option Plan)
      (h : planExecution input heap maxSize server master slot task db = .ok (plan, task', db')) : Step db db'
  | sentinel (db : Db) (inventory : List Discovered) (clock : Bucket → ServerId → ℤ) :
      Step db (unsafeUpdateDbs inventory clock db)
  | discover (db : Db) (clock : ℕ → ℤ) (rules : List WeightRule) (reply : Option Reply) (s : ServerId)
      (hs : db.Registered s) : Step db (unsafeDiscoverSlotsAux clock rules reply s db).2
  | other (db db' : Db) (h : SameRegistry db db') : Step db db'

def registry (options : Options) : System Db where
  init db := db = newVmodRedisDb options
  step := Step

theorem planExecution_retains {input : PlanInput} {heap : Heap} {maxSize : ℕ} {server : Option ServerId}
    {master : Bool} {slot : ℕ} {task task' : Task} {db db' : Db} {plan : Option Plan}
    (h : planExecution input heap maxSize server master slot task db = .ok (plan, task', db'))
    (hw : WellPlaced db) : Retains db db' ∧ WellPlaced db' := by
  have hcounts : ∀ {d : Db}, CountsOnly db d → Retains db d ∧ WellPlaced d := fun hc =>
    ⟨retains_of_same hc.same, hw.same hc.same⟩
  rcases planExecution_cases h with ⟨-, -, -, rfl⟩ | ⟨-, p, -, ⟨s, -, hp⟩ | ⟨-, hp⟩⟩
  · exact ⟨.refl db', hw⟩
  · exact hcounts (populateSimpleExecutionPlan_spec hp).1.counts
  · obtain ⟨dbc, hc, -, -, ⟨-, -, rfl⟩ | ⟨-, -, hs⟩⟩ := populateExecutionPlan_spec hp
    · exact hcounts hc.counts
    · obtain ⟨hr, hwc⟩ := hcounts hc.counts
      exact ⟨hr.trans hs.rotated.retains, hs.rotated.wellPlaced hwc⟩

theorem countDiscovery_retains (done : Bool) (db : Db) : Retains db (countDiscovery done db) := by
  cases done <;> exact ⟨rfl, fun _ hs => hs, fun _ _ => rfl, fun _ _ => rfl, fun _ _ => rfl⟩

theorem countDiscovery_wellPlaced {db : Db} (h : WellPlaced db) (done : Bool) :
    WellPlaced (countDiscovery done db) := by
  cases done <;> exact h.congr rfl rfl rfl rfl (fun _ => rfl) (fun _ => rfl) (fun _ => rfl)

theorem unsafeDiscoverSlotsAux_retains {db : Db} (h : WellPlaced db) (clock : ℕ → ℤ)
    (rules : List WeightRule) (reply : Option Reply) (s : ServerId) :
    Retains db (unsafeDiscoverSlotsAux clock rules reply s db).2 ∧
      WellPlaced (unsafeDiscoverSlotsAux clock rules reply s db).2 := by
  unfold unsafeDiscoverSlotsAux
  split
  · next shards =>
    have hv := (Visited.start h (hostname (db.server s).address) clock).shards rules shards
    exact ⟨hv.retains.trans (countDiscovery_retains _ _), countDiscovery_wellPlaced hv.wellPlaced _⟩
  · exact ⟨countDiscovery_retains false db, countDiscovery_wellPlaced h false⟩

theorem unsafeAddRedisServer_retains {db : Db} (h : WellPlaced db) (input : AddInput)
    (rules : List WeightRule) (location : Bytes) (role : Role) :
    Retains db (unsafeAddRedisServer input rules location role db).2 := by
  rcases unsafeAddRedisServer_spec h input rules location role with ⟨s, db', he, ha, -, -⟩ | ⟨-, he⟩
  · rw [he]
    exact ha.retains
  · rw [he]
    exact retains_of_same (.setStats db _ rfl rfl rfl)

theorem Step.retains {db db' : Db} (hs : Step db db') (h : WellPlaced db) :
    Retains db db' ∧ WellPlaced db' := by
  cases hs with
  | add input rules location role =>
    exact ⟨unsafeAddRedisServer_retains h input rules location role,
      unsafeAddRedisServer_wellPlaced h input rules location role⟩
  | plan _ input heap maxSize server master slot task task' plan hp => exact planExecution_retains hp h
  | sentinel inventory clock => exact unsafeUpdateDbs_spec h inventory clock
  | discover clock rules reply s hs => exact unsafeDiscoverSlotsAux_retains h clock rules reply s
  | other _ hsame => exact ⟨retains_of_same hsame, h.same hsame⟩

theorem reachable_wellPlaced {options : Options} {db : Db} (h : (registry options).Reachable db) :
    WellPlaced db := by
  refine System.invariant (P := WellPlaced) ?_ ?_ h
  · rintro db rfl
    exact newVmodRedisDb_wellPlaced options
  · exact fun db db' _ hw hs => (hs.retains hw).2

theorem steps_retain {db db' : Db} (hs : Relation.ReflTransGen Step db db') (h : WellPlaced db) :
    Retains db db' ∧ WellPlaced db' := by
  induction hs with
  | refl => exact ⟨.refl db, h⟩
  | tail _ hstep ih =>
    obtain ⟨hr, hw⟩ := hstep.retains ih.2
    exact ⟨ih.1.trans hr, hw⟩

theorem serversTotal_eq {db : Db} (h : WellPlaced db) : db.stats.serversTotal = {s | db.Registered s}.ncard := by
  have he : {s | db.Registered s} = ↑db.allServers.toFinset := by
    ext s
    simp [db.mem_allServers]
  rw [he, Set.ncard_coe_finset, List.toFinset_card_of_nodup h.allServers_nodup, h.total]

/-- In every reachable registry, each server is in one list, the one of its own weight and role, and
once; locations are unique; no server is ever lost; the counter is right; and the servers of a
cluster are hosts. -/
theorem registry_consistent {options : Options} {db : Db} (h : (registry options).Reachable db) :
    (∀ s, db.Registered s → ∃! b, s ∈ db.servers b) ∧
      (∀ b, (db.servers b).Nodup ∧ ∀ s ∈ db.servers b, (db.server s).weight = b.1 ∧ (db.server s).role = b.2) ∧
      (∀ s t, db.Registered s → db.Registered t → (db.server s).raw = (db.server t).raw → s = t) ∧
      (∀ db', Relation.ReflTransGen Step db db' → ∀ s, db.Registered s →
        db'.Registered s ∧ (db'.server s).raw = (db.server s).raw) ∧
      db.stats.serversTotal = {s | db.Registered s}.ncard ∧
      (db.clusterEnabled = true → ∀ s, db.Registered s → ∃ host port, (db.server s).address = .host host port) := by
  have hw := reachable_wellPlaced h
  refine ⟨fun s hs => hw.placed.existsUnique hs, fun b => ⟨hw.placed.nodup b, fun s hs => ?_⟩,
    hw.raw_injective, fun db' hsteps s hs => ?_, serversTotal_eq hw, fun hc s hs => ?_⟩
  · have hb := hw.placed.key_eq b s hs
    exact ⟨congrArg Prod.fst hb, congrArg Prod.snd hb⟩
  · have hr := (steps_retain hsteps hw).1
    exact ⟨hr.registered s hs, hr.raw s hs⟩
  · have hhost := hw.hosts hc s hs
    cases ha : (db.server s).address with
    | host host port => exact ⟨host, port, rfl⟩
    | path path =>
      rw [ha] at hhost
      exact absurd hhost Bool.false_ne_true

def resharded : Db :=
  (unsafeDiscoverSlotsAux (fun _ => 0) [] (some (.array sampleShards)) 0
    (unsafeAddRedisServer ⟨⟨0, false, none⟩, 0⟩ [] (bytes "10.0.0.2:6379") .tbd seeded).2).2

theorem registry_consistent_seeded :
    0 ∈ seeded.servers (3, .tbd) ∧ (∃! b, 0 ∈ resharded.servers b) ∧ 0 ∈ resharded.servers (3, .master) ∧
      {s | resharded.Registered s}.ncard = 2 := by
  have hseeded : (registry ⟨0, 0, 0, false, 1, .off, 0, false, true, 0⟩).Reachable seeded :=
    (System.reachable_init rfl).step (.add _ _ _ _ _)
  have hresharded : (registry ⟨0, 0, 0, false, 1, .off, 0, false, true, 0⟩).Reachable resharded :=
    (hseeded.step (.add _ _ _ _ _)).step (.discover _ _ _ _ 0 ((Db.mem_allServers _ 0).mp (by decide +kernel)))
  have hconsistent := registry_consistent hresharded
  refine ⟨by decide +kernel, hconsistent.1 0 ?_, by decide +kernel, hconsistent.2.2.2.2.1.symm.trans (by decide +kernel)⟩
  exact (Db.mem_allServers resharded 0).mp (by decide +kernel)

end VmodRedis.RegistryInvariant
