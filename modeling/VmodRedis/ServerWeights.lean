import VmodRedis.SentinelReport
import VmodRedis.WorldInvariant

namespace VmodRedis.Registry

open CStrings Replies Database Connections Planning Discovery DiscoveryWalk RegistryInvariant SentinelUpdate

variable {rules : List WeightRule} {db db' : Db}

def Weighted (rules : List WeightRule) (db : Db) : Prop :=
  ∀ s, db.Registered s → (db.server s).weight = serverWeight rules (db.server s)

theorem serverWeight_congr (rules : List WeightRule) {v v' : Server} (hraw : v'.raw = v.raw)
    (haddress : v'.address = v.address) : serverWeight rules v' = serverWeight rules v := by
  simp only [serverWeight, hraw, haddress]

theorem weighted_new (rules : List WeightRule) (options : Options) : Weighted rules (newVmodRedisDb options) := by
  rintro s ⟨b, hb⟩
  exact absurd hb List.not_mem_nil

namespace Weighted

theorem grown (h : Weighted rules db) (hr : Retains db db') (hnew : ∀ s, db'.Registered s → ¬ db.Registered s →
    (db'.server s).weight = serverWeight rules (db'.server s)) : Weighted rules db' := by
  intro s hs
  by_cases hold : db.Registered s
  · rw [hr.weight s hold, serverWeight_congr rules (hr.raw s hold) (hr.address s hold)]
    exact h s hold
  · exact hnew s hs hold

theorem kept (h : Weighted rules db) (hr : Retains db db') (hreg : ∀ s, db'.Registered s → db.Registered s) :
    Weighted rules db' :=
  h.grown hr fun s hs hn => absurd (hreg s hs) hn

theorem same (h : Weighted rules db) (hs : SameRegistry db db') : Weighted rules db' :=
  h.kept (retains_of_same hs) fun s => (hs.registered s).mp

theorem slots (h : Weighted rules db) (hs : SlotsOnly db db') : Weighted rules db' :=
  h.kept hs.retains fun s => (hs.registered s).mp

end Weighted

theorem createServer_weight (input : AddInput) (rules : List WeightRule) (v : Server) (db : Db) :
    ((createServer input rules v db).2.server db.nextServer).weight =
      serverWeight rules ((createServer input rules v db).2.server db.nextServer) := by
  have hsame : ∀ (d : Db) (v : Server) (r : Role), ((d.setServer db.nextServer { v with
      role := r, weight := serverWeight rules v }).server db.nextServer).weight =
        serverWeight rules ((d.setServer db.nextServer { v with role := r, weight := serverWeight rules v }).server
          db.nextServer) := by
    intro d v r
    rw [Db.setServer_server, Function.update_self]
    exact serverWeight_congr rules rfl rfl
  exact hsame _ _ _

theorem unsafeAddRedisServer_weighted (hw : WellPlaced db) (h : Weighted rules db) (input : AddInput) (location : Bytes)
    (role : Role) : Weighted rules (unsafeAddRedisServer input rules location role db).2 := by
  apply h.grown (unsafeAddRedisServer_retains hw input rules location role)
  intro s hs hn
  unfold unsafeAddRedisServer at hs ⊢
  cases hf : findServer db location with
  | none =>
    cases hv : newRedisServer db location role with
    | none =>
      simp only [hf, hv] at hs
      exact absurd hs hn
    | some v =>
      simp only [hf, hv] at hs ⊢
      obtain ⟨-, hadded, -, -⟩ := createServer_spec hw input rules hf hv
      obtain hold | rfl := (hadded.registered s).mp hs
      · exact absurd hold hn
      · exact createServer_weight input rules v db
  | some p =>
    obtain ⟨b, t⟩ := p
    simp only [hf] at hs
    obtain ⟨hb, -⟩ := findServer_some hf
    obtain hold | rfl := ((updateServer_spec hw input role hb).1.registered s).mp hs
    · exact absurd hold hn
    · exact absurd ⟨b, hb⟩ hn

def Settled (rules : List WeightRule) (db : Db) : Prop := WellPlaced db ∧ Weighted rules db

theorem Settled.same (h : Settled rules db) (hs : SameRegistry db db') : Settled rules db' := ⟨h.1.same hs, h.2.same hs⟩

theorem Settled.slots (h : Settled rules db) (hs : SlotsOnly db db') : Settled rules db' :=
  ⟨hs.wellPlaced h.1, h.2.slots hs⟩

theorem Settled.countDiscovery (h : Settled rules db) (done : Bool) : Settled rules (countDiscovery done db) := by
  refine ⟨countDiscovery_wellPlaced h.1 done, h.2.kept (countDiscovery_retains done db) fun s hs => ?_⟩
  cases done
  · exact hs
  · exact hs

theorem Settled.new (rules : List WeightRule) (options : Options) : Settled rules (newVmodRedisDb options) :=
  ⟨newVmodRedisDb_wellPlaced options, weighted_new rules options⟩

theorem unsafeAddRedisServer_settled (h : Settled rules db) (input : AddInput) (location : Bytes) (role : Role) :
    Settled rules (unsafeAddRedisServer input rules location role db).2 :=
  ⟨unsafeAddRedisServer_wellPlaced h.1 input rules location role, unsafeAddRedisServer_weighted h.1 h.2 input location role⟩

theorem unsafeAddNode_settled (h : Settled rules db) (now : ℤ) (node : Node) :
    Settled rules (unsafeAddNode now rules node db).2 := by
  have hadd := unsafeAddRedisServer_settled h ⟨⟨now, false, none⟩, now⟩ node.location node.role
  obtain ⟨⟨s, d⟩, hr⟩ : ∃ r, r = unsafeAddRedisServer ⟨⟨now, false, none⟩, now⟩ rules node.location node.role db :=
    ⟨_, rfl⟩
  rw [← hr] at hadd
  unfold unsafeAddNode
  by_cases hlong : 256 ≤ node.location.length
  · rw [if_pos hlong]
    exact h
  · rw [if_neg hlong, ← hr]
    cases s with
    | none => exact hadd
    | some s =>
      cases hh : node.healthy with
      | true => simpa [hh] using hadd
      | false => simpa [hh] using hadd.same (flagSickness_only now s d).same

theorem discoverNode_settled {topology : Topology} (h : Settled rules topology.db) (host : Bytes)
    (ranges : List SlotRange) (reply : Reply) : Settled rules (discoverNode rules host ranges topology reply).db := by
  unfold discoverNode
  cases parseNode topology.db.tls host reply with
  | none => exact h
  | some node =>
    have hadd := unsafeAddNode_settled h (topology.clock 0) node
    obtain ⟨⟨s, d⟩, hr⟩ : ∃ r, r = unsafeAddNode (topology.clock 0) rules node topology.db := ⟨_, rfl⟩
    dsimp only
    rw [← hr] at hadd ⊢
    cases s with
    | none => exact hadd
    | some s =>
      apply Settled.slots _ (registerRanges_only s ranges _)
      split_ifs
      · exact hadd.slots (unsafeResetSlots_only d)
      · exact hadd

theorem discoverShard_settled {topology : Topology} (h : Settled rules topology.db) (host : Bytes) (shard : Reply) :
    Settled rules (discoverShard rules host topology shard).db := by
  unfold discoverShard
  cases parseShard shard with
  | none => exact h
  | some fields =>
    obtain ⟨slots, nodes⟩ := fields
    dsimp only
    induction nodes generalizing topology with
    | nil => exact h
    | cons node nodes ih => exact ih (discoverNode_settled h host _ node)

theorem unsafeDiscoverSlotsAux_settled (h : Settled rules db) (clock : ℕ → ℤ) (reply : Option Reply) (s : ServerId) :
    Settled rules (unsafeDiscoverSlotsAux clock rules reply s db).2 := by
  have hshards : ∀ (host : Bytes) (shards : List Reply) (topology : Topology), Settled rules topology.db →
      Settled rules (shards.foldl (discoverShard rules host) topology).db := by
    intro host shards
    induction shards with
    | nil => exact fun _ h => h
    | cons shard shards ih => exact fun topology h => ih _ (discoverShard_settled h host shard)
  unfold unsafeDiscoverSlotsAux
  split
  · exact (hshards _ _ _ h).countDiscovery _
  · exact h.countDiscovery false

theorem unsafeDiscoverSlots_keeps {J : Db → Prop} {input : DiscoveryInput}
    (hquery : ∀ db clock n s, J db → db.Registered s →
      J (unsafeDiscoverSlotsAux clock input.rules (input.reply n s) s db).2) {fuel : ℕ} {start : ServerId} {r : Bool × Walk}
    (h : J db) (hs : db.Registered start) (hr : unsafeDiscoverSlots fuel input start db = some r) : J r.2.db := by
  have hstep : ∀ (s : ServerId) (walk : Walk), J walk.db → walk.db.Registered s → J (query input s walk).2.db :=
    fun s walk hw hs => hquery walk.db _ _ s hw hs
  have hnext : ∀ (db : Db) (s t : ServerId), next db s = some t → db.Registered t :=
    fun db s t ht => ⟨_, Buckets.successor_mem ht⟩
  have hlist : ∀ (n : ℕ) (s : Option ServerId) (walk : Walk) (r : Bool × Walk), J walk.db →
      (∀ t, s = some t → walk.db.Registered t) → visitFrom input start n s walk = some r → J r.2.db := by
    intro n
    induction n with
    | zero =>
      intro s walk r hw hs hv
      cases s with
      | none =>
        obtain rfl := Option.some.inj hv
        exact hw
      | some s => cases hv
    | succ n ih =>
      intro s walk r hw hs hv
      cases s with
      | none =>
        obtain rfl := Option.some.inj hv
        exact hw
      | some s =>
        simp only [visitFrom] at hv
        split_ifs at hv with hne hdone
        · obtain rfl := Option.some.inj hv
          exact hstep s walk hw (hs s rfl)
        · exact ih _ _ _ (hstep s walk hw (hs s rfl)) (hnext _ s) hv
        · exact ih _ _ _ hw (hnext _ s) hv
  have hlists : ∀ (bs : List Bucket) (walk : Walk) (r : Bool × Walk), J walk.db →
      visitBuckets input start fuel bs walk = some r → J r.2.db := by
    intro bs
    induction bs with
    | nil =>
      intro walk r hw hv
      obtain rfl := Option.some.inj hv
      exact hw
    | cons b bs ih =>
      intro walk r hw hv
      have hhead : ∀ t, (walk.db.servers b).head? = some t → walk.db.Registered t :=
        fun t ht => ⟨b, List.mem_of_head? ht⟩
      obtain ⟨v, hvisit⟩ : ∃ v, visitFrom input start fuel (walk.db.servers b).head? walk = v := ⟨_, rfl⟩
      rw [visitBuckets, hvisit] at hv
      obtain _ | ⟨_ | _, walk'⟩ := v
      · cases hv
      · exact ih walk' r (hlist _ _ _ _ hw hhead hvisit) hv
      · cases hv
        exact hlist _ _ _ _ hw hhead hvisit
  simp only [unsafeDiscoverSlots] at hr
  split_ifs at hr with hdone
  · obtain rfl := Option.some.inj hr
    exact hstep start ⟨db, []⟩ h hs
  · exact hlists _ _ _ (hstep start ⟨db, []⟩ h hs) hr

theorem unsafeDiscoverSlots_settled {input : DiscoveryInput} (hrules : input.rules = rules) (h : Settled rules db)
    {fuel : ℕ} {start : ServerId} {r : Bool × Walk} (hs : db.Registered start)
    (hr : unsafeDiscoverSlots fuel input start db = some r) : Settled rules r.2.db := by
  subst hrules
  apply unsafeDiscoverSlots_keeps _ h hs hr
  exact fun db clock n s h _ => unsafeDiscoverSlotsAux_settled h clock _ s

theorem planExecution_settled {input : PlanInput} {heap : Heap} {maxSize : ℕ} {server : Option ServerId} {master : Bool}
    {slot : ℕ} {task task' : Task} {plan : Option Plan} (h : Settled rules db)
    (hp : planExecution input heap maxSize server master slot task db = .ok (plan, task', db')) : Settled rules db' := by
  have hcounts : ∀ {d : Db}, CountsOnly db d → Settled rules d := fun hc => h.same hc.same
  rcases planExecution_cases hp with ⟨-, -, -, rfl⟩ | ⟨-, p, -, ⟨s, -, hp⟩ | ⟨-, hp⟩⟩
  · exact h
  · exact hcounts (populateSimpleExecutionPlan_spec hp).1.counts
  · obtain ⟨dbc, hc, -, -, ⟨-, -, rfl⟩ | ⟨-, -, hs⟩⟩ := populateExecutionPlan_spec hp
    · exact hcounts hc.counts
    · have hd := hcounts hc.counts
      exact ⟨hs.rotated.wellPlaced hd.1, hd.2.kept hs.rotated.retains fun s => (hs.rotated.registered s).mp⟩

theorem unsafeUpdateDbs_settled (h : Settled rules db) (inventory : List Discovered) (clock : Bucket → ServerId → ℤ) :
    Settled rules (unsafeUpdateDbs inventory clock db) := by
  obtain ⟨hr, hw⟩ := unsafeUpdateDbs_spec h.1 inventory clock
  exact ⟨hw, h.2.kept hr fun s => unsafeUpdateDbs_registered inventory clock h.1⟩

end VmodRedis.Registry
