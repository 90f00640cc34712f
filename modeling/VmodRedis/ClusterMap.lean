import VmodRedis.CommandRule
import VmodRedis.ServerWeights

namespace VmodRedis.ClusterRouting

open CStrings Replies Database Connections Registry Planning Discovery DiscoveryWalk

abbrev ClusterMap := Bytes → ℕ → Prop

def nobody : ClusterMap := fun _ _ => False

def announced (tls : Tls) (host : Bytes) (shards : List Reply) : ClusterMap := Assigns tls host shards

open Classical in
/-- The map after a reply: one that gives no slot to anybody does not count. -/
noncomputable def learn (tls : Tls) (host : Bytes) (m : ClusterMap) : Option Reply → ClusterMap
  | some (.array shards) => if ∃ location k, announced tls host shards location k then announced tls host shards else m
  | _ => m

/-- The servers have the slots that the map gives to their locations, and all its locations are registered. -/
structure Mirrors (m : ClusterMap) (db : Db) : Prop where
  slots : ∀ s, ∀ k < nredisClusterSlots, (db.server s).slots k = true ↔ db.Registered s ∧ m (db.server s).raw k
  owners : ∀ location k, m location k → ∃ s, db.Registered s ∧ (db.server s).raw = location

variable {m : ClusterMap} {db db' : Db}

theorem mirrors_nobody (options : Options) : Mirrors nobody (newVmodRedisDb options) where
  slots s k _ := by simp [newVmodRedisDb, Server.blank, nobody]
  owners _ _ h := h.elim

theorem Mirrors.congr (h : Mirrors m db) (hregistered : ∀ s, db'.Registered s ↔ db.Registered s)
    (hraw : ∀ s, (db'.server s).raw = (db.server s).raw) (hslots : ∀ s, (db'.server s).slots = (db.server s).slots) :
    Mirrors m db' where
  slots s k hk := by rw [hslots, hregistered, hraw, h.slots s k hk]
  owners location k hm := by
    obtain ⟨s, hs, rfl⟩ := h.owners location k hm
    exact ⟨s, (hregistered s).mpr hs, hraw s⟩

theorem Mirrors.same (h : Mirrors m db) (hs : SameRegistry db db') : Mirrors m db' :=
  h.congr hs.registered hs.raw hs.slots

theorem Mirrors.counted (h : Mirrors m db) (done : Bool) : Mirrors m (countDiscovery done db) :=
  h.congr (fun s => countDiscovery_registered done db s) (fun s => by rw [countDiscovery_server])
    (fun s => by rw [countDiscovery_server])

theorem Mirrors.not_of_new (h : Mirrors m db) (hr : Retains db db') (hw : WellPlaced db') {s : ServerId}
    (hs : db'.Registered s) (hn : ¬ db.Registered s) (k : ℕ) : ¬ m (db'.server s).raw k := by
  intro hm
  obtain ⟨u, hu, hraw⟩ := h.owners _ k hm
  have hus : u = s := by
    apply hw.raw_injective u s (hr.registered u hu) hs
    rw [hr.raw u hu, hraw]
  exact hn (hus ▸ hu)

theorem Mirrors.added (h : Mirrors m db) {s : ServerId} (ha : Added db s db') (hw : WellPlaced db') : Mirrors m db' where
  slots t k hk := by
    by_cases hts : t = s
    · subst hts
      by_cases ht : db.Registered t
      · obtain ⟨hraw, -, -, hslots, -⟩ := ha.kept ht
        rw [hslots, hraw, h.slots t k hk, ha.registered]
        simp [ht]
      · have hnone := h.not_of_new ha.retains hw ((ha.registered t).mpr (Or.inr rfl)) ht k
        rw [(ha.created ht).2.1]
        simp [hnone]
    · rw [ha.others t hts, h.slots t k hk, ha.registered]
      simp [hts]
  owners location k hm := by
    obtain ⟨t, ht, rfl⟩ := h.owners location k hm
    exact ⟨t, (ha.registered t).mpr (Or.inl ht), ha.retains.raw t ht⟩

theorem unsafeAddRedisServer_mirrors (hw : WellPlaced db) (h : Mirrors m db) (input : AddInput) (rules : List WeightRule)
    (location : Bytes) (role : Role) : Mirrors m (unsafeAddRedisServer input rules location role db).2 := by
  obtain ⟨s, d, he, ha, hd, -⟩ | ⟨-, he⟩ := unsafeAddRedisServer_spec hw input rules location role
  · rw [he]
    exact h.added ha hd
  · rw [he]
    exact h.same (.setStats _ _ rfl rfl rfl)

structure Untouched (db : Db) (topology : Topology) : Prop where
  wellPlaced : WellPlaced topology.db
  outside : ∀ s, ¬ topology.db.Registered s → (topology.db.server s).slots = (db.server s).slots
  fresh : topology.reset = false → ∀ s, topology.db.Registered s → ¬ db.Registered s → ∀ k,
    (topology.db.server s).slots k = false

theorem registerNode_outside (ranges : List SlotRange) (first : Bool) {s t : ServerId} (ht : ¬ db.Registered t)
    (hs : db.Registered s) : ((registerNode ranges first s db).server t).slots = (db.server t).slots := by
  have hne : t ≠ s := by
    rintro rfl
    exact ht hs
  have hreset : ∀ (l : List ServerId) (d : Db), t ∉ l → ((l.foldl (fun db s => db.setServer s { db.server s with
      slots := fun k => if k < nredisClusterSlots then false else (db.server s).slots k }) d).server t) = d.server t := by
    intro l
    induction l with
    | nil => simp
    | cons u l ih =>
      intro d hm
      rw [List.mem_cons, not_or] at hm
      rw [List.foldl_cons, ih _ hm.2]
      simp [hm.1]
  unfold registerNode
  rw [registerRanges_of_ne hne]
  cases first with
  | false => rfl
  | true =>
    have hmem : t ∉ db.allServers := (db.mem_allServers t).not.mpr ht
    simp only [unsafeResetSlots, if_true, hreset _ db hmem]

theorem Untouched.node {topology : Topology} (h : Untouched db topology) (rules : List WeightRule) (host : Bytes)
    (ranges : List SlotRange) (reply : Reply) : Untouched db (discoverNode rules host ranges topology reply) := by
  unfold discoverNode
  cases parseNode topology.db.tls host reply with
  | none => exact h
  | some node =>
    obtain ⟨-, he⟩ | ⟨-, s, d, he, ha, hw, -⟩ := unsafeAddNode_spec h.wellPlaced (topology.clock 0) rules node
    · simp only [he]
      exact ⟨h.wellPlaced, h.outside, h.fresh⟩
    · simp only [he]
      have hs : d.Registered s := (ha.registered s).mpr (Or.inr rfl)
      have honly := registerNode_only ranges (!ranges.isEmpty && !topology.reset) s d
      refine ⟨honly.wellPlaced hw, fun t ht => ?_, fun hreset t ht hn k => ?_⟩
      · have htd : ¬ d.Registered t := (honly.registered t).not.mp ht
        have hts : t ≠ s := by
          rintro rfl
          exact htd hs
        have htt : ¬ topology.db.Registered t := fun hr => htd ((ha.registered t).mpr (Or.inl hr))
        refine (registerNode_outside ranges _ htd hs).trans ?_
        rw [ha.others t hts, h.outside t htt]
      · have hnone : ranges = [] ∧ topology.reset = false := by
          cases hr : topology.reset <;> cases ranges <;> simp_all
        obtain ⟨rfl, hr⟩ := hnone
        have htd : d.Registered t := (honly.registered t).mp ht
        change (d.server t).slots k = false
        by_cases htt : topology.db.Registered t
        · have hkept : (d.server t).slots = (topology.db.server t).slots := by
            by_cases hts : t = s
            · subst hts
              exact (ha.kept htt).2.2.2.1
            · rw [ha.others t hts]
          rw [hkept]
          exact h.fresh hr t htt hn k
        · obtain rfl : t = s := ((ha.registered t).mp htd).resolve_left htt
          rw [(ha.created htt).2.1]

theorem Untouched.shard {topology : Topology} (h : Untouched db topology) (rules : List WeightRule) (host : Bytes)
    (shard : Reply) : Untouched db (discoverShard rules host topology shard) := by
  unfold discoverShard
  cases parseShard shard with
  | none => exact h
  | some fields =>
    obtain ⟨slots, nodes⟩ := fields
    dsimp only
    induction nodes generalizing topology with
    | nil => exact h
    | cons node nodes ih => exact ih (h.node rules host _ node)

theorem Untouched.shards {topology : Topology} (h : Untouched db topology) (rules : List WeightRule) (host : Bytes)
    (shards : List Reply) : Untouched db (shards.foldl (discoverShard rules host) topology) := by
  induction shards generalizing topology with
  | nil => exact h
  | cons shard shards ih => exact ih (h.shard rules host shard)

theorem learn_mirrors (hw : WellPlaced db) (h : Mirrors m db) (clock : ℕ → ℤ) (rules : List WeightRule)
    (reply : Option Reply) (s : ServerId) : Mirrors (learn db.tls (hostname (db.server s).address) m reply)
      (unsafeDiscoverSlotsAux clock rules reply s db).2 := by
  obtain _ | r := reply
  · exact h.counted false
  cases r with
  | array shards =>
    have hv := (Visited.start hw (hostname (db.server s).address) clock).shards rules shards
    have hstart : Untouched db ⟨db, 0, false, clock⟩ := ⟨hw, fun _ _ => rfl, fun _ _ ht hn => absurd ht hn⟩
    have hu := hstart.shards rules (hostname (db.server s).address) shards
    obtain ⟨topology, ht⟩ : ∃ t, t = shards.foldl (discoverShard rules (hostname (db.server s).address))
      ⟨db, 0, false, clock⟩ := ⟨_, rfl⟩
    rw [List.nil_append, ← ht] at hv
    rw [← ht] at hu
    simp only [learn, unsafeDiscoverSlotsAux, ← ht, announced, exists_assigns_iff, ← hv.reset]
    apply Mirrors.counted
    have houtside : ∀ t, ¬ topology.db.Registered t → ∀ k < nredisClusterSlots,
        ¬ (topology.db.server t).slots k = true := by
      intro t hn k hk hslot
      rw [hu.outside t hn, h.slots t k hk] at hslot
      exact hn (hv.retains.registered t hslot.1)
    by_cases hreset : topology.reset = true
    · rw [if_pos hreset]
      refine ⟨fun t k hk => ?_, ?_⟩
      · by_cases hr : topology.db.Registered t
        · rw [hv.registered hreset t hr k hk]
          simp only [hr, true_and]
          exact assigns_iff.symm
        · simp [houtside t hr k hk, hr]
      · intro location k hm
        obtain ⟨v, hmem, hadds, -⟩ := assigns_iff.mp hm
        exact hv.known v hmem location hadds
    · rw [if_neg hreset]
      have hkeep := Bool.eq_false_iff.mpr hreset
      refine ⟨fun t k hk => ?_, fun location k hm => ?_⟩
      · by_cases hr : topology.db.Registered t
        · by_cases hold : db.Registered t
          · rw [hv.kept hkeep t hold, hv.retains.raw t hold, h.slots t k hk]
            simp [hr, hold]
          · have hnone := h.not_of_new hv.retains hv.wellPlaced hr hold k
            simp [hu.fresh hkeep t hr hold k, hnone]
        · simp [houtside t hr k hk, hr]
      · obtain ⟨t, ht, rfl⟩ := h.owners location k hm
        exact ⟨t, hv.retains.registered t ht, hv.retains.raw t ht⟩
  | _ => exact h.counted false

variable {Offered : ServerId → Reply → Prop}

/-- From `db` to `db'` the map stays, or is replaced as a whole by the one in a reply that a registered node offered. -/
structure Learns (Offered : ServerId → Reply → Prop) (db db' : Db) : Prop where
  wellPlaced : WellPlaced db'
  retains : Retains db db'
  learnt : (∀ m, Mirrors m db → Mirrors m db') ∨ ∃ s shards, db'.Registered s ∧ Offered s (.array shards) ∧
    ∀ m, Mirrors m db → Mirrors (announced db'.tls (hostname (db'.server s).address) shards) db'

theorem Learns.keep (hw : WellPlaced db') (hr : Retains db db') (h : ∀ m, Mirrors m db → Mirrors m db') :
    Learns Offered db db' := ⟨hw, hr, Or.inl h⟩

theorem announced_retained (h : Retains db db') {s : ServerId} (hs : db.Registered s) (shards : List Reply) :
    announced db'.tls (hostname (db'.server s).address) shards = announced db.tls (hostname (db.server s).address) shards := by
  rw [show db'.tls = db.tls from congrArg Options.tls h.options, h.address s hs]

theorem Learns.trans {db'' : Db} (h : Learns Offered db db') (h' : Learns Offered db' db'') : Learns Offered db db'' := by
  refine ⟨h'.wellPlaced, h.retains.trans h'.retains, ?_⟩
  obtain hkeep | ⟨s, shards, hs, hoffered, hlearnt⟩ := h.learnt
  · obtain hkeep' | ⟨s, shards, hs, hoffered, hlearnt⟩ := h'.learnt
    · exact Or.inl fun m hm => hkeep' m (hkeep m hm)
    · exact Or.inr ⟨s, shards, hs, hoffered, fun m hm => hlearnt m (hkeep m hm)⟩
  · refine Or.inr ?_
    obtain hkeep' | ⟨t, shards', ht, hoffered', hlearnt'⟩ := h'.learnt
    · refine ⟨s, shards, h'.retains.registered s hs, hoffered, fun m hm => ?_⟩
      rw [announced_retained h'.retains hs]
      exact hkeep' _ (hlearnt m hm)
    · exact ⟨t, shards', ht, hoffered', fun m hm => hlearnt' _ (hlearnt m hm)⟩

theorem unsafeDiscoverSlotsAux_learns (hw : WellPlaced db) (clock : ℕ → ℤ) (rules : List WeightRule)
    {reply : Option Reply} {s : ServerId} (hs : db.Registered s) (ho : ∀ r, reply = some r → Offered s r) :
    Learns Offered db (unsafeDiscoverSlotsAux clock rules reply s db).2 := by
  have hgrows := unsafeDiscoverSlotsAux_grows hw clock rules reply s
  refine ⟨hgrows.wellPlaced, hgrows.retains, ?_⟩
  have hlearn := fun m hm => learn_mirrors (m := m) hw hm clock rules reply s
  unfold learn at hlearn
  split at hlearn
  · next shards =>
    by_cases hsome : ∃ location k, announced db.tls (hostname (db.server s).address) shards location k
    · refine Or.inr ⟨s, shards, hgrows.retains.registered s hs, ho _ rfl, fun m hm => ?_⟩
      rw [announced_retained hgrows.retains hs]
      simpa only [if_pos hsome] using hlearn m hm
    · refine Or.inl fun m hm => ?_
      simpa only [if_neg hsome] using hlearn m hm
  · exact Or.inl hlearn

def Meets (Offered : ServerId → Reply → Prop) (input : DiscoveryInput) : Prop :=
  ∀ n s r, input.reply n s = some r → Offered s r

theorem unsafeDiscoverSlots_learns {input : DiscoveryInput} (hw : WellPlaced db) (ho : Meets Offered input) {fuel : ℕ}
    {start : ServerId} (hs : db.Registered start) {r : Bool × Walk}
    (hr : unsafeDiscoverSlots fuel input start db = some r) : Learns Offered db r.2.db := by
  refine unsafeDiscoverSlots_keeps (J := Learns Offered db) ?_ (.keep hw (.refl db) fun _ => id) hs hr
  intro d clock n s hd hs
  exact hd.trans (unsafeDiscoverSlotsAux_learns hd.wellPlaced clock input.rules hs (ho n s))

theorem unsafeAddRedisServer_learns (hw : WellPlaced db) (input : AddInput) (rules : List WeightRule) (location : Bytes)
    (role : Role) : Learns Offered db (unsafeAddRedisServer input rules location role db).2 := by
  have hgrows := unsafeAddRedisServer_grows hw input rules location role
  exact .keep hgrows.wellPlaced hgrows.retains fun _ hm => unsafeAddRedisServer_mirrors hw hm input rules location role

theorem planExecution_mirrors {input : PlanInput} {heap : Heap} {size : ℕ} {server : Option ServerId} {master : Bool}
    {slot : ℕ} {task task' : Task} {plan : Option Plan}
    (h : planExecution input heap size server master slot task db = .ok (plan, task', db')) (hm : Mirrors m db) :
    Mirrors m db' := by
  obtain ⟨-, -, -, rfl⟩ | ⟨-, p, -, ⟨s, -, hp⟩ | ⟨-, hp⟩⟩ := planExecution_cases h
  · exact hm
  · exact hm.same (populateSimpleExecutionPlan_spec hp).1.counts.same
  · obtain ⟨dbc, hc, -, -, ⟨-, -, rfl⟩ | ⟨-, -, hs⟩⟩ := populateExecutionPlan_spec hp
    · exact hm.same hc.counts.same
    · exact (hm.same hc.counts.same).congr hs.rotated.registered (fun t => by rw [hs.rotated.server])
        fun t => by rw [hs.rotated.server]

def From (Offered : ServerId → Reply → Prop) (db : Db) (m : ClusterMap) : Prop :=
  m = nobody ∨ ∃ s shards, db.Registered s ∧ Offered s (.array shards) ∧
    m = announced db.tls (hostname (db.server s).address) shards

theorem Learns.mirrored (h : Learns Offered db db') (hf : From Offered db m) (hm : Mirrors m db) :
    ∃ m', From Offered db' m' ∧ Mirrors m' db' := by
  obtain hkeep | ⟨s, shards, hs, hoffered, hlearnt⟩ := h.learnt
  · refine ⟨m, ?_, hkeep m hm⟩
    obtain rfl | ⟨s, shards, hs, hoffered, rfl⟩ := hf
    · exact Or.inl rfl
    · exact Or.inr ⟨s, shards, h.retains.registered s hs, hoffered, (announced_retained h.retains hs shards).symm⟩
  · exact ⟨_, Or.inr ⟨s, shards, hs, hoffered, rfl⟩, hlearnt m hm⟩

end VmodRedis.ClusterRouting
