import VmodRedis.SentinelReport
import Mathlib.Data.Int.ConditionallyCompleteOrder
import Mathlib.Order.Interval.Set.Basic

namespace VmodRedis.SicknessFlags

open CStrings Replies Database Connections Registry RegistryInvariant Discovery SentinelUpdate TransitionSystem

def Stamped (t0 t1 : ℤ) (v v' : Sickness) : Prop := v' = v ∨ v'.exp ≤ t1 ∨ t0 ≤ v'.tst

theorem Stamped.trans {t0 t1 : ℤ} {u v w : Sickness} (h : Stamped t0 t1 u v) (h' : Stamped t0 t1 v w) :
    Stamped t0 t1 u w := by
  rcases h' with rfl | h'
  · exact h
  · exact Or.inr h'

theorem flushSickness_exp (now : ℤ) (s : ServerId) (db : Db) :
    ((flushSickness now s db).server s).sickness.exp ≤ now := by
  unfold flushSickness
  dsimp only
  by_cases h : now < (db.server s).sickness.exp
  · rw [if_pos h]
    simp
  · rw [if_neg h]
    exact not_lt.mp h

theorem flagSickness_stamped {t0 t1 now : ℤ} (h : t0 ≤ now) (s : ServerId) (db : Db) :
    Stamped t0 t1 (db.server s).sickness ((flagSickness now s db).server s).sickness := by
  unfold flagSickness
  by_cases httl : 0 < db.sicknessTtl
  · rw [if_pos httl]
    refine Or.inr (Or.inr ?_)
    simpa using h
  · rw [if_neg httl]
    exact Or.inl rfl

theorem newRcontext_stamped {t0 t1 now : ℤ} (h : now ∈ Set.Icc t0 t1) (ephemeral connected : Bool) (s : ServerId)
    (db : Db) :
    Stamped t0 t1 (db.server s).sickness ((newRcontext now ephemeral connected s db).server s).sickness := by
  cases connected with
  | true =>
    have hflush := (flushSickness_exp now s db).trans h.2
    cases ephemeral <;> exact Or.inr (Or.inl hflush)
  | false =>
    have hflag : Stamped t0 t1 (db.server s).sickness ((flagSickness now s db).server s).sickness :=
      flagSickness_stamped h.1 s db
    cases ephemeral <;> exact hflag

structure Stamps (t0 t1 : ℤ) (db db' : Db) : Prop where
  retains : Retains db db'
  wellPlaced : WellPlaced db'
  sickness : ∀ s, db.Registered s → Stamped t0 t1 (db.server s).sickness (db'.server s).sickness

variable {t0 t1 : ℤ} {db db' db'' : Db}

theorem Stamps.refl (h : WellPlaced db) : Stamps t0 t1 db db := ⟨.refl db, h, fun _ _ => Or.inl rfl⟩

theorem Stamps.trans (h : Stamps t0 t1 db db') (h' : Stamps t0 t1 db' db'') : Stamps t0 t1 db db'' where
  retains := h.retains.trans h'.retains
  wellPlaced := h'.wellPlaced
  sickness s hs := (h.sickness s hs).trans (h'.sickness s (h.retains.registered s hs))

theorem Stamps.event (hw : WellPlaced db) {s : ServerId} (h : SicknessOnly s db db')
    (hs : Stamped t0 t1 (db.server s).sickness (db'.server s).sickness) : Stamps t0 t1 db db' where
  retains := retains_of_same h.same
  wellPlaced := hw.same h.same
  sickness t _ := by
    by_cases ht : t = s
    · rw [ht]
      exact hs
    · rw [h.of_ne ht]
      exact Or.inl rfl

theorem Stamps.slots (hw : WellPlaced db) (h : SlotsOnly db db') : Stamps t0 t1 db db' where
  retains := h.retains
  wellPlaced := h.wellPlaced hw
  sickness s _ := by
    obtain ⟨slots, hs⟩ := h.server s
    rw [hs]
    exact Or.inl rfl

theorem newRcontext_stamps (hw : WellPlaced db) {now : ℤ} (h : now ∈ Set.Icc t0 t1) (ephemeral connected : Bool)
    (s : ServerId) : Stamps t0 t1 db (newRcontext now ephemeral connected s db) :=
  .event hw (newRcontext_only now ephemeral connected s db) (newRcontext_stamped h ephemeral connected s db)

theorem unsafeAddRedisServer_stamps (hw : WellPlaced db) {input : AddInput} (h : input.now ≤ t1)
    (rules : List WeightRule) (location : Bytes) (role : Role) :
    Stamps t0 t1 db (unsafeAddRedisServer input rules location role db).2 := by
  refine ⟨unsafeAddRedisServer_retains hw input rules location role,
    unsafeAddRedisServer_wellPlaced hw input rules location role, fun t ht => ?_⟩
  unfold unsafeAddRedisServer
  cases hf : findServer db location with
  | none =>
    cases hv : newRedisServer db location role with
    | none => exact Or.inl rfl
    | some v =>
      obtain ⟨-, ha, -, -⟩ := createServer_spec hw input rules hf hv
      have hne : t ≠ db.nextServer := by
        rintro rfl
        exact hw.next_unregistered ht
      change Stamped t0 t1 _ ((createServer input rules v db).2.server t).sickness
      rw [ha.others t hne]
      exact Or.inl rfl
  | some p =>
    obtain ⟨b, s⟩ := p
    obtain ⟨ha, -⟩ := updateServer_spec hw input role (findServer_some hf).1
    change Stamped t0 t1 _ ((updateServer input role b s db).server t).sickness
    by_cases hts : t = s
    · subst hts
      exact Or.inr (Or.inl ((flushSickness_exp input.now t _).trans h))
    · rw [ha.others t hts]
      exact Or.inl rfl

theorem unsafeAddNode_stamps (hw : WellPlaced db) {now : ℤ} (h : now ∈ Set.Icc t0 t1) (rules : List WeightRule)
    (node : Node) : Stamps t0 t1 db (unsafeAddNode now rules node db).2 := by
  have hadd : Stamps t0 t1 db (unsafeAddRedisServer ⟨⟨now, false, none⟩, now⟩ rules node.location node.role db).2 :=
    unsafeAddRedisServer_stamps hw h.2 rules node.location node.role
  unfold unsafeAddNode
  by_cases hlong : 256 ≤ node.location.length
  · rw [if_pos hlong]
    exact .refl hw
  · rw [if_neg hlong]
    obtain ⟨⟨found, d⟩, hr⟩ : ∃ r, r = unsafeAddRedisServer ⟨⟨now, false, none⟩, now⟩ rules node.location
        node.role db := ⟨_, rfl⟩
    rw [← hr] at hadd ⊢
    cases found with
    | none => exact hadd
    | some s =>
      dsimp only at hadd ⊢
      cases node.healthy with
      | true => exact hadd
      | false =>
        exact hadd.trans (.event hadd.wellPlaced (flagSickness_only now s d) (flagSickness_stamped h.1 s d))

theorem discoverNode_stamps {topology : Topology} (hw : WellPlaced topology.db)
    (h : ∀ i, topology.clock i ∈ Set.Icc t0 t1) (rules : List WeightRule) (host : Bytes) (ranges : List SlotRange)
    (reply : Reply) : Stamps t0 t1 topology.db (discoverNode rules host ranges topology reply).db ∧
      ∀ i, (discoverNode rules host ranges topology reply).clock i ∈ Set.Icc t0 t1 := by
  unfold discoverNode
  cases hparse : parseNode topology.db.tls host reply with
  | none => exact ⟨.refl hw, h⟩
  | some node =>
    have hnode := unsafeAddNode_stamps hw (h 0) rules node
    obtain ⟨⟨found, d⟩, hr⟩ : ∃ r, r = unsafeAddNode (topology.clock 0) rules node topology.db := ⟨_, rfl⟩
    dsimp only
    rw [← hr] at hnode ⊢
    cases found with
    | none => exact ⟨hnode, fun i => h (i + 1)⟩
    | some s =>
      refine ⟨hnode.trans ?_, fun i => h (i + 1)⟩
      exact .slots hnode.wellPlaced (registerNode_only ranges (!ranges.isEmpty && !topology.reset) s d)

def Discovers (t0 t1 : ℤ) (db : Db) (topology : Topology) : Prop :=
  Stamps t0 t1 db topology.db ∧ ∀ i, topology.clock i ∈ Set.Icc t0 t1

theorem foldl_discovers {α : Type} {f : Topology → α → Topology}
    (hstep : ∀ topology a, Discovers t0 t1 db topology → Discovers t0 t1 db (f topology a)) (l : List α)
    {topology : Topology} (h : Discovers t0 t1 db topology) : Discovers t0 t1 db (l.foldl f topology) := by
  induction l generalizing topology with
  | nil => exact h
  | cons a l ih => exact ih (hstep topology a h)

theorem discoverShard_discovers (rules : List WeightRule) (host : Bytes) (topology : Topology) (shard : Reply)
    (h : Discovers t0 t1 db topology) : Discovers t0 t1 db (discoverShard rules host topology shard) := by
  unfold discoverShard
  cases parseShard shard with
  | none => exact h
  | some parsed =>
    obtain ⟨slots, nodes⟩ := parsed
    refine foldl_discovers (fun topology reply h => ?_) nodes h
    obtain ⟨hnode, hclock⟩ := discoverNode_stamps h.1.wellPlaced h.2 rules host (shardRanges slots) reply
    exact ⟨h.1.trans hnode, hclock⟩

theorem countDiscovery_stamps (hw : WellPlaced db) (done : Bool) : Stamps t0 t1 db (countDiscovery done db) where
  retains := countDiscovery_retains done db
  wellPlaced := countDiscovery_wellPlaced hw done
  sickness s _ := by
    rw [countDiscovery_server]
    exact Or.inl rfl

theorem unsafeDiscoverSlotsAux_stamps (hw : WellPlaced db) {clock : ℕ → ℤ} (h : ∀ i, clock i ∈ Set.Icc t0 t1)
    (rules : List WeightRule) (reply : Option Reply) (s : ServerId) :
    Stamps t0 t1 db (unsafeDiscoverSlotsAux clock rules reply s db).2 := by
  unfold unsafeDiscoverSlotsAux
  split
  · next shards =>
    have hstart : Discovers t0 t1 db ⟨db, 0, false, clock⟩ := ⟨.refl hw, h⟩
    have hshards := foldl_discovers (discoverShard_discovers rules (hostname (db.server s).address)) shards hstart
    exact hshards.1.trans (countDiscovery_stamps hshards.1.wellPlaced _)
  · exact countDiscovery_stamps hw false

def ReportsDown (inventory : List Discovered) (v : Server) : Prop :=
  ∃ d, (inventory.find? fun d => d.describes v) = some d ∧ d.down = true

theorem updated_sickness (inventory : List Discovered) (now : ℤ) (v : Server) :
    (updated inventory now v).sickness.tst = v.sickness.tst ∧
      ((updated inventory now v).sickness = v.sickness ∨
        ¬ ReportsDown inventory v ∧ (updated inventory now v).sickness.exp ≤ now ∨
        ReportsDown inventory v ∧ v.sickness.exp ≤ now) := by
  unfold updated ReportsDown
  cases hf : inventory.find? fun d => d.describes v with
  | none => exact ⟨rfl, Or.inl rfl⟩
  | some d =>
    unfold reported
    dsimp only
    by_cases hexp : v.sickness.exp ≤ now
    · rw [if_pos hexp]
      cases hd : d.down with
      | true => exact ⟨rfl, Or.inr (Or.inr ⟨⟨d, rfl, hd⟩, hexp⟩)⟩
      | false => exact ⟨rfl, Or.inl rfl⟩
    · rw [if_neg hexp]
      cases hd : d.down with
      | true => exact ⟨rfl, Or.inl rfl⟩
      | false =>
        refine ⟨rfl, Or.inr (Or.inl ⟨?_, le_rfl⟩)⟩
        rintro ⟨e, he, hdown⟩
        obtain rfl := Option.some.inj he
        rw [hd] at hdown
        exact Bool.false_ne_true hdown

theorem reportsDown_updated (inventory : List Discovered) (now : ℤ) (v : Server) :
    ReportsDown inventory (updated inventory now v) ↔ ReportsDown inventory v := by
  have hfind : (fun d : Discovered => d.describes (updated inventory now v)) = fun d => d.describes v := by
    funext d
    exact describes_congr d (updated_address inventory now v)
  unfold ReportsDown
  rw [hfind]

theorem visited_sickness (inventory : List Discovered) {ns : List ℤ} (hn : ∀ n ∈ ns, n ≤ t1) (v : Server) :
    (visited inventory ns v).sickness.tst = v.sickness.tst ∧
      ((visited inventory ns v).sickness = v.sickness ∨ (visited inventory ns v).sickness.exp ≤ t1 ∨
        ReportsDown inventory v ∧ ∃ n ∈ ns, v.sickness.exp ≤ n) := by
  induction ns generalizing v with
  | nil => exact ⟨rfl, Or.inl rfl⟩
  | cons n ns ih =>
    obtain ⟨htst, hcases⟩ := ih (fun m hm => hn m (List.mem_cons_of_mem n hm)) (updated inventory n v)
    obtain ⟨hstay, hfirst⟩ := updated_sickness inventory n v
    change (visited inventory ns (updated inventory n v)).sickness.tst = _ ∧ (_ ∨ _ ∨ _)
    refine ⟨htst.trans hstay, ?_⟩
    rcases hcases with hsame | hclear | ⟨hdown, m, hm, hexp⟩
    · rcases hfirst with hsame' | ⟨-, hclear⟩ | ⟨hdown, hexp⟩
      · exact Or.inl (hsame.trans hsame')
      · refine Or.inr (Or.inl ?_)
        change (visited inventory ns (updated inventory n v)).sickness.exp ≤ t1
        rw [hsame]
        exact hclear.trans (hn n List.mem_cons_self)
      · exact Or.inr (Or.inr ⟨hdown, n, List.mem_cons_self, hexp⟩)
    · exact Or.inr (Or.inl hclear)
    · rw [reportsDown_updated] at hdown
      refine Or.inr (Or.inr ⟨hdown, ?_⟩)
      rcases hfirst with hsame | ⟨hup, -⟩ | ⟨-, hexp'⟩
      · rw [hsame] at hexp
        exact ⟨m, List.mem_cons_of_mem n hm, hexp⟩
      · exact absurd hdown hup
      · exact ⟨n, List.mem_cons_self, hexp'⟩

/-- A Sentinel update either stamps what it does to a flag, or raises it without a stamp. -/
theorem unsafeUpdateDbs_sickness (hw : WellPlaced db) (inventory : List Discovered) {clock : Bucket → ServerId → ℤ}
    (h : ∀ b s, clock b s ∈ Set.Icc t0 t1) {s : ServerId} (hs : db.Registered s) :
    ((unsafeUpdateDbs inventory clock db).server s).sickness.tst = (db.server s).sickness.tst ∧
      (Stamped t0 t1 (db.server s).sickness ((unsafeUpdateDbs inventory clock db).server s).sickness ∨
        db.clusterEnabled = false ∧ ReportsDown inventory (db.server s) ∧
          ∃ b, (db.server s).sickness.exp ≤ clock b s) := by
  cases hc : db.clusterEnabled with
  | true =>
    rw [unsafeUpdateDbs_clustered inventory clock hc]
    exact ⟨rfl, Or.inl (Or.inl rfl)⟩
  | false =>
    obtain ⟨ns, -, hn, he⟩ := unsafeUpdateDbs_visited inventory clock hw hc hs
    have hlate : ∀ n ∈ ns, n ≤ t1 := by
      intro n hm
      obtain ⟨b, rfl⟩ := hn n hm
      exact (h b s).2
    obtain ⟨htst, hcases⟩ := visited_sickness inventory hlate (db.server s)
    rw [he]
    refine ⟨htst, ?_⟩
    rcases hcases with hsame | hclear | ⟨hdown, n, hm, hexp⟩
    · exact Or.inl (Or.inl hsame)
    · exact Or.inl (Or.inr (Or.inl hclear))
    · obtain ⟨b, rfl⟩ := hn n hm
      exact Or.inr ⟨rfl, hdown, b, hexp⟩

end VmodRedis.SicknessFlags
