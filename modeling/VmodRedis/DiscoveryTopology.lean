import VmodRedis.ShardReplies

namespace VmodRedis.Discovery

open CStrings Replies Database Connections Registry

theorem Node.zero_not_mem_location (node : Node) : 0 ∉ node.location := by
  unfold Node.location
  simp only [List.mem_append, List.mem_cons, not_or]
  exact ⟨zero_not_mem_cstr _, by decide, zero_not_mem_decimal _⟩

theorem newRedisServer_location (db : Db) (node : Node) (role : Role) :
    newRedisServer db node.location role ≠ none := by
  have hc : (strrchr node.location colon).isSome = true := by
    rw [strrchr_isSome, cstr_of_not_mem node.zero_not_mem_location]
    simp [Node.location]
  obtain ⟨⟨host, port⟩, hs⟩ := Option.isSome_iff_exists.mp hc
  simp [newRedisServer, hs, Address.isHost]

theorem added_sickness {db db' db'' : Db} {s : ServerId} (h : Added db s db')
    (hs : SicknessOnly s db' db'') : Added db s db'' where
  options := hs.same.options.trans h.options
  registered t := (hs.same.registered t).trans (h.registered t)
  others t ht := (hs.of_ne ht).trans (h.others t ht)
  discoveriesTotal := hs.same.discoveriesTotal.trans h.discoveriesTotal
  discoveriesFailed := hs.same.discoveriesFailed.trans h.discoveriesFailed
  kept hr := by
    rw [hs.same.raw, hs.same.address, hs.same.weight, hs.same.slots, hs.pool]
    exact h.kept hr
  created hn := by
    rw [hs.same.slots, hs.pool]
    exact h.created hn

theorem unsafeAddNode_spec {db : Db} (h : WellPlaced db) (now : ℤ) (rules : List WeightRule) (node : Node) :
    (256 ≤ node.location.length ∧ unsafeAddNode now rules node db = (none, db)) ∨
      (node.location.length < 256 ∧ ∃ s db', unsafeAddNode now rules node db = (some s, db') ∧
        Added db s db' ∧ WellPlaced db' ∧ (db'.server s).raw = node.location) := by
  unfold unsafeAddNode
  by_cases hlong : 256 ≤ node.location.length
  · exact Or.inl ⟨hlong, if_pos hlong⟩
  · refine Or.inr ⟨not_le.mp hlong, ?_⟩
    rw [if_neg hlong]
    rcases unsafeAddRedisServer_spec h ⟨⟨now, false, none⟩, now⟩ rules node.location node.role with
      ⟨s, db', he, ha, hw, hraw⟩ | ⟨hn, -⟩
    · rw [cstr_of_not_mem node.zero_not_mem_location] at hraw
      have hsick : SicknessOnly s db' (if node.healthy then db' else flagSickness now s db') := by
        split_ifs
        · exact .refl s db'
        · exact flagSickness_only now s db'
      refine ⟨s, _, by simp only [he], added_sickness ha hsick, hw.same hsick.same, ?_⟩
      rw [hsick.same.raw, hraw]
    · exact absurd hn (newRedisServer_location db node node.role)

structure SlotsOnly (db db' : Db) : Prop where
  options : db'.toOptions = db.toOptions
  servers : db'.servers = db.servers
  nextServer : db'.nextServer = db.nextServer
  stats : db'.stats = db.stats
  server : ∀ s, ∃ slots, db'.server s = { db.server s with slots := slots }

namespace SlotsOnly

variable {db db' db'' : Db}

theorem refl (db : Db) : SlotsOnly db db := ⟨rfl, rfl, rfl, rfl, fun s => ⟨(db.server s).slots, rfl⟩⟩

theorem trans (h : SlotsOnly db db') (h' : SlotsOnly db' db'') : SlotsOnly db db'' where
  options := h'.options.trans h.options
  servers := h'.servers.trans h.servers
  nextServer := h'.nextServer.trans h.nextServer
  stats := h'.stats.trans h.stats
  server s := by
    obtain ⟨slots, hs⟩ := h.server s
    obtain ⟨slots', hs'⟩ := h'.server s
    exact ⟨slots', by rw [hs', hs]⟩

theorem setSlots (db : Db) (s : ServerId) (slots : ℕ → Bool) :
    SlotsOnly db (db.setServer s { db.server s with slots := slots }) := by
  refine ⟨rfl, rfl, rfl, rfl, fun t => ?_⟩
  by_cases ht : t = s
  · subst ht
    exact ⟨slots, by simp⟩
  · exact ⟨(db.server t).slots, by simp [ht]⟩

theorem registered (h : SlotsOnly db db') (s : ServerId) : db'.Registered s ↔ db.Registered s := by
  simp only [Db.Registered, h.servers]

theorem raw (h : SlotsOnly db db') (s : ServerId) : (db'.server s).raw = (db.server s).raw := by
  obtain ⟨slots, hs⟩ := h.server s
  rw [hs]

theorem address (h : SlotsOnly db db') (s : ServerId) : (db'.server s).address = (db.server s).address := by
  obtain ⟨slots, hs⟩ := h.server s
  rw [hs]

theorem weight (h : SlotsOnly db db') (s : ServerId) : (db'.server s).weight = (db.server s).weight := by
  obtain ⟨slots, hs⟩ := h.server s
  rw [hs]

theorem pool (h : SlotsOnly db db') (s : ServerId) : (db'.server s).pool = (db.server s).pool := by
  obtain ⟨slots, hs⟩ := h.server s
  rw [hs]

theorem bucket (h : SlotsOnly db db') (s : ServerId) : (db'.server s).bucket = (db.server s).bucket := by
  obtain ⟨slots, hs⟩ := h.server s
  rw [hs]
  rfl

theorem wellPlaced (h : SlotsOnly db db') (hw : WellPlaced db) : WellPlaced db' :=
  hw.congr h.options h.servers h.nextServer (congrArg Stats.serversTotal h.stats) h.raw h.address h.bucket

theorem retains (h : SlotsOnly db db') : Retains db db' :=
  ⟨h.options, fun s => (h.registered s).mpr, fun s _ => h.raw s, fun s _ => h.address s, fun s _ => h.weight s⟩

end SlotsOnly

theorem resetSlots_fold (servers : List ServerId) (db : Db) :
    SlotsOnly db (servers.foldl (fun db s => db.setServer s { db.server s with
        slots := fun k => if k < nredisClusterSlots then false else (db.server s).slots k }) db) ∧
      ∀ s, ∀ k < nredisClusterSlots, ((servers.foldl (fun db s => db.setServer s { db.server s with
        slots := fun k => if k < nredisClusterSlots then false else (db.server s).slots k }) db).server s).slots k =
          if s ∈ servers then false else (db.server s).slots k := by
  induction servers generalizing db with
  | nil => exact ⟨.refl db, fun s k _ => by simp⟩
  | cons t servers ih =>
    obtain ⟨hs, hk⟩ := ih (db.setServer t { db.server t with
      slots := fun k => if k < nredisClusterSlots then false else (db.server t).slots k })
    refine ⟨(SlotsOnly.setSlots db t _).trans hs, fun s k hlt => ?_⟩
    rw [List.foldl_cons, hk s k hlt]
    by_cases hst : s = t
    · subst hst
      simp [hlt]
    · simp [hst]

theorem unsafeResetSlots_only (db : Db) : SlotsOnly db (unsafeResetSlots db) :=
  (resetSlots_fold db.allServers db).1

theorem unsafeResetSlots_slots (db : Db) {s : ServerId} (hs : db.Registered s) {k : ℕ}
    (hk : k < nredisClusterSlots) : ((unsafeResetSlots db).server s).slots k = false := by
  unfold unsafeResetSlots
  rw [(resetSlots_fold db.allServers db).2 s k hk, if_pos ((db.mem_allServers s).mpr hs)]

def SlotRange.Contains (range : SlotRange) (k : ℕ) : Prop := range.first ≤ k ∧ k ≤ range.last

theorem registerRanges_only (s : ServerId) (ranges : List SlotRange) (db : Db) :
    SlotsOnly db (ranges.foldl (registerRange s) db) := by
  induction ranges generalizing db with
  | nil => exact .refl db
  | cons range ranges ih => exact (SlotsOnly.setSlots db s _).trans (ih _)

theorem registerRanges_of_ne {s t : ServerId} (ht : t ≠ s) (ranges : List SlotRange) (db : Db) :
    (ranges.foldl (registerRange s) db).server t = db.server t := by
  induction ranges generalizing db with
  | nil => rfl
  | cons range ranges ih =>
    rw [List.foldl_cons, ih]
    simp [registerRange, ht]

theorem registerRanges_slots (s : ServerId) (ranges : List SlotRange) (db : Db) (k : ℕ) :
    ((ranges.foldl (registerRange s) db).server s).slots k = true ↔
      (∃ range ∈ ranges, range.Contains k) ∨ (db.server s).slots k = true := by
  induction ranges generalizing db with
  | nil => simp
  | cons range ranges ih =>
    rw [List.foldl_cons, ih]
    have hslots : ((registerRange s db range).server s).slots k = true ↔
        range.Contains k ∨ (db.server s).slots k = true := by
      simp [registerRange, SlotRange.Contains]
    rw [hslots, List.exists_mem_cons_iff]
    exact or_left_comm.trans or_assoc.symm

theorem unsafeAddNode_isSome_iff {db : Db} (h : WellPlaced db) (now : ℤ) (rules : List WeightRule) (node : Node) :
    (unsafeAddNode now rules node db).1.isSome = true ↔ node.location.length < 256 := by
  rcases unsafeAddNode_spec h now rules node with ⟨hl, he⟩ | ⟨hl, s, db', he, -⟩
  · rw [he]
    simpa using hl
  · rw [he]
    simpa using hl

abbrev Visit := List SlotRange × Reply

def Visit.Adds (tls : Tls) (host : Bytes) (visit : Visit) (location : Bytes) : Prop :=
  ∃ node, parseNode tls host visit.2 = some node ∧ node.location.length < 256 ∧ node.location = location

def Visit.accepted (tls : Tls) (host : Bytes) (visit : Visit) : Bool :=
  (parseNode tls host visit.2).any fun node => node.location.length < 256

theorem Visit.accepted_iff {tls : Tls} {host : Bytes} {visit : Visit} :
    visit.accepted tls host = true ↔ ∃ location, visit.Adds tls host location := by
  unfold Visit.accepted Visit.Adds
  rw [Option.any_eq_true]
  constructor
  · rintro ⟨node, hn, hl⟩
    exact ⟨node.location, node, hn, of_decide_eq_true hl, rfl⟩
  · rintro ⟨_, node, hn, hl, -⟩
    exact ⟨node, hn, decide_eq_true hl⟩

def Visit.count (tls : Tls) (host : Bytes) (visit : Visit) : ℕ :=
  if visit.accepted tls host then visit.1.length else 0

structure Visited (db : Db) (host : Bytes) (visits : List Visit) (topology : Topology) : Prop where
  wellPlaced : WellPlaced topology.db
  retains : Retains db topology.db
  pools : PoolsKept db topology.db
  discoveriesTotal : topology.db.stats.discoveriesTotal = db.stats.discoveriesTotal
  discoveriesFailed : topology.db.stats.discoveriesFailed = db.stats.discoveriesFailed
  known : ∀ v ∈ visits, ∀ location, v.Adds db.tls host location →
    ∃ s, topology.db.Registered s ∧ (topology.db.server s).raw = location
  reset : topology.reset = true ↔ ∃ v ∈ visits, v.1 ≠ [] ∧ ∃ location, v.Adds db.tls host location
  registered : topology.reset = true → ∀ s, topology.db.Registered s → ∀ k < nredisClusterSlots,
    ((topology.db.server s).slots k = true ↔ ∃ v ∈ visits, v.Adds db.tls host (topology.db.server s).raw ∧
      ∃ range ∈ v.1, range.Contains k)
  kept : topology.reset = false → ∀ s, db.Registered s →
    (topology.db.server s).slots = (db.server s).slots
  slotRanges : topology.slotRanges = (visits.map (Visit.count db.tls host)).sum % 2 ^ 32

theorem Visited.start {db : Db} (h : WellPlaced db) (host : Bytes) (clock : ℕ → ℤ) :
    Visited db host [] ⟨db, 0, false, clock⟩ where
  wellPlaced := h
  retains := .refl db
  pools := .of_eq fun _ => rfl
  discoveriesTotal := rfl
  discoveriesFailed := rfl
  known := by simp
  reset := by simp
  registered := by simp
  kept _ _ _ := rfl
  slotRanges := rfl

theorem Visited.skip {db : Db} {host : Bytes} {visits : List Visit} {topology : Topology}
    (h : Visited db host visits topology) {v : Visit} (hv : ∀ location, ¬ v.Adds db.tls host location)
    (clock : ℕ → ℤ) : Visited db host (visits ++ [v]) { topology with clock := clock } where
  wellPlaced := h.wellPlaced
  retains := h.retains
  pools := h.pools
  discoveriesTotal := h.discoveriesTotal
  discoveriesFailed := h.discoveriesFailed
  known u hu location ha := by
    rcases List.mem_append.mp hu with hu | hu
    · exact h.known u hu location ha
    · exact absurd (List.mem_singleton.mp hu ▸ ha) (hv location)
  reset := by
    rw [h.reset]
    constructor
    · rintro ⟨u, hu, hr⟩
      exact ⟨u, List.mem_append_left _ hu, hr⟩
    · rintro ⟨u, hu, hr, location, ha⟩
      rcases List.mem_append.mp hu with hu | hu
      · exact ⟨u, hu, hr, location, ha⟩
      · exact absurd (List.mem_singleton.mp hu ▸ ha) (hv location)
  registered hr s hs k hk := by
    rw [h.registered hr s hs k hk]
    constructor
    · rintro ⟨u, hu, ha⟩
      exact ⟨u, List.mem_append_left _ hu, ha⟩
    · rintro ⟨u, hu, ha, hc⟩
      rcases List.mem_append.mp hu with hu | hu
      · exact ⟨u, hu, ha, hc⟩
      · exact absurd (List.mem_singleton.mp hu ▸ ha) (hv _)
  kept := h.kept
  slotRanges := by
    have hcount : v.count db.tls host = 0 := if_neg (by
      rw [Visit.accepted_iff, not_exists]
      exact hv)
    simpa [hcount] using h.slotRanges

def registerNode (ranges : List SlotRange) (first : Bool) (s : ServerId) (db : Db) : Db :=
  ranges.foldl (registerRange s) (if first then unsafeResetSlots db else db)

theorem registerNode_only (ranges : List SlotRange) (first : Bool) (s : ServerId) (db : Db) :
    SlotsOnly db (registerNode ranges first s db) := by
  unfold registerNode
  split_ifs
  · exact (unsafeResetSlots_only db).trans (registerRanges_only s ranges _)
  · exact registerRanges_only s ranges db

theorem registerNode_slots (ranges : List SlotRange) (first : Bool) (s : ServerId) (db : Db) {t : ServerId}
    (ht : db.Registered t) {k : ℕ} (hk : k < nredisClusterSlots) :
    ((registerNode ranges first s db).server t).slots k = true ↔
      (t = s ∧ ∃ range ∈ ranges, range.Contains k) ∨ (first = false ∧ (db.server t).slots k = true) := by
  have hfirst : ((if first then unsafeResetSlots db else db).server t).slots k = true ↔
      first = false ∧ (db.server t).slots k = true := by
    cases first with
    | true => simp [unsafeResetSlots_slots db ht hk]
    | false => simp
  unfold registerNode
  by_cases hts : t = s
  · subst hts
    rw [registerRanges_slots, hfirst]
    simp
  · rw [registerRanges_of_ne hts, hfirst]
    simp [hts]

theorem Visit.adds_iff {tls : Tls} {host : Bytes} (ranges : List SlotRange) {reply : Reply} {node : Node}
    (hparse : parseNode tls host reply = some node) (hlen : node.location.length < 256) (location : Bytes) :
    Visit.Adds tls host (ranges, reply) location ↔ node.location = location := by
  constructor
  · rintro ⟨other, ho, -, hloc⟩
    obtain rfl := Option.some.inj (hparse.symm.trans ho)
    exact hloc
  · exact fun hloc => ⟨node, hparse, hlen, hloc⟩

theorem first_iff (ranges : List SlotRange) (reset : Bool) :
    (!ranges.isEmpty && !reset) = true ↔ ranges ≠ [] ∧ reset = false := by
  cases ranges <;> simp

theorem Visited.earlier {db db' : Db} {host : Bytes} {visits : List Visit} {topology : Topology}
    (h : Visited db host visits topology) {ranges : List SlotRange} {s : ServerId}
    (ha : Added topology.db s db') (hw : WellPlaced db')
    (hr : topology.reset = true ∨ ranges ≠ []) {t : ServerId} (ht : db'.Registered t) {k : ℕ}
    (hk : k < nredisClusterSlots) :
    (∃ v ∈ visits, v.Adds db.tls host (db'.server t).raw ∧ ∃ range ∈ v.1, range.Contains k) ↔
      (!ranges.isEmpty && !topology.reset) = false ∧ (db'.server t).slots k = true := by
  cases hreset : topology.reset with
  | true =>
    by_cases hreg : topology.db.Registered t
    · have hsame : (db'.server t).raw = (topology.db.server t).raw ∧
          (db'.server t).slots = (topology.db.server t).slots := by
        by_cases hts : t = s
        · subst hts
          obtain ⟨h1, -, -, h4, -⟩ := ha.kept hreg
          exact ⟨h1, h4⟩
        · rw [ha.others t hts]
          exact ⟨rfl, rfl⟩
      rw [hsame.1, hsame.2, ← h.registered hreset t hreg k hk]
      simp
    · obtain rfl : t = s := ((ha.registered t).mp ht).resolve_left hreg
      rw [(ha.created hreg).2.1]
      simp only [Bool.false_eq_true, and_false, iff_false]
      rintro ⟨v, hv, hadds, -⟩
      obtain ⟨u, hu, hraw⟩ := h.known v hv _ hadds
      have hut : u = t := by
        refine hw.raw_injective u t ((ha.registered u).mpr (Or.inl hu)) ht ?_
        rw [ha.retains.raw u hu, hraw]
      exact hreg (hut ▸ hu)
  | false =>
    have hne : ranges ≠ [] := hr.resolve_left (by simp [hreset])
    have hfirst := (first_iff ranges false).mpr ⟨hne, rfl⟩
    rw [hfirst]
    simp only [Bool.true_eq_false, false_and, iff_false]
    rintro ⟨v, hv, hadds, range, hrange, -⟩
    have := h.reset.mpr ⟨v, hv, List.ne_nil_of_mem hrange, _, hadds⟩
    rw [hreset] at this
    exact absurd this (by simp)

theorem Visited.accept {db db' : Db} {host : Bytes} {visits : List Visit} {topology : Topology}
    (h : Visited db host visits topology) {ranges : List SlotRange} {reply : Reply} {node : Node}
    (hparse : parseNode db.tls host reply = some node) (hlen : node.location.length < 256) {s : ServerId}
    (ha : Added topology.db s db') (hw : WellPlaced db') (hraw : (db'.server s).raw = node.location)
    (clock : ℕ → ℤ) :
    Visited db host (visits ++ [(ranges, reply)])
      { db := registerNode ranges (!ranges.isEmpty && !topology.reset) s db',
        slotRanges := (topology.slotRanges + ranges.length) % 2 ^ 32,
        reset := topology.reset || (!ranges.isEmpty && !topology.reset), clock := clock } := by
  have hadds := Visit.adds_iff ranges hparse hlen
  have honly := registerNode_only ranges (!ranges.isEmpty && !topology.reset) s db'
  have hs : db'.Registered s := (ha.registered s).mpr (Or.inr rfl)
  have hor : (topology.reset || (!ranges.isEmpty && !topology.reset)) = true ↔
      topology.reset = true ∨ ranges ≠ [] := by
    cases topology.reset <;> cases ranges <;> simp
  constructor
  case wellPlaced => exact honly.wellPlaced hw
  case retains => exact (h.retains.trans ha.retains).trans honly.retains
  case pools => exact (h.pools.trans ha.pools).trans (.of_eq honly.pool)
  case discoveriesTotal =>
    rw [← h.discoveriesTotal, ← ha.discoveriesTotal]
    exact congrArg Stats.discoveriesTotal honly.stats
  case discoveriesFailed =>
    rw [← h.discoveriesFailed, ← ha.discoveriesFailed]
    exact congrArg Stats.discoveriesFailed honly.stats
  case known =>
    intro v hv location hv'
    rcases List.mem_append.mp hv with hv | hv
    · obtain ⟨t, ht, hloc⟩ := h.known v hv location hv'
      refine ⟨t, (honly.registered t).mpr ((ha.registered t).mpr (Or.inl ht)), ?_⟩
      rw [honly.raw, ha.retains.raw t ht, hloc]
    · rw [List.mem_singleton.mp hv] at hv'
      refine ⟨s, (honly.registered s).mpr hs, ?_⟩
      rw [honly.raw, hraw, (hadds location).mp hv']
  case reset =>
    rw [hor, h.reset]
    constructor
    · rintro (⟨v, hv, hne⟩ | hne)
      · exact ⟨v, List.mem_append_left _ hv, hne⟩
      · exact ⟨_, List.mem_append_right _ (List.mem_singleton_self _), hne, _, (hadds _).mpr rfl⟩
    · rintro ⟨v, hv, hne⟩
      rcases List.mem_append.mp hv with hv | hv
      · exact Or.inl ⟨v, hv, hne⟩
      · rw [List.mem_singleton.mp hv] at hne
        exact Or.inr hne.1
  case registered =>
    intro hr t ht k hk
    rw [honly.registered] at ht
    rw [honly.raw, registerNode_slots ranges _ s db' ht hk, ← h.earlier ha hw (hor.mp hr) ht hk]
    have hlast : t = s ↔ node.location = (db'.server t).raw := by
      rw [← hraw]
      exact ⟨fun he => by rw [he], fun he => (hw.raw_injective s t hs ht he).symm⟩
    simp only [List.mem_append, List.mem_singleton, or_and_right, exists_or, exists_eq_left, hadds, hlast]
    exact or_comm
  case kept =>
    intro hr t ht
    have hnone := hor.not.mp (Bool.eq_false_iff.mp hr)
    rw [not_or, not_ne_iff, Bool.not_eq_true] at hnone
    obtain ⟨hreset, rfl⟩ := hnone
    rw [← h.kept hreset t ht]
    change (db'.server t).slots = _
    have ht' := h.retains.registered t ht
    by_cases hts : t = s
    · subst hts
      exact (ha.kept ht').2.2.2.1
    · rw [ha.others t hts]
  case slotRanges =>
    have hcount : Visit.count db.tls host (ranges, reply) = ranges.length :=
      if_pos (Visit.accepted_iff.mpr ⟨_, (hadds _).mpr rfl⟩)
    simp only [List.map_append, List.map_cons, List.map_nil, List.sum_append, List.sum_cons, List.sum_nil,
      Nat.add_zero, hcount, h.slotRanges, Nat.mod_add_mod]

theorem Visited.reset_of_pos {db : Db} {host : Bytes} {visits : List Visit} {topology : Topology}
    (h : Visited db host visits topology) (hpos : 0 < topology.slotRanges) : topology.reset = true := by
  rw [h.slotRanges] at hpos
  obtain ⟨n, hn, hne⟩ := List.sum_pos_iff_exists_pos_nat.mp (hpos.trans_le (Nat.mod_le _ _))
  obtain ⟨v, hv, rfl⟩ := List.mem_map.mp hn
  have hne := hne.ne'
  unfold Visit.count at hne
  rw [ne_eq, ite_eq_right_iff, Classical.not_imp] at hne
  obtain ⟨hacc, hne⟩ := hne
  exact h.reset.mpr ⟨v, hv, List.length_pos_iff.mp (Nat.pos_of_ne_zero hne), Visit.accepted_iff.mp hacc⟩

theorem Visited.node {db : Db} {host : Bytes} {visits : List Visit} {topology : Topology}
    (h : Visited db host visits topology) (rules : List WeightRule) (ranges : List SlotRange) (reply : Reply) :
    Visited db host (visits ++ [(ranges, reply)]) (discoverNode rules host ranges topology reply) := by
  have htls : topology.db.tls = db.tls := congrArg Options.tls h.retains.options
  unfold discoverNode
  rw [htls]
  cases hparse : parseNode db.tls host reply with
  | none =>
    refine h.skip (fun location hadds => ?_) topology.clock
    obtain ⟨node, hn, -⟩ := hadds
    rw [hparse] at hn
    exact absurd hn (by simp)
  | some node =>
    rcases unsafeAddNode_spec h.wellPlaced (topology.clock 0) rules node with
      ⟨hlong, he⟩ | ⟨hlen, s, db', he, ha, hw, hraw⟩
    · simp only [he]
      refine h.skip (fun location hadds => ?_) _
      obtain ⟨other, ho, hlen, -⟩ := hadds
      obtain rfl := Option.some.inj (hparse.symm.trans ho)
      omega
    · simp only [he]
      exact h.accept hparse hlen ha hw hraw _

theorem Visited.nodes {db : Db} {host : Bytes} {visits : List Visit} {topology : Topology}
    (h : Visited db host visits topology) (rules : List WeightRule) (ranges : List SlotRange)
    (nodes : List Reply) : Visited db host (visits ++ nodes.map fun reply => (ranges, reply))
      (nodes.foldl (discoverNode rules host ranges) topology) := by
  induction nodes generalizing visits topology with
  | nil => simpa using h
  | cons reply nodes ih => simpa using ih (h.node rules ranges reply)

def shardVisits (shard : Reply) : List Visit :=
  match parseShard shard with
  | none => []
  | some (slots, nodes) => nodes.map fun reply => (shardRanges slots, reply)

theorem Visited.shards {db : Db} {host : Bytes} {visits : List Visit} {topology : Topology}
    (h : Visited db host visits topology) (rules : List WeightRule) (shards : List Reply) :
    Visited db host (visits ++ shards.flatMap shardVisits)
      (shards.foldl (discoverShard rules host) topology) := by
  induction shards generalizing visits topology with
  | nil => simpa using h
  | cons shard shards ih =>
    have hshard : Visited db host (visits ++ shardVisits shard) (discoverShard rules host topology shard) := by
      unfold shardVisits discoverShard
      cases parseShard shard with
      | none => simpa using h
      | some fields => exact h.nodes rules (shardRanges fields.1) fields.2
    simpa using ih hshard

theorem mem_shardVisits {shards : List Reply} {v : Visit} : v ∈ shards.flatMap shardVisits ↔
    ∃ shard ∈ shards, ∃ slots nodes, parseShard shard = some (slots, nodes) ∧ v.1 = shardRanges slots ∧
      v.2 ∈ nodes := by
  obtain ⟨ranges, reply⟩ := v
  rw [List.mem_flatMap]
  refine exists_congr fun shard => and_congr_right fun _ => ?_
  unfold shardVisits
  cases parseShard shard with
  | none => simp
  | some fields =>
    obtain ⟨slots, nodes⟩ := fields
    simp only [List.mem_map, Prod.mk.injEq, Option.some.injEq]
    constructor
    · rintro ⟨other, hm, hr, rfl⟩
      exact ⟨slots, nodes, ⟨rfl, rfl⟩, hr.symm, hm⟩
    · rintro ⟨_, _, ⟨rfl, rfl⟩, hr, hm⟩
      exact ⟨reply, hm, hr.symm, rfl⟩

theorem Visit.adds_eq_isNode {tls : Tls} {host : Bytes} {ranges : List SlotRange} {reply : Reply} {location : Bytes} :
    Visit.Adds tls host (ranges, reply) location ↔
      ∃ node, IsNode tls host reply node ∧ node.location = location ∧ location.length < 256 := by
  simp only [Visit.Adds, parseNode_iff]
  constructor
  · rintro ⟨node, hnode, hlen, rfl⟩
    exact ⟨node, hnode, rfl, hlen⟩
  · rintro ⟨node, hnode, rfl, hlen⟩
    exact ⟨node, hnode, hlen, rfl⟩

theorem assigns_iff {tls : Tls} {host : Bytes} {shards : List Reply} {location : Bytes} {k : ℕ} :
    Assigns tls host shards location k ↔
      ∃ v ∈ shards.flatMap shardVisits, v.Adds tls host location ∧ ∃ range ∈ v.1, range.Contains k := by
  simp only [Assigns, mem_shardVisits, parseShard_iff]
  constructor
  · rintro ⟨shard, hshard, slots, nodes, hs, hrange, reply, hreply, hnode⟩
    exact ⟨(shardRanges slots, reply), ⟨shard, hshard, slots, nodes, hs, rfl, hreply⟩,
      Visit.adds_eq_isNode.mpr hnode, (mem_shardRanges_iff slots k).mpr hrange⟩
  · rintro ⟨⟨ranges, reply⟩, ⟨shard, hshard, slots, nodes, hs, rfl, hreply⟩, hadds, hrange⟩
    exact ⟨shard, hshard, slots, nodes, hs, (mem_shardRanges_iff slots k).mp hrange, reply, hreply,
      Visit.adds_eq_isNode.mp hadds⟩

theorem parseSlotRange_contains {a b : Reply} {range : SlotRange} (h : parseSlotRange a b = some range) :
    range.Contains range.first := by
  obtain ⟨first, last, -, -, hfirst, hle, -, rfl⟩ := (parseSlotRange_eq_some_iff a b range).mp h
  constructor
  · rfl
  · dsimp only
    omega

theorem exists_assigns_iff (tls : Tls) (host : Bytes) (shards : List Reply) :
    (∃ location k, Assigns tls host shards location k) ↔
      ∃ v ∈ shards.flatMap shardVisits, v.1 ≠ [] ∧ ∃ location, v.Adds tls host location := by
  simp only [assigns_iff]
  constructor
  · rintro ⟨location, k, v, hv, hadds, range, hrange, -⟩
    exact ⟨v, hv, List.ne_nil_of_mem hrange, location, hadds⟩
  · rintro ⟨v, hv, hne, location, hadds⟩
    obtain ⟨range, hrange⟩ := List.exists_mem_of_ne_nil _ hne
    obtain ⟨shard, -, slots, nodes, -, hranges, -⟩ := mem_shardVisits.mp hv
    have hmem := hrange
    rw [hranges] at hmem
    obtain ⟨⟨a, b⟩, -, hparse⟩ := List.mem_filterMap.mp hmem
    exact ⟨location, range.first, v, hv, hadds, range, hrange, parseSlotRange_contains hparse⟩

theorem unsafeDiscoverSlotsAux_visited {db : Db} (h : WellPlaced db) (clock : ℕ → ℤ)
    (rules : List WeightRule) (shards : List Reply) (s : ServerId) :
    ∃ topology, Visited db (hostname (db.server s).address) (shards.flatMap shardVisits) topology ∧
      unsafeDiscoverSlotsAux clock rules (some (.array shards)) s db =
        (decide (0 < topology.slotRanges), countDiscovery (decide (0 < topology.slotRanges)) topology.db) := by
  have hv := (Visited.start h (hostname (db.server s).address) clock).shards rules shards
  exact ⟨_, hv, rfl⟩

theorem countDiscovery_server (done : Bool) (db : Db) : (countDiscovery done db).server = db.server := by
  cases done <;> rfl

theorem countDiscovery_registered (done : Bool) (db : Db) (s : ServerId) :
    (countDiscovery done db).Registered s ↔ db.Registered s := by
  cases done <;> rfl

theorem unsafeDiscoverSlotsAux_slots {db : Db} (h : WellPlaced db) (clock : ℕ → ℤ) (rules : List WeightRule)
    (shards : List Reply) (s : ServerId) (now : ℤ) :
    let r := unsafeDiscoverSlotsAux clock rules (some (.array shards)) s db
    let host := hostname (db.server s).address
    ((∃ location k, Assigns db.tls host shards location k) → ∀ t, r.2.Registered t → ∀ k < nredisClusterSlots,
        ((r.2.server t).slots k = true ↔ Assigns db.tls host shards (r.2.server t).raw k)) ∧
      ((¬ ∃ location k, Assigns db.tls host shards location k) →
        (∀ t, db.Registered t → (r.2.server t).slots = (db.server t).slots) ∧ r.1 = false) ∧
      (r.2.stats.discoveriesTotal = db.stats.discoveriesTotal + 1 ∧
          r.2.stats.discoveriesFailed = db.stats.discoveriesFailed ∨
        r.2.stats.discoveriesTotal = db.stats.discoveriesTotal ∧
          r.2.stats.discoveriesFailed = db.stats.discoveriesFailed + 1) ∧
      (∀ reply node, parseNode db.tls host reply = some node ∧ (unsafeAddNode now rules node db).1.isSome = true ↔
        IsNode db.tls host reply node ∧ node.location.length < 256) := by
  obtain ⟨topology, hv, he⟩ := unsafeDiscoverSlotsAux_visited h clock rules shards s
  rw [he]
  dsimp only
  rw [exists_assigns_iff, ← hv.reset]
  simp only [assigns_iff, countDiscovery_server, countDiscovery_registered]
  refine ⟨?_, ?_, ?_, ?_⟩
  · intro hr t ht k hk
    exact hv.registered hr t ht k hk
  · intro hr
    rw [Bool.not_eq_true] at hr
    refine ⟨fun t ht => hv.kept hr t ht, ?_⟩
    rw [decide_eq_false_iff_not]
    intro hpos
    rw [hv.reset_of_pos hpos] at hr
    exact Bool.false_ne_true hr.symm
  · cases decide (0 < topology.slotRanges) with
    | true => exact Or.inl ⟨congrArg (· + 1) hv.discoveriesTotal, hv.discoveriesFailed⟩
    | false => exact Or.inr ⟨hv.discoveriesTotal, congrArg (· + 1) hv.discoveriesFailed⟩
  · intro reply node
    rw [parseNode_iff, unsafeAddNode_isSome_iff h]

def seeded : Db :=
  (unsafeAddRedisServer ⟨⟨0, false, none⟩, 0⟩ [] (bytes "10.0.0.1:6379") .tbd
    (newVmodRedisDb ⟨0, 0, 0, false, 1, .off, 0, false, true, 0⟩)).2

theorem seeded_wellPlaced : WellPlaced seeded :=
  unsafeAddRedisServer_wellPlaced (newVmodRedisDb_wellPlaced _) _ _ _ _

def sampleNode : Reply :=
  .array [.string (bytes "port"), .integer 6379, .string (bytes "role"), .string (bytes "master")]

def sampleShards : List Reply :=
  [.array [.string (bytes "slots"), .array [.integer 0, .integer 5], .string (bytes "nodes"), .array [sampleNode]]]

theorem sampleShards_assigns : Assigns .off (bytes "10.0.0.1") sampleShards (bytes "10.0.0.1:6379") 3 := by
  refine ⟨_, List.mem_singleton_self _, [.integer 0, .integer 5], [sampleNode], ?_, ⟨0, 0, 5, rfl, rfl, ?_⟩, _,
    List.mem_singleton_self _, ⟨bytes "10.0.0.1", 6379, .master, true⟩, ?_, rfl, by decide⟩
  · exact (parseShard_iff _ _ _).mp rfl
  · decide
  · exact (parseNode_iff _ _ _ _).mp rfl

theorem unsafeDiscoverSlotsAux_slots_sample :
    ((unsafeDiscoverSlotsAux (fun _ => 0) [] (some (.array sampleShards)) 0 seeded).2.server 0).slots 3 = true ∧
      ((unsafeDiscoverSlotsAux (fun _ => 0) [] (some (.array sampleShards)) 0 seeded).2.server 0).slots 9 = false := by
  refine ⟨?_, rfl⟩
  refine ((unsafeDiscoverSlotsAux_slots seeded_wellPlaced (fun _ => 0) [] sampleShards 0 0).1
    ⟨_, 3, sampleShards_assigns⟩ 0 ?_ 3 (by decide)).mpr sampleShards_assigns
  exact ⟨(3, .master), List.mem_singleton_self _⟩

end VmodRedis.Discovery
