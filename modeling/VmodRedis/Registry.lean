import VmodRedis.Connections
import VmodRedis.Lib.Buckets

namespace VmodRedis.Registry

open CStrings Replies Database Connections

def newRedisServer (db : Db) (location : Bytes) (role : Role) : Option Server :=
  let address := match strrchr location colon with
    | some (host, port) => .host host (atoi port)
    | none => .path (cstr location)
  if db.clusterEnabled ∧ ¬ address.isHost then none
  else some
    { raw := cstr location, address := address, role := role, weight := 0, pool := .empty,
      slots := fun _ => false, sickness := ⟨0, 0⟩ }

/-- What a role discovery meets: the clock, whether the ephemeral connection is established, and
the reply to `ROLE`, if any. -/
structure RoleQuery where
  now : ℤ
  connected : Bool
  reply : Option Reply

def RoleQuery.role (q : RoleQuery) : Role :=
  if q.connected then
    match q.reply with
    | some (.array (.string str :: _)) =>
      if strcmp str (bytes "master") then .master
      else if strcmp str (bytes "slave") then .slave
      else .tbd
    | _ => .tbd
  else .tbd

def unsafeDiscoverRedisServerRole (q : RoleQuery) (s : ServerId) (db : Db) : Role × Db :=
  (q.role, newRcontext q.now true q.connected s db)

structure AddInput where
  query : RoleQuery
  now : ℤ

def findServer (db : Db) (location : Bytes) : Option (Bucket × ServerId) :=
  buckets.findSome? fun b =>
    ((db.servers b).find? fun s => strcmp (db.server s).raw location).map fun s => (b, s)

def serverWeight (rules : List WeightRule) (v : Server) : Weight :=
  if v.address.isHost then
    match rules.find? fun rule => rule.vre v.raw with
    | some rule => rule.weight
    | none => 3
  else 0

def createdRole (q : RoleQuery) (s : ServerId) (role : Role) (db : Db) : Role × Db :=
  if role = .tbd then unsafeDiscoverRedisServerRole q s db else (role, db)

def updatedRole (q : RoleQuery) (s : ServerId) (role : Role) (db : Db) : Role × Db :=
  if role = .tbd then
    let (r, db) := unsafeDiscoverRedisServerRole q s db
    (if r ≠ .tbd then r else (db.server s).role, db)
  else (role, db)

def createServer (input : AddInput) (rules : List WeightRule) (v : Server) (db : Db) : ServerId × Db :=
  let s := db.nextServer
  let db := { db with nextServer := s + 1 }.setServer s v
  let (role, db) := createdRole input.query s v.role db
  let v := db.server s
  let db := db.setServer s { v with role := role, weight := serverWeight rules v }
  let db := db.setStats { db.stats with serversTotal := db.stats.serversTotal + 1 }
  (s, db.insertServer s)

def updateServer (input : AddInput) (role : Role) (b : Bucket) (s : ServerId) (db : Db) : Db :=
  let db := { db with servers := Function.update db.servers b ((db.servers b).erase s) }
  let (role, db) := updatedRole input.query s role db
  let db := db.setServer s { db.server s with role := role }
  (flushSickness input.now s db).insertServer s

def unsafeAddRedisServer (input : AddInput) (rules : List WeightRule) (location : Bytes) (role : Role)
    (db : Db) : Option ServerId × Db :=
  match findServer db location with
  | none =>
    match newRedisServer db location role with
    | some v =>
      let (s, db) := createServer input rules v db
      (some s, db)
    | none => (none, db.setStats { db.stats with serversFailed := db.stats.serversFailed + 1 })
  | some (b, s) => (some s, updateServer input role b s db)

/-- The invariant of the lists of servers. -/
structure WellPlaced (db : Db) : Prop where
  placed : Buckets.Placed (fun s => (db.server s).bucket) db.servers
  allocated : ∀ s, db.Registered s → s < db.nextServer
  raw_injective : ∀ s t, db.Registered s → db.Registered t → (db.server s).raw = (db.server t).raw → s = t
  raw_cstr : ∀ s, db.Registered s → cstr (db.server s).raw = (db.server s).raw
  total : db.stats.serversTotal = db.allServers.length
  hosts : db.clusterEnabled = true → ∀ s, db.Registered s → (db.server s).address.isHost = true

theorem WellPlaced.allServers_nodup {db : Db} (h : WellPlaced db) : db.allServers.Nodup :=
  h.placed.flatMap_nodup buckets_nodup

theorem WellPlaced.congr {db db' : Db} (h : WellPlaced db) (hoptions : db'.toOptions = db.toOptions)
    (hservers : db'.servers = db.servers) (hnext : db'.nextServer = db.nextServer)
    (htotal : db'.stats.serversTotal = db.stats.serversTotal)
    (hraw : ∀ s, (db'.server s).raw = (db.server s).raw)
    (haddress : ∀ s, (db'.server s).address = (db.server s).address)
    (hbucket : ∀ s, (db'.server s).bucket = (db.server s).bucket) : WellPlaced db' := by
  have hregistered : ∀ s, db'.Registered s ↔ db.Registered s := fun s => by
    simp only [Db.Registered, hservers]
  constructor
  case placed =>
    rw [hservers]
    exact h.placed.congr_key fun s _ => hbucket s
  case allocated =>
    intro s hr
    rw [hnext]
    exact h.allocated s ((hregistered s).mp hr)
  case raw_injective =>
    intro s t hrs hrt he
    rw [hraw, hraw] at he
    exact h.raw_injective s t ((hregistered s).mp hrs) ((hregistered t).mp hrt) he
  case raw_cstr =>
    intro s hr
    rw [hraw]
    exact h.raw_cstr s ((hregistered s).mp hr)
  case total =>
    rw [htotal, h.total, Db.allServers, Db.allServers, hservers]
  case hosts =>
    intro hc s hr
    rw [haddress]
    exact h.hosts (by rw [← hc, hoptions]) s ((hregistered s).mp hr)

theorem WellPlaced.same {db db' : Db} (h : WellPlaced db) (hs : SameRegistry db db') : WellPlaced db' :=
  h.congr hs.options hs.servers hs.nextServer hs.serversTotal hs.raw hs.address hs.bucket

theorem newVmodRedisDb_wellPlaced (options : Options) : WellPlaced (newVmodRedisDb options) := by
  have hnone : ∀ s, ¬ (newVmodRedisDb options).Registered s := fun s ⟨b, hb⟩ => List.not_mem_nil hb
  constructor
  case placed => exact ⟨fun _ _ hs => absurd hs List.not_mem_nil, fun _ => List.nodup_nil⟩
  case total => rfl
  case hosts => exact fun _ s hs => absurd hs (hnone s)
  case allocated => exact fun s hs => absurd hs (hnone s)
  case raw_injective => exact fun s _ hs => absurd hs (hnone s)
  case raw_cstr => exact fun s hs => absurd hs (hnone s)

theorem findServer_none {db : Db} {location : Bytes} (h : findServer db location = none) (s : ServerId)
    (hs : db.Registered s) : cstr (db.server s).raw ≠ cstr location := by
  obtain ⟨b, hb⟩ := hs
  intro he
  have hf := List.findSome?_eq_none_iff.mp h b (mem_buckets b)
  rw [Option.map_eq_none_iff, List.find?_eq_none] at hf
  exact hf s hb ((strcmp_iff _ _).mpr he)

theorem findServer_some {db : Db} {location : Bytes} {b : Bucket} {s : ServerId}
    (h : findServer db location = some (b, s)) :
    s ∈ db.servers b ∧ cstr (db.server s).raw = cstr location := by
  obtain ⟨c, _, hc⟩ := List.exists_of_findSome?_eq_some h
  obtain ⟨t, ht, he⟩ := Option.map_eq_some_iff.mp hc
  obtain ⟨rfl, rfl⟩ := Prod.mk.inj he
  exact ⟨List.mem_of_find?_eq_some ht, (strcmp_iff _ _).mp (by simpa using List.find?_some ht)⟩

theorem newRedisServer_eq_some {db : Db} {location : Bytes} {role : Role} {v : Server}
    (h : newRedisServer db location role = some v) :
    v.raw = cstr location ∧ v.role = role ∧ v.pool = .empty ∧ v.slots = (fun _ => false) ∧
      (db.clusterEnabled = true → v.address.isHost = true) := by
  unfold newRedisServer at h
  dsimp only at h
  split_ifs at h with hc
  obtain rfl := Option.some.inj h
  refine ⟨rfl, rfl, rfl, rfl, fun he => ?_⟩
  by_contra hn
  exact hc ⟨he, hn⟩

structure Added (db : Db) (s : ServerId) (db' : Db) : Prop where
  options : db'.toOptions = db.toOptions
  registered : ∀ t, db'.Registered t ↔ db.Registered t ∨ t = s
  others : ∀ t, t ≠ s → db'.server t = db.server t
  discoveriesTotal : db'.stats.discoveriesTotal = db.stats.discoveriesTotal
  discoveriesFailed : db'.stats.discoveriesFailed = db.stats.discoveriesFailed
  kept : db.Registered s → (db'.server s).raw = (db.server s).raw ∧
    (db'.server s).address = (db.server s).address ∧ (db'.server s).weight = (db.server s).weight ∧
    (db'.server s).slots = (db.server s).slots ∧ (db'.server s).pool = (db.server s).pool
  created : ¬ db.Registered s → s = db.nextServer ∧ (db'.server s).slots = (fun _ => false) ∧
    (db'.server s).pool = .empty

theorem Added.allServers_length {db db' : Db} {s : ServerId} (h : Added db s db') (hn : db.allServers.Nodup)
    (hn' : db'.allServers.Nodup) :
    db'.allServers.length = db.allServers.length + if db.Registered s then 0 else 1 := by
  split_ifs with hs
  · apply List.Perm.length_eq
    rw [List.perm_ext_iff_of_nodup hn' hn]
    intro t
    rw [Db.mem_allServers, Db.mem_allServers, h.registered]
    exact or_iff_left_of_imp fun ht => ht ▸ hs
  · have hs' : s ∉ db.allServers := (Db.mem_allServers db s).not.mpr hs
    rw [← List.length_cons (a := s)]
    apply List.Perm.length_eq
    rw [List.perm_ext_iff_of_nodup hn' (List.nodup_cons.mpr ⟨hs', hn⟩)]
    intro t
    rw [Db.mem_allServers, h.registered, List.mem_cons, Db.mem_allServers, or_comm]

/-- The state `d` between taking the server `s` out of the lists of `db` and putting it back. A new
server was in no list: it counts as taken out. -/
structure Detached (db : Db) (s : ServerId) (d : Db) : Prop where
  options : d.toOptions = db.toOptions
  servers : d.servers = Buckets.remove (fun t => (db.server t).bucket) s db.servers
  others : ∀ t, t ≠ s → d.server t = db.server t
  discoveriesTotal : d.stats.discoveriesTotal = db.stats.discoveriesTotal
  discoveriesFailed : d.stats.discoveriesFailed = db.stats.discoveriesFailed
  allocated : s < d.nextServer ∧ db.nextServer ≤ d.nextServer
  raw_ne : ∀ t, db.Registered t → t ≠ s → (db.server t).raw ≠ (d.server s).raw
  raw_cstr : cstr (d.server s).raw = (d.server s).raw
  host : db.clusterEnabled = true → (d.server s).address.isHost = true
  kept : db.Registered s → (d.server s).raw = (db.server s).raw ∧
    (d.server s).address = (db.server s).address ∧ (d.server s).weight = (db.server s).weight ∧
    (d.server s).slots = (db.server s).slots ∧ (d.server s).pool = (db.server s).pool
  created : ¬ db.Registered s → s = db.nextServer ∧ (d.server s).slots = (fun _ => false) ∧
    (d.server s).pool = .empty

namespace Detached

variable {db d d' : Db} {s : ServerId}

theorem sickness (h : Detached db s d) (hs : SicknessOnly s d d') : Detached db s d' where
  options := hs.same.options.trans h.options
  servers := hs.same.servers.trans h.servers
  others t ht := (hs.of_ne ht).trans (h.others t ht)
  discoveriesTotal := hs.same.discoveriesTotal.trans h.discoveriesTotal
  discoveriesFailed := hs.same.discoveriesFailed.trans h.discoveriesFailed
  allocated := by rw [hs.same.nextServer]; exact h.allocated
  raw_ne := by rw [hs.same.raw]; exact h.raw_ne
  raw_cstr := by rw [hs.same.raw]; exact h.raw_cstr
  host := by rw [hs.same.address]; exact h.host
  kept := by
    rw [hs.same.raw, hs.same.address, hs.same.weight, hs.same.slots, hs.pool]
    exact h.kept
  created := by
    rw [hs.same.slots, hs.pool]
    exact h.created

theorem setRole (h : Detached db s d) (r : Role) :
    Detached db s (d.setServer s { d.server s with role := r }) where
  options := h.options
  servers := h.servers
  others t ht := by simpa [ht] using h.others t ht
  discoveriesTotal := h.discoveriesTotal
  discoveriesFailed := h.discoveriesFailed
  allocated := h.allocated
  raw_ne := by simpa using h.raw_ne
  raw_cstr := by simpa using h.raw_cstr
  host := by simpa using h.host
  kept := by simpa using h.kept
  created := by simpa using h.created

theorem setWeight (h : Detached db s d) (hn : ¬ db.Registered s) (r : Role) (w : Weight) :
    Detached db s (d.setServer s { d.server s with role := r, weight := w }) where
  options := h.options
  servers := h.servers
  others t ht := by simpa [ht] using h.others t ht
  discoveriesTotal := h.discoveriesTotal
  discoveriesFailed := h.discoveriesFailed
  allocated := h.allocated
  raw_ne := by simpa using h.raw_ne
  raw_cstr := by simpa using h.raw_cstr
  host := by simpa using h.host
  kept hr := absurd hr hn
  created := by simpa using h.created

theorem count (h : Detached db s d) (stats : Stats)
    (ht : stats.discoveriesTotal = d.stats.discoveriesTotal)
    (hf : stats.discoveriesFailed = d.stats.discoveriesFailed) : Detached db s (d.setStats stats) :=
  ⟨h.options, h.servers, h.others, ht.trans h.discoveriesTotal, hf.trans h.discoveriesFailed, h.allocated,
    h.raw_ne, h.raw_cstr, h.host, h.kept, h.created⟩

theorem registered_insert (h : Detached db s d) (hp : WellPlaced db) (t : ServerId) :
    (d.insertServer s).Registered t ↔ db.Registered t ∨ t = s := by
  change Buckets.Member (Buckets.insert (fun t => (d.server t).bucket) s d.servers) t ↔ _
  rw [h.servers]
  exact hp.placed.member_move

theorem insert_added (h : Detached db s d) (hp : WellPlaced db) : Added db s (d.insertServer s) :=
  ⟨h.options, h.registered_insert hp, h.others, h.discoveriesTotal, h.discoveriesFailed, h.kept, h.created⟩

theorem insert_placed (h : Detached db s d) (hp : WellPlaced db) :
    Buckets.Placed (fun t => ((d.insertServer s).server t).bucket) (d.insertServer s).servers := by
  change Buckets.Placed (fun t => (d.server t).bucket)
    (Buckets.insert (fun t => (d.server t).bucket) s d.servers)
  rw [h.servers]
  exact hp.placed.move fun t ht => by rw [h.others t ht]

theorem insert_wellPlaced (h : Detached db s d) (hp : WellPlaced db)
    (ht : d.stats.serversTotal = db.stats.serversTotal + if db.Registered s then 0 else 1) :
    WellPlaced (d.insertServer s) where
  placed := h.insert_placed hp
  allocated t hr := by
    rcases (h.registered_insert hp t).mp hr with hr | rfl
    · exact (hp.allocated t hr).trans_le h.allocated.2
    · exact h.allocated.1
  raw_injective t u hrt hru he := by
    change (d.server t).raw = (d.server u).raw at he
    by_cases hts : t = s <;> by_cases hus : u = s
    · rw [hts, hus]
    · subst hts
      rw [h.others u hus] at he
      exact absurd he.symm (h.raw_ne u (((h.registered_insert hp u).mp hru).resolve_right hus) hus)
    · subst hus
      rw [h.others t hts] at he
      exact absurd he (h.raw_ne t (((h.registered_insert hp t).mp hrt).resolve_right hts) hts)
    · rw [h.others t hts, h.others u hus] at he
      exact hp.raw_injective t u (((h.registered_insert hp t).mp hrt).resolve_right hts)
        (((h.registered_insert hp u).mp hru).resolve_right hus) he
  raw_cstr t hr := by
    change cstr (d.server t).raw = (d.server t).raw
    by_cases hts : t = s
    · rw [hts, h.raw_cstr]
    · rw [h.others t hts]
      exact hp.raw_cstr t (((h.registered_insert hp t).mp hr).resolve_right hts)
  total := by
    have hl := (h.insert_added hp).allServers_length hp.allServers_nodup
      ((h.insert_placed hp).flatMap_nodup buckets_nodup)
    rw [hl, ← hp.total]
    exact ht
  hosts hc t hr := by
    change (d.server t).address.isHost = true
    have hc' : db.clusterEnabled = true := by rw [← hc]; exact (congrArg _ h.options).symm
    by_cases hts : t = s
    · rw [hts]
      exact h.host hc'
    · rw [h.others t hts]
      exact hp.hosts hc' t (((h.registered_insert hp t).mp hr).resolve_right hts)

end Detached

theorem WellPlaced.detached {db : Db} (h : WellPlaced db) {s : ServerId} (hs : db.Registered s) :
    Detached db s (db.removeServer s) where
  options := rfl
  servers := rfl
  others _ _ := rfl
  discoveriesTotal := rfl
  discoveriesFailed := rfl
  allocated := ⟨h.allocated s hs, le_refl _⟩
  raw_ne t ht hne he := hne (h.raw_injective t s ht hs he)
  raw_cstr := h.raw_cstr s hs
  host hc := h.hosts hc s hs
  kept _ := ⟨rfl, rfl, rfl, rfl, rfl⟩
  created hn := absurd hs hn

theorem WellPlaced.next_unregistered {db : Db} (h : WellPlaced db) : ¬ db.Registered db.nextServer :=
  fun hs => (h.allocated _ hs).false

theorem WellPlaced.new_detached {db : Db} (h : WellPlaced db) {location : Bytes} {role : Role} {v : Server}
    (hf : findServer db location = none) (hv : newRedisServer db location role = some v) :
    Detached db db.nextServer ({ db with nextServer := db.nextServer + 1 }.setServer db.nextServer v) := by
  obtain ⟨hraw, -, hpool, hslots, hhost⟩ := newRedisServer_eq_some hv
  constructor
  case servers => exact (Buckets.remove_of_not_member h.next_unregistered).symm
  case others => intro t ht; simp [ht]
  case raw_ne =>
    intro t ht _
    simp only [Db.setServer_server, Function.update_self, hraw]
    rw [← h.raw_cstr t ht]
    exact findServer_none hf t ht
  case raw_cstr => simp [hraw]
  case host => simpa using hhost
  case kept => exact fun hr => absurd hr h.next_unregistered
  case created => simp [hpool, hslots]
  case allocated => exact ⟨Nat.lt_succ_self _, Nat.le_succ _⟩
  all_goals rfl

theorem createdRole_only (q : RoleQuery) (s : ServerId) (role : Role) (db : Db) :
    SicknessOnly s db (createdRole q s role db).2 := by
  unfold createdRole
  split_ifs
  · exact newRcontext_only _ _ _ _ _
  · exact .refl s db

theorem updatedRole_only (q : RoleQuery) (s : ServerId) (role : Role) (db : Db) :
    SicknessOnly s db (updatedRole q s role db).2 := by
  unfold updatedRole
  split_ifs
  · exact newRcontext_only _ _ _ _ _
  · exact .refl s db

theorem createServer_spec {db : Db} (h : WellPlaced db) (input : AddInput) (rules : List WeightRule)
    {location : Bytes} {role : Role} {v : Server} (hf : findServer db location = none)
    (hv : newRedisServer db location role = some v) :
    (createServer input rules v db).1 = db.nextServer ∧
      Added db db.nextServer (createServer input rules v db).2 ∧
      WellPlaced (createServer input rules v db).2 ∧
      ((createServer input rules v db).2.server db.nextServer).raw = cstr location := by
  let s := db.nextServer
  let d := { db with nextServer := s + 1 }.setServer s v
  have hsick : SicknessOnly s d (createdRole input.query s v.role d).2 := createdRole_only _ _ _ _
  have hd := ((h.new_detached hf hv).sickness hsick).setWeight h.next_unregistered
    (createdRole input.query s v.role d).1
    (serverWeight rules ((createdRole input.query s v.role d).2.server s))
  have hc := hd.count { (createdRole input.query s v.role d).2.stats with
    serversTotal := (createdRole input.query s v.role d).2.stats.serversTotal + 1 } rfl rfl
  refine ⟨rfl, hc.insert_added h, hc.insert_wellPlaced h ?_, ?_⟩
  · rw [if_neg h.next_unregistered]
    exact congrArg (· + 1) hsick.same.serversTotal
  · rw [← (newRedisServer_eq_some hv).1]
    change (Function.update (createdRole input.query s v.role d).2.server s _ s).raw = v.raw
    rw [Function.update_self]
    exact (hsick.same.raw s).trans (by simp [d])

theorem updateServer_spec {db : Db} (h : WellPlaced db) (input : AddInput) (role : Role) {b : Bucket}
    {s : ServerId} (hb : s ∈ db.servers b) :
    Added db s (updateServer input role b s db) ∧ WellPlaced (updateServer input role b s db) := by
  have hs : db.Registered s := ⟨b, hb⟩
  obtain rfl := h.placed.key_eq b s hb
  have hsick : SicknessOnly s (db.removeServer s) (updatedRole input.query s role (db.removeServer s)).2 :=
    updatedRole_only _ _ _ _
  have hd := (((h.detached hs).sickness hsick).setRole
    (updatedRole input.query s role (db.removeServer s)).1).sickness (flushSickness_only input.now s _)
  refine ⟨hd.insert_added h, hd.insert_wellPlaced h ?_⟩
  rw [if_pos hs, (flushSickness_only input.now s _).same.serversTotal]
  exact hsick.same.serversTotal

theorem unsafeAddRedisServer_spec {db : Db} (h : WellPlaced db) (input : AddInput)
    (rules : List WeightRule) (location : Bytes) (role : Role) :
    (∃ s db', unsafeAddRedisServer input rules location role db = (some s, db') ∧ Added db s db' ∧
        WellPlaced db' ∧ (db'.server s).raw = cstr location) ∨
      (newRedisServer db location role = none ∧ unsafeAddRedisServer input rules location role db =
        (none, db.setStats { db.stats with serversFailed := db.stats.serversFailed + 1 })) := by
  unfold unsafeAddRedisServer
  cases hf : findServer db location with
  | none =>
    cases hv : newRedisServer db location role with
    | none => exact Or.inr ⟨rfl, rfl⟩
    | some v =>
      obtain ⟨h1, h2, h3, h4⟩ := createServer_spec h input rules hf hv
      exact Or.inl ⟨_, _, by simp only [h1], h2, h3, h4⟩
  | some p =>
    obtain ⟨b, s⟩ := p
    obtain ⟨hb, hraw⟩ := findServer_some hf
    obtain ⟨h1, h2⟩ := updateServer_spec h input role hb
    refine Or.inl ⟨s, _, rfl, h1, h2, ?_⟩
    rw [(h1.kept ⟨b, hb⟩).1, ← h.raw_cstr s ⟨b, hb⟩, hraw]

theorem unsafeAddRedisServer_wellPlaced {db : Db} (h : WellPlaced db) (input : AddInput)
    (rules : List WeightRule) (location : Bytes) (role : Role) :
    WellPlaced (unsafeAddRedisServer input rules location role db).2 := by
  rcases unsafeAddRedisServer_spec h input rules location role with ⟨s, db', he, -, hw, -⟩ | ⟨-, he⟩
  · rw [he]
    exact hw
  · rw [he]
    exact h.same (.setStats db _ rfl rfl rfl)

/-- No server is lost, and none changes what identifies it. -/
structure Retains (db db' : Db) : Prop where
  options : db'.toOptions = db.toOptions
  registered : ∀ s, db.Registered s → db'.Registered s
  raw : ∀ s, db.Registered s → (db'.server s).raw = (db.server s).raw
  address : ∀ s, db.Registered s → (db'.server s).address = (db.server s).address
  weight : ∀ s, db.Registered s → (db'.server s).weight = (db.server s).weight

theorem Retains.refl (db : Db) : Retains db db :=
  ⟨rfl, fun _ h => h, fun _ _ => rfl, fun _ _ => rfl, fun _ _ => rfl⟩

theorem Retains.trans {a b c : Db} (h : Retains a b) (h' : Retains b c) : Retains a c where
  options := h'.options.trans h.options
  registered s hs := h'.registered s (h.registered s hs)
  raw s hs := (h'.raw s (h.registered s hs)).trans (h.raw s hs)
  address s hs := (h'.address s (h.registered s hs)).trans (h.address s hs)
  weight s hs := (h'.weight s (h.registered s hs)).trans (h.weight s hs)

theorem retains_of_same {db db' : Db} (h : SameRegistry db db') : Retains db db' :=
  ⟨h.options, fun s => (h.registered s).mpr, fun s _ => h.raw s, fun s _ => h.address s, fun s _ => h.weight s⟩

def PoolsKept (db db' : Db) : Prop := ∀ s, (db'.server s).pool = (db.server s).pool ∨ (db'.server s).pool = .empty

theorem PoolsKept.of_eq {db db' : Db} (h : ∀ s, (db'.server s).pool = (db.server s).pool) : PoolsKept db db' :=
  fun s => Or.inl (h s)

theorem PoolsKept.trans {a b c : Db} (h : PoolsKept a b) (h' : PoolsKept b c) : PoolsKept a c := fun s => by
  rcases h' s with hs | hs
  · rw [hs]
    exact h s
  · exact Or.inr hs

theorem Added.pools {db db' : Db} {s : ServerId} (h : Added db s db') : PoolsKept db db' := fun t => by
  by_cases hts : t = s
  · subst hts
    by_cases ht : db.Registered t
    · exact Or.inl (h.kept ht).2.2.2.2
    · exact Or.inr (h.created ht).2.2
  · rw [h.others t hts]
    exact Or.inl rfl

theorem Added.refl {db : Db} {s : ServerId} (hs : db.Registered s) : Added db s db where
  options := rfl
  registered _ := (or_iff_left_of_imp fun ht => ht ▸ hs).symm
  others _ _ := rfl
  discoveriesTotal := rfl
  discoveriesFailed := rfl
  kept _ := ⟨rfl, rfl, rfl, rfl, rfl⟩
  created hn := absurd hs hn

theorem Added.retains {db db' : Db} {s : ServerId} (h : Added db s db') : Retains db db' := by
  have hkeep : ∀ t, db.Registered t → (db'.server t).raw = (db.server t).raw ∧
      (db'.server t).address = (db.server t).address ∧ (db'.server t).weight = (db.server t).weight := by
    intro t ht
    by_cases hts : t = s
    · subst hts
      obtain ⟨h1, h2, h3, -⟩ := h.kept ht
      exact ⟨h1, h2, h3⟩
    · rw [h.others t hts]
      exact ⟨rfl, rfl, rfl⟩
  exact ⟨h.options, fun t ht => (h.registered t).mpr (Or.inl ht), fun t ht => (hkeep t ht).1,
    fun t ht => (hkeep t ht).2.1, fun t ht => (hkeep t ht).2.2⟩

theorem foldl_retains {α : Type} {f : Db → α → Db} {P : Db → α → Prop}
    (hstep : ∀ db a, WellPlaced db → P db a → Retains db (f db a) ∧ WellPlaced (f db a))
    (hkeep : ∀ db db' a, Retains db db' → P db a → P db' a) (l : List α) {db : Db} (h : WellPlaced db)
    (hP : ∀ a ∈ l, P db a) : Retains db (l.foldl f db) ∧ WellPlaced (l.foldl f db) := by
  induction l generalizing db with
  | nil => exact ⟨.refl db, h⟩
  | cons a l ih =>
    obtain ⟨hr, hw⟩ := hstep db a h (hP a (by simp))
    obtain ⟨hr', hw'⟩ := ih hw fun b hb => hkeep db _ b hr (hP b (by simp [hb]))
    exact ⟨hr.trans hr', hw'⟩

end VmodRedis.Registry
