import VmodRedis.SentinelHealth

namespace VmodRedis.SentinelLoop

open CStrings Replies Database Registry RegistryInvariant SentinelUpdate SentinelInventory TransitionSystem

structure Answer where
  clock : ℕ → ℤ
  reply : Reply

/-- What a Sentinel answers to `SENTINEL masters` and then to `SENTINEL slaves` for each master, in
order; nothing when it cannot be reached, or once the connection has failed. -/
structure SentinelAnswers where
  masters : Option Answer
  slaves : ℕ → Option Answer

def parseAnswer (answer : Option Answer) (st : State) : List Bytes × State :=
  match answer with
  | some answer => parseSentinelDiscovery answer.clock answer.reply st
  | none => ([], st)

def discoverSentinel (answers : SentinelAnswers) (st : State) : State :=
  let (names, st) := parseAnswer answers.masters st
  (List.range names.length).foldl (fun st i => (parseAnswer (answers.slaves i) st).2) st

def discoverServers (answers : List SentinelAnswers) (st : State) : State :=
  answers.foldl (fun st a => discoverSentinel a st) st

structure Config where
  active : Bool
  discovery : Bool
  dbs : List Db

def propagates (config : Config) (now : ℤ) (st : State) : Bool := config.discovery || now ≤ st.lastChange

def updateSection (clock : DbId → Bucket → ServerId → ℤ) (now : ℤ) (st : State) (config : Config) : Config :=
  if propagates config now st then
    { config with dbs := updateDbs st.servers clock config.dbs, discovery := false }
  else config

/-- Where the thread is in an iteration: `now` is the time at which the iteration began, and
`discovered` says whether it has executed a discovery. -/
inductive Phase where
  | top
  | discovering (now : ℤ)
  | checking (now : ℤ) (discovered : Bool)
  | stopped

/-- A completed iteration: `discovery` and `lastChange` are what its last section read. -/
structure Iteration where
  discovered : Bool
  now : ℤ
  discovery : Bool
  lastChange : ℤ
  servers : List Discovered
  before : List Db
  after : List Db

structure Run where
  config : Config
  phase : Phase
  state : State
  iterations : List Iteration

def due (period : ℕ) (now : ℤ) (config : Config) (st : State) : Bool :=
  config.discovery || (0 < period && st.nextDiscovery ≤ now)

/-- The sections of `sentinel_loop` and, between any two of them, what the VCL threads do: they
register and release databases, use their registries, and request or stop the discoveries. -/
inductive Step (period : ℕ) : Run → Run → Prop
  | stop (r : Run) (hp : r.phase = .top) (ha : r.config.active = false) : Step period r { r with phase := .stopped }
  | discover (r : Run) (now : ℤ) (hp : r.phase = .top) (ha : r.config.active = true)
      (hd : due period now r.config r.state = true) : Step period r { r with phase := .discovering now }
  | skip (r : Run) (now : ℤ) (hp : r.phase = .top) (ha : r.config.active = true)
      (hd : due period now r.config r.state = false) : Step period r { r with phase := .checking now false }
  | discovered (r : Run) (now : ℤ) (answers : List SentinelAnswers) (hp : r.phase = .discovering now) :
      Step period r { r with
        state := { discoverServers answers r.state with nextDiscovery := now + period }
        phase := if r.config.active then .checking now true else .stopped }
  | notify (r : Run) (now : ℤ) (discovered : Bool) (clock : ℕ → ℤ) (reply : Reply)
      (hp : r.phase = .checking now discovered) :
      Step period r { r with state := parseSentinelNotification clock reply r.state }
  | update (r : Run) (now : ℤ) (discovered : Bool) (clock : DbId → Bucket → ServerId → ℤ)
      (hp : r.phase = .checking now discovered) :
      Step period r { r with
        config := updateSection clock now r.state r.config
        phase := .top
        iterations := ⟨discovered, now, r.config.discovery, r.state.lastChange, r.state.servers, r.config.dbs,
          (updateSection clock now r.state r.config).dbs⟩ :: r.iterations }
  | request (r : Run) : Step period r { r with config := { r.config with discovery := true } }
  | deactivate (r : Run) : Step period r { r with config := { r.config with active := false } }
  | register (r : Run) (options : Options) (db : Db) (h : (registry options).Reachable db) :
      Step period r { r with config := { r.config with dbs := r.config.dbs ++ [db] } }
  | unregister (r : Run) (i : ℕ) : Step period r { r with config := { r.config with dbs := r.config.dbs.eraseIdx i } }
  | use (r : Run) (i : ℕ) (db db' : Db) (hi : r.config.dbs[i]? = some db) (hs : RegistryInvariant.Step db db') :
      Step period r { r with config := { r.config with dbs := r.config.dbs.set i db' } }

def loop (period : ℕ) : System Run where
  init r := r.config.active = true ∧ r.config.discovery = true ∧ r.phase = .top ∧ r.state = ⟨0, 0, []⟩ ∧
    r.iterations = [] ∧ ∀ db ∈ r.config.dbs, ∃ options, (registry options).Reachable db
  step := Step period

def Consistent (servers : List Discovered) (dbs : List Db) : Prop :=
  ∀ db ∈ dbs, db.clusterEnabled = false → ∀ s, db.Registered s → ∀ d ∈ servers,
    d.describes (db.server s) = true → (db.server s).role = d.role

theorem storeServer_apart {host : Bytes} {port : ℕ} {role : Role} {down : Option Bool} {e : Discovered}
    (hn : Discovered.isAt host port e = false) {l : List Discovered} (h : ∀ d ∈ l, e.sameAddress d = false) :
    ∀ d ∈ (storeServer host port role down l).1, e.sameAddress d = false := by
  induction l with
  | nil =>
    intro d hd
    obtain rfl := List.mem_singleton.mp hd
    simpa [Discovered.sameAddress, Discovered.isAt, strcmp] using hn
  | cons c l ih =>
    intro d hd
    have hc := h c (by simp)
    have hl : ∀ d ∈ l, e.sameAddress d = false := fun d hd => h d (List.mem_cons_of_mem c hd)
    by_cases hat : Discovered.isAt host port c = true
    · rw [storeServer_eq host port role down c l hat] at hd
      rcases List.mem_cons.mp hd with rfl | hd
      · exact hc
      · exact hl d hd
    · rw [storeServer_of_not_isAt host port role down l hat] at hd
      rcases List.mem_cons.mp hd with rfl | hd
      · exact hc
      · exact ih hl d hd

theorem storeServer_distinct {host : Bytes} {port : ℕ} {role : Role} {down : Option Bool} {l : List Discovered}
    (h : Distinct l) : Distinct (storeServer host port role down l).1 := by
  induction l with
  | nil => exact List.pairwise_singleton _ _
  | cons d l ih =>
    obtain ⟨hhead, htail⟩ := List.pairwise_cons.mp h
    by_cases hat : Discovered.isAt host port d = true
    · rw [storeServer_eq host port role down d l hat]
      exact List.pairwise_cons.mpr ⟨hhead, htail⟩
    · rw [storeServer_of_not_isAt host port role down l hat]
      exact List.pairwise_cons.mpr ⟨storeServer_apart (Bool.eq_false_iff.mpr hat) hhead, ih htail⟩

theorem parseSentinelNotification_distinct {st : State} (h : Distinct st.servers) (clock : ℕ → ℤ) (reply : Reply) :
    Distinct (parseSentinelNotification clock reply st).servers := by
  have hdown : ∀ event payload, Distinct (parseDownEvent (clock 0) event payload st).servers := by
    intro event payload
    unfold parseDownEvent
    split
    · split
      · exact storeServer_distinct h
      · exact h
    · exact h
  have hswitch : ∀ payload, Distinct (parseSwitchMaster clock payload st).servers := by
    intro payload
    unfold parseSwitchMaster
    split
    · exact storeServer_distinct (storeServer_distinct h)
    · exact h
  unfold parseSentinelNotification
  split
  · split_ifs
    · exact hdown _ _
    · exact hswitch _
    · exact h
    · exact h
  · exact h

theorem storeInstances_distinct (clock : ℕ → ℤ) (instances : List InstanceFields) {st : State}
    (h : Distinct st.servers) : Distinct (storeInstances clock instances st).servers := by
  induction instances generalizing clock st with
  | nil => exact h
  | cons fields rest ih =>
    apply ih
    unfold storeInstance
    split
    · split_ifs
      · exact storeServer_distinct h
      · exact h
    · exact h

theorem parseAnswer_distinct (answer : Option Answer) {st : State} (h : Distinct st.servers) :
    Distinct (parseAnswer answer st).2.servers := by
  cases answer with
  | none => exact h
  | some answer => exact storeInstances_distinct answer.clock _ h

theorem discoverServers_distinct (answers : List SentinelAnswers) {st : State} (h : Distinct st.servers) :
    Distinct (discoverServers answers st).servers := by
  have hslaves : ∀ (slaves : ℕ → Option Answer) (l : List ℕ) (st : State), Distinct st.servers →
      Distinct (l.foldl (fun st i => (parseAnswer (slaves i) st).2) st).servers := by
    intro slaves l
    induction l with
    | nil => exact fun _ h => h
    | cons i l ih => exact fun st h => ih _ (parseAnswer_distinct (slaves i) h)
  unfold discoverServers
  induction answers generalizing st with
  | nil => exact h
  | cons a answers ih => exact ih (hslaves a.slaves _ _ (parseAnswer_distinct a.masters h))

theorem updateDbs_reachable (servers : List Discovered) (clock : DbId → Bucket → ServerId → ℤ) {dbs : List Db}
    (h : ∀ db ∈ dbs, ∃ options, (registry options).Reachable db) :
    ∀ db ∈ updateDbs servers clock dbs, ∃ options, (registry options).Reachable db := by
  intro db' hm
  obtain ⟨db, hdb, rfl⟩ := List.mem_map.mp hm
  obtain ⟨options, hr⟩ := h db hdb
  exact ⟨options, hr.step (.sentinel db servers (clock db.id))⟩

theorem visited_address (servers : List Discovered) (ns : List ℤ) (v : Server) :
    (visited servers ns v).address = v.address := by
  induction ns generalizing v with
  | nil => rfl
  | cons n ns ih => exact (ih (updated servers n v)).trans (updated_address servers n v)

theorem visited_role {servers : List Discovered} {v : Server} {d : Discovered}
    (h : (servers.find? fun d => d.describes v) = some d) {ns : List ℤ} (hne : ns ≠ []) :
    (visited servers ns v).role = d.role := by
  induction ns generalizing v with
  | nil => exact absurd rfl hne
  | cons n ns ih =>
    have hrole : (updated servers n v).role = d.role := congrArg Server.role (updated_of_find h n)
    by_cases hns : ns = []
    · subst hns
      exact hrole
    · refine ih (v := updated servers n v) ?_ hns
      rw [← h]
      congr 1
      funext e
      exact describes_congr e (updated_address servers n v)

theorem updateDbs_consistent {servers : List Discovered} (hd : Distinct servers)
    (clock : DbId → Bucket → ServerId → ℤ) {dbs : List Db}
    (h : ∀ db ∈ dbs, ∃ options, (registry options).Reachable db) : Consistent servers (updateDbs servers clock dbs) := by
  intro db' hm hc s hs d hdm hv
  obtain ⟨db, hdb, rfl⟩ := List.mem_map.mp hm
  obtain ⟨options, hr⟩ := h db hdb
  have hw := reachable_wellPlaced hr
  have hs' := unsafeUpdateDbs_registered servers (clock db.id) hw hs
  have hc' : db.clusterEnabled = false := by
    rw [← hc, (unsafeUpdateDbs_spec hw servers (clock db.id)).1.options]
  obtain ⟨ns, hne, -, he⟩ := unsafeUpdateDbs_visited servers (clock db.id) hw hc' hs'
  rw [he] at hv ⊢
  apply visited_role _ hne
  apply find_describes hd hdm
  rw [← hv]
  exact (describes_congr d (visited_address servers ns (db.server s))).symm

structure Iteration.Sound (i : Iteration) : Prop where
  distinct : Distinct i.servers
  reachable : ∀ db ∈ i.before, ∃ options, (registry options).Reachable db
  after : ∃ clock, i.after =
    if i.discovery = true ∨ i.now ≤ i.lastChange then updateDbs i.servers clock i.before else i.before

structure Inv (r : Run) : Prop where
  distinct : Distinct r.state.servers
  reachable : ∀ db ∈ r.config.dbs, ∃ options, (registry options).Reachable db
  iterations : ∀ i ∈ r.iterations, i.Sound

theorem updateSection_dbs (clock : DbId → Bucket → ServerId → ℤ) (now : ℤ) (st : State) (config : Config) :
    (updateSection clock now st config).dbs =
      if config.discovery = true ∨ now ≤ st.lastChange then updateDbs st.servers clock config.dbs
      else config.dbs := by
  have hiff : propagates config now st = true ↔ config.discovery = true ∨ now ≤ st.lastChange := by
    simp [propagates]
  simp only [updateSection, hiff]
  split_ifs <;> rfl

theorem Inv.step {period : ℕ} {r r' : Run} (h : Inv r) (hs : Step period r r') : Inv r' := by
  cases hs with
  | stop => exact ⟨h.distinct, h.reachable, h.iterations⟩
  | discover => exact ⟨h.distinct, h.reachable, h.iterations⟩
  | skip => exact ⟨h.distinct, h.reachable, h.iterations⟩
  | discovered now answers hp => exact ⟨discoverServers_distinct answers h.distinct, h.reachable, h.iterations⟩
  | notify now discovered clock reply hp =>
    exact ⟨parseSentinelNotification_distinct h.distinct clock reply, h.reachable, h.iterations⟩
  | update now discovered clock hp =>
    have hdbs := updateSection_dbs clock now r.state r.config
    refine ⟨h.distinct, ?_, ?_⟩
    · change ∀ db ∈ (updateSection clock now r.state r.config).dbs, _
      rw [hdbs]
      split_ifs
      · exact updateDbs_reachable r.state.servers clock h.reachable
      · exact h.reachable
    · intro i hi
      rcases List.mem_cons.mp hi with rfl | hi
      · exact ⟨h.distinct, h.reachable, clock, hdbs⟩
      · exact h.iterations i hi
  | request => exact ⟨h.distinct, h.reachable, h.iterations⟩
  | deactivate => exact ⟨h.distinct, h.reachable, h.iterations⟩
  | register options db hdb =>
    refine ⟨h.distinct, fun d hd => ?_, h.iterations⟩
    rcases List.mem_append.mp hd with hd | hd
    · exact h.reachable d hd
    · obtain rfl := List.mem_singleton.mp hd
      exact ⟨options, hdb⟩
  | unregister i =>
    exact ⟨h.distinct, fun d hd => h.reachable d (List.mem_of_mem_eraseIdx hd), h.iterations⟩
  | use i db db' hi hs =>
    refine ⟨h.distinct, fun d hd => ?_, h.iterations⟩
    rcases List.mem_or_eq_of_mem_set hd with hd | rfl
    · exact h.reachable d hd
    · obtain ⟨options, hr⟩ := h.reachable db (List.mem_of_getElem? hi)
      exact ⟨options, hr.step hs⟩

theorem reachable_inv {period : ℕ} {r : Run} (h : (loop period).Reachable r) : Inv r := by
  refine System.invariant (P := Inv) ?_ ?_ h
  · rintro r ⟨-, -, -, hstate, hiterations, hdbs⟩
    refine ⟨?_, hdbs, ?_⟩
    · rw [hstate]
      exact .nil
    · rw [hiterations]
      simp
  · exact fun r r' _ hr hs => hr.step hs

/-- After the iterations that have executed a discovery the servers have the roles of the inventory if and
only if, in the last section of each of them, a discovery was requested, the inventory had changed since the
iteration began, or the roles were already there. -/
theorem discoveries_propagate {period : ℕ} {r : Run} (h : (loop period).Reachable r) :
    (∀ i ∈ r.iterations, i.discovered = true → Consistent i.servers i.after) ↔
      ∀ i ∈ r.iterations, i.discovered = true →
        i.discovery = true ∨ i.now ≤ i.lastChange ∨ Consistent i.servers i.before := by
  apply forall₂_congr
  intro i hi
  obtain ⟨hdistinct, hreachable, clock, hafter⟩ := (reachable_inv h).iterations i hi
  apply imp_congr_right
  intro _
  rw [hafter, ← or_assoc]
  by_cases hp : i.discovery = true ∨ i.now ≤ i.lastChange
  · rw [if_pos hp]
    exact iff_of_true (updateDbs_consistent hdistinct clock hreachable) (Or.inl hp)
  · rw [if_neg hp]
    exact (or_iff_right hp).symm

def oneMaster : SentinelAnswers where
  masters := some ⟨fun _ => 0, .array [.array [.string (bytes "name"), .string (bytes "mymaster"),
    .string (bytes "ip"), .string (bytes "10.0.0.1"), .string (bytes "port"), .string (bytes "6379"),
    .string (bytes "flags"), .string (bytes "master")]]⟩
  slaves _ := some ⟨fun _ => 0, .array []⟩

def foundMaster : List Discovered := [⟨bytes "10.0.0.1", 6379, .master, false⟩]

def registeredAtStart : Run where
  config := ⟨true, false, updateDbs foundMaster (fun _ _ _ => 0) [unreachable]⟩
  phase := .top
  state := ⟨0, 60, foundMaster⟩
  iterations := [⟨true, 0, true, 0, foundMaster, [unreachable], updateDbs foundMaster (fun _ _ _ => 0) [unreachable]⟩]

theorem registeredAtStart_reachable : (loop 60).Reachable registeredAtStart := by
  have h₀ : (loop 60).Reachable ⟨⟨true, true, [unreachable]⟩, .top, ⟨0, 0, []⟩, []⟩ :=
    System.reachable_init ⟨rfl, rfl, rfl, rfl, rfl, by simpa using unreachable_reachable⟩
  have h₁ := h₀.step (.discover _ 0 rfl rfl rfl)
  have h₂ := h₁.step (.discovered _ 0 [oneMaster] rfl)
  exact h₂.step (.update _ 0 true (fun _ _ _ => 0) rfl)

theorem unreachable_not_consistent : ¬ Consistent foundMaster [unreachable] := by
  intro hc
  have hs : unreachable.Registered 0 := (unreachable.mem_allServers 0).mp (by decide +kernel)
  have hrole := hc unreachable (List.mem_singleton_self _) rfl 0 hs _ (List.mem_singleton_self _) (by decide +kernel)
  revert hrole
  decide +kernel

theorem discoveries_propagate_start :
    ¬ Consistent foundMaster [unreachable] ∧
      Consistent foundMaster (updateDbs foundMaster (fun _ _ _ => 0) [unreachable]) :=
  ⟨unreachable_not_consistent,
    (discoveries_propagate registeredAtStart_reachable).mpr
      (fun _ hi _ => Or.inl (List.mem_singleton.mp hi ▸ rfl)) _ (List.mem_singleton_self _) rfl⟩

def discoveredAgain : Run where
  config := ⟨true, false, [unreachable]⟩
  phase := .top
  state := ⟨0, 120, foundMaster⟩
  iterations := [⟨true, 60, false, 0, foundMaster, [unreachable], [unreachable]⟩, ⟨true, 0, true, 0, foundMaster, [], []⟩]

theorem discoveredAgain_reachable : (loop 60).Reachable discoveredAgain := by
  obtain ⟨options, hdb⟩ := unreachable_reachable
  have h₀ : (loop 60).Reachable ⟨⟨true, true, []⟩, .top, ⟨0, 0, []⟩, []⟩ :=
    System.reachable_init ⟨rfl, rfl, rfl, rfl, rfl, by simp⟩
  have h₁ := h₀.step (.discover _ 0 rfl rfl rfl)
  have h₂ := h₁.step (.discovered _ 0 [oneMaster] rfl)
  have h₃ := h₂.step (.update _ 0 true (fun _ _ _ => 0) rfl)
  have h₄ := h₃.step (.register _ options unreachable hdb)
  have h₅ := h₄.step (.discover _ 60 rfl rfl rfl)
  have h₆ := h₅.step (.discovered _ 60 [oneMaster] rfl)
  exact h₆.step (.update _ 60 true (fun _ _ _ => 60) rfl)

theorem periodic_discovery_not_propagated :
    ¬ ∀ r, (loop 60).Reachable r → ∀ i ∈ r.iterations, i.discovered = true → Consistent i.servers i.after :=
  fun h => unreachable_not_consistent (h _ discoveredAgain_reachable _ List.mem_cons_self rfl)

end VmodRedis.SentinelLoop
