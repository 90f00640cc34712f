import VmodRedis.ClusterMap
import VmodRedis.Configuration
import VmodRedis.LifecycleProgress
import VmodRedis.PlanOrder

namespace VmodRedis.ClusterRouting

open CStrings Replies Database Connections Registry Planning DiscoveryWalk Execution ClusterExecution SharedPool Slots
open TransitionSystem DatabaseCreation

variable {w w' w'' : World}

structure Confined (T : ServerId → Prop) (w w' : World) : Prop where
  sound : Sound w'
  later : Later w w'
  mapped : ∀ m, Mirrors m w.db → Mirrors m w'.db
  sent : Logs (fun e => ∀ s c commands reply err, e = .exchange s c commands reply err → T s) w w'

def Reaches (T : ServerId → Prop) (w : World) (c : ContextId) : Prop := c < w.nextContext ∧ T (w.heap c).server

variable {T : ServerId → Prop}

theorem Reaches.later {c : ContextId} (h : Reaches T w c) (hl : Later w w') : Reaches T w' c := by
  obtain ⟨hlt, hs⟩ := h
  refine ⟨hlt.trans_le hl.nextContext, ?_⟩
  rwa [hl.server c hlt]

theorem Confined.trans (h : Confined T w w') (h' : Confined T w' w'') : Confined T w w'' :=
  ⟨h'.sound, h.later.trans h'.later, fun m hm => h'.mapped m (h.mapped m hm), h.sent.trans h'.sent⟩

theorem Confined.quiet (hw : Sound w) (he : Evolves w w') (hs : SameRegistry w.db w'.db)
    (hlogs : Logs (fun e => e.isExchange = false) w w') : Confined T w w' := by
  obtain ⟨hsound, hlater⟩ := he hw
  refine ⟨hsound, hlater, fun _ hm => hm.same hs, hlogs.mono ?_⟩
  rintro e he s c commands reply err rfl
  cases he

theorem getRedisRepy_confined (answer : Command → Option Reply) (asking : Bool) {c : ContextId} (args : List Bytes)
    (hw : Sound w) (hc : Reaches T w c) : Confined T w (getRedisRepy answer asking c args w).1 := by
  obtain ⟨hsound, hlater⟩ := Evolves.touch c { w.heap c with
    err := (w.heap c).err || (readReplies answer (pipeline (isReadonly w c) asking args)).2 } rfl hw
  refine ⟨⟨hsound.wellPlaced, hsound.allocated, hsound.owner⟩, ⟨hlater.retains, hlater.nextContext, hlater.server⟩,
    fun _ => id, ⟨[_], rfl, ?_⟩⟩
  rintro e he s d commands reply err rfl
  rw [List.mem_singleton, Event.exchange.injEq] at he
  rw [he.1]
  exact hc.2

theorem evict_quiet (he : evict w = some w') : w'.trace = w.trace := by
  unfold evict at he
  split_ifs at he
  · cases hc : w.task.contexts <;> rw [hc] at he <;> cases he
    rfl
  · cases he
    rfl

theorem createPrivate_quiet (input : AttemptInput) (s : ServerId) (w : World) :
    (createPrivate input s w).2.trace = w.trace := by
  unfold createPrivate
  dsimp only
  split_ifs <;> rfl

theorem act_quiet (w : World) (a : PoolAction) : (act w a).trace = w.trace := by
  cases a with
  | lock probe connected s => rfl
  | unlock c =>
    unfold act
    dsimp only
    split_ifs <;> rfl
  | fail c => rfl

theorem attemptRule_confined (T : ServerId → Prop) :
    AttemptRule (fun _ => True) T Sound (Confined T) (Reaches T) where
  refl hw := .quiet hw (.refl _) (.refl _) (.refl _)
  trans h h' := h.trans h'
  inv h := h.sound
  context h hc := hc.later h.later
  log e hw he := .quiet hw ((Evolves.refl _).log e) (.refl _) ⟨[e], rfl, by simpa using he⟩
  stats _ hw hs ht hf := .quiet hw (.stats hs ht hf) (.setStats _ _ hs ht hf) (.of_eq rfl)
  lock probe connected s hw _ hs := by
    refine ⟨.quiet hw (runSection_evolves probe connected s _) (lockSection_same _ s _ _) (.of_eq rfl), fun c hc => ?_⟩
    obtain ⟨hlt, hserver⟩ := runSection_context probe connected s hw hc
    exact ⟨hlt, by rwa [hserver]⟩
  act a hw _ := .quiet hw (act_evolves _ a) (act_same _ a) (.of_eq (act_quiet _ a))
  unlock c hw hc := .quiet hw (unlock_evolves c _ hc.1) (.setPool _ _ _) (.of_eq rfl)
  evict hw he := .quiet hw (evict_evolves he) (evict_same he) (.of_eq (evict_quiet he))
  create input s hw _ hs := by
    refine ⟨.quiet hw (createPrivate_evolves input s _) (createPrivate_same input s _)
      (.of_eq (createPrivate_quiet input s _)), fun c hc => ?_⟩
    obtain ⟨hlt, hserver⟩ := createPrivate_context hc
    exact ⟨hlt, by rwa [hserver]⟩
  exchange answer asking c args hw hc := getRedisRepy_confined answer asking args hw hc

structure Owns (db : Db) (master : Bool) (slot : ℕ) (s : ServerId) : Prop where
  slot : (db.server s).slots slot = true
  role : master = true → (db.server s).role = .master

section

variable {db db' : Db} {now : ℤ} {master : Bool} {slot : ℕ}

theorem candidate_iff (hw : WellPlaced db) (hcluster : db.clusterEnabled = true) (s : ServerId) :
    Candidate db now master slot .first s ↔ db.Registered s ∧ Owns db master slot s ∧ healthy db now s = true := by
  have hbody : ∀ b, s ∈ db.servers b → ((listConsidered master b.2 .first = true ∧
      serverConsidered db now master slot s .first = true) ↔ Owns db master slot s ∧ healthy db now s = true) := by
    intro b hb
    rw [← hw.placed.key_eq b s hb]
    have howns : Owns db master slot s ↔ (db.server s).slots slot = true ∧ (master = true → (db.server s).role = .master) :=
      ⟨fun h => ⟨h.slot, h.role⟩, fun h => ⟨h.1, h.2⟩⟩
    cases master <;> cases hrole : (db.server s).role <;>
      simp [listConsidered, serverConsidered, ownsSlot, Server.bucket, howns, hcluster, hrole]
  constructor
  · rintro ⟨b, hb, hconsidered⟩
    exact ⟨⟨b, hb⟩, (hbody b hb).mp hconsidered⟩
  · rintro ⟨⟨b, hb⟩, howns⟩
    exact ⟨b, hb, (hbody b hb).mpr howns⟩

theorem serversOf_first {freeWs remaining : ℕ} (hcluster : db.clusterEnabled = true) (hr : remaining ≠ 0)
    (hsome : ∃ s, Candidate db now master slot .first s) :
    ∀ s ∈ (serversOf now master slot freeWs remaining db).planned, Candidate db now master slot .first s := by
  by_cases hws : pointerSize ≤ freeWs
  · have hfirst := visitLists_spec now master slot freeWs ⟨[], remaining, db, false⟩ .first
    have hne := hfirst.found hws rfl hr hsome
    obtain ⟨added, hadded, hall, -⟩ := hfirst.added
    have hserved : serversOf now master slot freeWs remaining db =
        visitLists now master slot freeWs ⟨[], remaining, db, false⟩ .first := by
      unfold serversOf
      simp only [hcluster, if_true, List.foldl_cons, List.foldl_nil]
      rw [if_neg]
      simp [hne]
    rw [hserved, hadded, List.nil_append]
    exact hall
  · rw [(serversOf_spec now master slot freeWs remaining db).starved (Nat.not_le.mp hws)]
    simp

theorem populateExecutionPlan_owners {input : PlanInput} {heap : Heap} {size : ℕ} {task task' : Task} {plan : Plan}
    (hw : WellPlaced db) (hcluster : db.clusterEnabled = true)
    (hsome : ∃ s, Candidate db input.probe.now master slot .first s)
    (h : populateExecutionPlan input heap size master slot task db = .ok (plan, task', db')) :
    (∀ c ∈ plan.contexts, c ∈ task.contexts ∧ Owns db master slot (heap c).server) ∧
      ∀ s ∈ plan.servers, Owns db master slot s := by
  have hcontexts : ∀ c ∈ plan.contexts, c ∈ task.contexts ∧ Owns db master slot (heap c).server := by
    obtain ⟨dbc, hplanned, -⟩ := populateExecutionPlan_spec h
    intro c hc
    obtain ⟨hmem, hsuitable⟩ := hplanned.mem hc
    simp only [suitableForCommand, hcluster, Bool.and_eq_true, Bool.not_true, Bool.false_or] at hsuitable
    refine ⟨hmem, hsuitable.2, ?_⟩
    rintro rfl
    simpa using hsuitable.1.2
  refine ⟨hcontexts, fun s hs => ?_⟩
  have hcounts := (contextsOf_spec (suitableForCommand db heap master slot) input heap size task db).1.counts
  unfold populateExecutionPlan at h
  obtain ⟨scan, hscan⟩ : ∃ r, r = contextsOf (suitableForCommand db heap master slot) input heap size task db := ⟨_, rfl⟩
  rw [← hscan] at h hcounts
  have hcandidate : ∀ t, Candidate scan.db input.probe.now master slot .first t ↔
      Candidate db input.probe.now master slot .first t := by
    have hsame : scan.db.clusterEnabled = db.clusterEnabled := congrArg Options.clusterEnabled hcounts.same.options
    simp only [Candidate, InList, serverConsidered, ownsSlot, healthy, hcounts.same.servers, hcounts.server, hsame,
      implies_true]
  dsimp only at h
  split_ifs at h with ho hws hlt hs' <;> cases h
  · exact absurd hs List.not_mem_nil
  · have hfirst := serversOf_first ((congrArg Options.clusterEnabled hcounts.same.options).trans hcluster)
      (Nat.sub_ne_zero_of_lt hlt) ((exists_congr hcandidate).mpr hsome) s hs
    exact ((candidate_iff hw hcluster s).mp ((hcandidate s).mp hfirst)).2.1
  · exact absurd hs List.not_mem_nil

end

theorem redisExecute_confined (sha1 : Bytes → Bytes) (input : CallInput) (call : Call) (hserver : call.server = none)
    (argv : Argv) (retries : ℕ) (hw : Sound w) (hcluster : w.db.clusterEnabled = true)
    (hsome : ∃ s, Candidate w.db input.plan.probe.now call.master call.slot .first s) :
    Confined (Owns w.db call.master call.slot) w (redisExecute sha1 input call argv retries w).world := by
  refine (attemptRule_confined _).redisExecute sha1 input.reads_all call argv retries hw fun plan task db h => ?_
  obtain ⟨hsound, hlater⟩ := planned_evolves h hw
  refine ⟨⟨hsound, hlater, fun m => planExecution_mirrors h, .of_eq rfl⟩, fun p hp => ?_⟩
  rw [hserver] at h
  obtain ⟨-, rfl, -⟩ | ⟨-, q, rfl, ⟨s, hs, -⟩ | ⟨-, hplan⟩⟩ := planExecution_cases h
  · cases hp
  · cases hs
  · obtain rfl := Option.mem_some_iff.mp hp
    obtain ⟨hcontexts, hservers⟩ := populateExecutionPlan_owners hw.wellPlaced hcluster hsome hplan
    exact ⟨fun c hc => ⟨hw.allocated c (hcontexts c hc).1, (hcontexts c hc).2⟩, hservers⟩

variable {Offered : ServerId → Reply → Prop}

structure Charts (Offered : ServerId → Reply → Prop) (w w' : World) : Prop where
  sound : Sound w'
  later : Later w w'
  learns : Learns Offered w.db w'.db
  logged : Logs (fun _ => True) w w'

theorem Charts.trans (h : Charts Offered w w') (h' : Charts Offered w' w'') : Charts Offered w w'' :=
  ⟨h'.sound, h.later.trans h'.later, h.learns.trans h'.learns, h.logged.trans h'.logged⟩

theorem Confined.charts (h : Confined T w w') : Charts Offered w w' :=
  ⟨h.sound, h.later, .keep h.sound.wellPlaced h.later.retains h.mapped, h.sent.mono fun _ _ => trivial⟩

theorem commandRule_charts (Offered : ServerId → Reply → Prop) :
    CommandRule (fun _ => True) (fun _ => True) (Meets Offered) (fun _ => True) Sound (Charts Offered)
      (Reaches fun _ => True) where
  toAttemptRule := (attemptRule_confined fun _ => True).weaken Confined.charts Charts.trans (·.sound)
    fun h hc => hc.later h.later
  wellPlaced hw := hw.wellPlaced
  plan hw _ h := by
    obtain ⟨hsound, hlater⟩ := planned_evolves h hw
    refine ⟨⟨hsound, hlater, .keep hsound.wellPlaced hlater.retains fun m => planExecution_mirrors h, .of_eq rfl⟩,
      fun p hp => ⟨fun c hc => ⟨hw.allocated c (((planExecution_planned h).2 p hp).contexts c hc), trivial⟩,
        fun _ _ => trivial⟩⟩
  add input rules location role hw _ := by
    obtain ⟨hsound, hlater⟩ := Evolves.grow (fun h => unsafeAddRedisServer_grows h input rules location role) hw
    exact ⟨hsound, hlater, unsafeAddRedisServer_learns hw.wellPlaced input rules location role, .of_eq rfl⟩
  discover hw hr hs h := by
    obtain ⟨hsound, hlater⟩ := Evolves.grow (fun hw => unsafeDiscoverSlots_grows hw h) hw
    exact ⟨hsound, hlater, unsafeDiscoverSlots_learns hw.wellPlaced hr hs h, .of_eq rfl⟩

def Redirected (w w' : World) : Prop :=
  ∃ newer ask location s, w'.trace = newer ++ .redirection ask location s :: w.trace

theorem Redirected.logs {P : Event → Prop} (h : Redirected w w') (hl : Logs P w' w'') : Redirected w w'' := by
  obtain ⟨newer, ask, location, s, ht⟩ := h
  obtain ⟨events, he, -⟩ := hl
  exact ⟨events ++ newer, ask, location, s, by rw [he, ht, List.append_assoc]⟩

/-- Up to the first redirection, only what satisfies `P` is logged. -/
def Leads (P : Event → Prop) (w w' : World) : Prop := ∃ w₁, Logs P w w₁ ∧ (w'.trace = w₁.trace ∨ Redirected w₁ w')

theorem redirect_redirected {fuel : ℕ} {input : RedirectInput} {i : ℕ} {str : Bytes} {r : Except Fault ServerId}
    (h : redirect fuel input i str w = (w', r)) : (w'.trace = w.trace ∧ ∃ f, r = .error f) ∨ Redirected w w' := by
  obtain ⟨-, hr⟩ | ⟨location, db, -, -, hr⟩ | ⟨location, s, db, -, -, ⟨-, hr⟩ | ⟨-, ⟨-, hr⟩ | ⟨found, walk, -, hr⟩⟩⟩ :=
    redirect_cases fuel input i str w <;> obtain ⟨rfl, rfl⟩ := Prod.mk.inj (h.symm.trans hr)
  · exact Or.inl ⟨rfl, _, rfl⟩
  · exact Or.inl ⟨rfl, _, rfl⟩
  · exact Or.inr ⟨[], _, _, _, rfl⟩
  · exact Or.inr ⟨[_], _, _, _, rfl⟩
  · exact Or.inr ⟨[_], _, _, _, rfl⟩

def commandKey (argv : Argv) : Option Bytes :=
  argv.head?.join.bind fun command =>
    if 0 < getKeyIndex command then argv[(getKeyIndex command).toNat]?.join else none

def asksMaster (db : Db) (master : Bool) (argv : Argv) : Bool :=
  master || db.ignoreSlaves || argv.head?.join.any fun command =>
    strcasecmp command (bytes "EVAL") || strcasecmp command (bytes "EVALSHA")

theorem dbExecute_of_key (sha1 : Bytes → Bytes) (fuel : ℕ) (input : ClusterInput) (maxRetries : ℕ) (master : Bool)
    {argv : Argv} {key : Bytes} (hcluster : w.db.clusterEnabled = true) (hkey : commandKey argv = some key) :
    dbExecute sha1 fuel input maxRetries master argv w = follow sha1 fuel input maxRetries (asksMaster w.db master argv)
      (getClusterSlot key) (hopsOf w.db) 0 none false argv 0 w := by
  unfold commandKey at hkey
  obtain ⟨command, hcommand, hkey⟩ := Option.bind_eq_some_iff.mp hkey
  obtain ⟨rest, rfl⟩ : ∃ rest, argv = some command :: rest := by
    obtain _ | ⟨_ | c, rest⟩ := argv
    · cases hcommand
    · cases hcommand
    · exact ⟨rest, by rw [Option.some.inj hcommand]⟩
  split_ifs at hkey with hpos
  have harg := Option.join_eq_some_iff.mp hkey
  obtain ⟨hlt, -⟩ := List.getElem?_eq_some_iff.mp harg
  have hindex : getKeyIndex command < (some command :: rest).length := by omega
  have hmaster : (master || w.db.ignoreSlaves || w.db.clusterEnabled && (strcasecmp command (bytes "EVAL") ||
      strcasecmp command (bytes "EVALSHA"))) = asksMaster w.db master (some command :: rest) := by
    rw [hcluster]
    rfl
  unfold dbExecute clusterExecute
  dsimp only [List.head?_cons]
  rw [if_pos hcluster, if_pos ⟨hpos, hindex⟩, harg, hmaster]

theorem follow_leads (sha1 : Bytes → Bytes) (fuel : ℕ) {input : ClusterInput}
    (hr : ∀ i, Meets Offered (input.redirect i).discovery) (maxRetries : ℕ) (master : Bool) (slot hops : ℕ) (argv : Argv)
    (hw : Sound w) (hcluster : w.db.clusterEnabled = true)
    (hsome : ∃ s, Candidate w.db (input.call 0).plan.probe.now master slot .first s) :
    Leads (fun e => ∀ s c commands reply err, e = .exchange s c commands reply err → Owns w.db master slot s) w
      (follow sha1 fuel input maxRetries master slot hops 0 none false argv 0 w).world := by
  obtain ⟨r, hrun⟩ : ∃ r, redisExecute sha1 (input.call 0) ⟨maxRetries, none, false, master, slot⟩ argv 0 w = r := ⟨_, rfl⟩
  have hfirst : Confined (Owns w.db master slot) w r.world := by
    rw [← hrun]
    exact redisExecute_confined sha1 (input.call 0) ⟨maxRetries, none, false, master, slot⟩ rfl argv 0 hw hcluster hsome
  refine ⟨r.world, hfirst.sent, ?_⟩
  have huses : ∀ i, Uses (fun _ => True) (Meets Offered) (input.redirect i) := fun i => ⟨trivial, hr i⟩
  obtain ⟨-, he⟩ | ⟨str, -, ⟨w', f, hd, he⟩ | ⟨w', s, hd, -, he⟩ | ⟨w', s, m, hd, -, -, he⟩⟩ :=
    follow_cases sha1 fuel input maxRetries master slot hops 0 none false argv 0 w hrun <;> rw [he]
  · exact Or.inl rfl
  · exact (redirect_redirected hd).imp_left And.left
  · exact (redirect_redirected hd).imp_left And.left
  · obtain ⟨-, f, hf⟩ | hredirected := redirect_redirected hd
    · cases hf
    · have hcharts := (commandRule_charts Offered).redirect fuel (huses 0) 0 str hfirst.sound
      rw [hd] at hcharts
      have hfollowed := (commandRule_charts Offered).log .followed hcharts.sound rfl
      have hfollow := (commandRule_charts Offered).follow sha1 fuel (fun i => (input.call i).reads_all) huses maxRetries
        master slot m (0 + 1) (some s) (!strncmp str (bytes "MOVED")) r.argv r.retries hfollowed.sound
      exact Or.inr (hredirected.logs (hfollowed.trans hfollow).logged)

def Heard (input : ClusterInput) (s : ServerId) (r : Reply) : Prop := ∃ i n, (input.redirect i).discovery.reply n s = some r

section

variable (Offered : ServerId → Reply → Prop) (sha1 : Bytes → Bytes)

/-- What happens to the database of a cluster: commands of any worker, whatever private contexts it holds, and all that
changes the registry or the pools between them. -/
inductive Step : World → World → Prop
  | addServer (w : World) (fuel : ℕ) (input : RedirectInput) (location : Option Bytes) (type : ServerType) (db : Db)
      (hr : Meets Offered input.discovery) (h : vmodDbAddServer fuel input location type w.db = .ok db) :
      Step w { w with db := db }
  | command (w : World) (task : Task) (fuel : ℕ) (input : ClusterInput) (maxRetries : ℕ) (master : Bool) (argv : Argv)
      (ht : ∀ c ∈ task.contexts, c < w.nextContext) (hr : ∀ s r, Heard input s r → Offered s r) :
      Step w (dbExecute sha1 fuel input maxRetries master argv { w with task := task }).world
  | act (w : World) (a : PoolAction) : Step w (act w a)
  | sentinel (w : World) (inventory : List SentinelUpdate.Discovered) (clock : Bucket → ServerId → ℤ) :
      Step w { w with db := SentinelUpdate.unsafeUpdateDbs inventory clock w.db }
  | cold (w : World) : Step w { w with db := (Lifecycle.releaseContexts w.db).1 }

def cluster : System World where
  init w := w.db.clusterEnabled = true ∧ w.task = ⟨0, []⟩ ∧ ∃ fuel input build tlsContext id args,
    Meets Offered (RedirectInput.discovery input) ∧ vmodDbInit fuel input build tlsContext id args = .ok (some w.db)
  step := Step Offered sha1

end

structure Inv (Offered : ServerId → Reply → Prop) (w : World) : Prop where
  sound : Sound w
  cluster : w.db.clusterEnabled = true
  mirrored : ∃ m, From Offered w.db m ∧ Mirrors m w.db

theorem Inv.charts (h : Inv Offered w) (hc : Charts Offered w w') : Inv Offered w' := by
  obtain ⟨m, hf, hm⟩ := h.mirrored
  exact ⟨hc.sound, (congrArg Options.clusterEnabled hc.later.retains.options).trans h.cluster, hc.learns.mirrored hf hm⟩

theorem Inv.working (h : Inv Offered w) {task : Task} (ht : ∀ c ∈ task.contexts, c < w.nextContext) :
    Inv Offered { w with task := task } :=
  ⟨⟨h.sound.wellPlaced, ht, h.sound.owner⟩, h.cluster, h.mirrored⟩

theorem addFirst_learns {fuel : ℕ} {input : RedirectInput} {location : Bytes} {role : Role} {discover : Db → Bool}
    {db db' : Db} (hw : WellPlaced db) (hr : Meets Offered input.discovery)
    (h : addFirst fuel input location role discover db = .ok db') : Grows db db' ∧ Learns Offered db db' := by
  obtain ⟨s, d, hrun, hcases⟩ := Configuration.addFirst_cases h
  have hgrows := unsafeAddRedisServer_grows hw input.add input.rules location role
  have hlearns : Learns Offered db _ := unsafeAddRedisServer_learns hw input.add input.rules location role
  rw [hrun] at hgrows hlearns
  obtain rfl | ⟨found, walk, hwalk, rfl⟩ := hcases
  · exact ⟨hgrows, hlearns⟩
  · have hs := unsafeAddRedisServer_registers hw hrun
    exact ⟨hgrows.trans (unsafeDiscoverSlots_grows hgrows.wellPlaced hwalk),
      hlearns.trans (unsafeDiscoverSlots_learns hgrows.wellPlaced hr hs hwalk)⟩

theorem Inv.step {sha1 : Bytes → Bytes} (h : Inv Offered w) (hs : Step Offered sha1 w w') : Inv Offered w' := by
  cases hs with
  | addServer fuel input location type db hr hadd =>
    obtain rfl | ⟨l, role, discover, hfirst⟩ := Configuration.vmodDbAddServer_cases hadd
    · exact h
    · obtain ⟨hgrows, hlearns⟩ := addFirst_learns h.sound.wellPlaced hr hfirst
      obtain ⟨hsound, hlater⟩ := Evolves.grow (fun _ => hgrows) h.sound
      exact h.charts ⟨hsound, hlater, hlearns, .of_eq rfl⟩
  | command task fuel input maxRetries master argv ht hr =>
    have hmeets : ∀ i, Meets Offered (input.redirect i).discovery := fun i n s r hn => hr s r ⟨i, n, hn⟩
    have hw := h.working ht
    exact hw.charts ((commandRule_charts Offered).dbExecute sha1 fuel (fun i => (input.call i).reads_all)
      (fun i => ⟨trivial, hmeets i⟩) maxRetries master argv hw.sound)
  | act a => exact h.charts ((attemptRule_confined fun _ => True).act a h.sound a.reads_all).charts
  | sentinel inventory clock =>
    have hnone : SentinelUpdate.unsafeUpdateDbs inventory clock w.db = w.db := if_pos h.cluster
    rwa [hnone]
  | cold =>
    have hsame := Lifecycle.releaseContexts_same w.db
    obtain ⟨hsound, hlater⟩ := Evolves.grow
      (fun hw => ⟨retains_of_same hsame, Lifecycle.releaseContexts_pools w.db, hw.same hsame⟩) h.sound
    exact h.charts ⟨hsound, hlater, .keep hsound.wellPlaced hlater.retains fun _ hm => hm.same hsame, .of_eq rfl⟩

theorem cluster_inv {sha1 : Bytes → Bytes} (h : (cluster Offered sha1).Reachable w) : Inv Offered w := by
  refine System.invariant (P := Inv Offered) ?_ (fun _ _ _ hw hs => hw.step hs) h
  rintro w ⟨hcluster, htask, fuel, input, build, tlsContext, id, args, hr, hinit⟩
  have hidle : ∀ db, WellPlaced db → (∀ s, (db.server s).pool = .empty) → w.db = db → Sound w := by
    rintro db hwell hp rfl
    refine ⟨hwell, fun c hc => by simp [htask] at hc, fun s c hc => ?_⟩
    simp [pooled, hp, Pool.empty] at hc
  have hnew := newVmodRedisDb_wellPlaced (args.options build id)
  have hmap := mirrors_nobody (args.options build id)
  obtain hdb | ⟨location, role, discover, hfirst⟩ := Configuration.vmodDbInit_cases hinit
  · exact ⟨hidle _ hnew (fun _ => rfl) hdb, hcluster, nobody, Or.inl rfl, hdb ▸ hmap⟩
  · obtain ⟨hgrows, hlearns⟩ := addFirst_learns hnew hr hfirst
    refine ⟨hidle _ hgrows.wellPlaced (fun s => ?_) rfl, hcluster, hlearns.mirrored (Or.inl rfl) hmap⟩
    obtain hp | hp := hgrows.pools s <;> exact hp

structure Serves (m : ClusterMap) (db : Db) (master : Bool) (slot : ℕ) (s : ServerId) : Prop where
  registered : db.Registered s
  slot : m (db.server s).raw slot
  role : master = true → (db.server s).role = .master

theorem Mirrors.owns_iff {m : ClusterMap} {db : Db} (h : Mirrors m db) (master : Bool) {slot : ℕ}
    (hslot : slot < nredisClusterSlots) (s : ServerId) : Owns db master slot s ↔ Serves m db master slot s := by
  constructor
  · rintro ⟨hslots, hrole⟩
    obtain ⟨hs, hm⟩ := (h.slots s slot hslot).mp hslots
    exact ⟨hs, hm, hrole⟩
  · rintro ⟨hs, hm, hrole⟩
    exact ⟨(h.slots s slot hslot).mpr ⟨hs, hm⟩, hrole⟩

/-- In every run the slots of the servers are those of one map, announced as a whole by one node. A command changes the
map only to one that its own discoveries heard, and is first sent only to servers to which the map gives the slot of its
key, as long as one of them is healthy. -/
theorem commands_routed {sha1 : Bytes → Bytes} (h : (cluster Offered sha1).Reachable w) :
    ∃ m, From Offered w.db m ∧ Mirrors m w.db ∧ ∀ (task : Task) (fuel : ℕ) (input : ClusterInput) (maxRetries : ℕ)
      (master : Bool) (argv : Argv), (∀ c ∈ task.contexts, c < w.nextContext) →
        Learns (Heard input) w.db (dbExecute sha1 fuel input maxRetries master argv { w with task := task }).world.db ∧
        ∀ key, commandKey argv = some key →
          (∃ s, Serves m w.db (asksMaster w.db master argv) (getClusterSlot key) s ∧
            healthy w.db (input.call 0).plan.probe.now s = true) →
          Leads (fun e => ∀ s c commands reply err, e = .exchange s c commands reply err →
              Serves m w.db (asksMaster w.db master argv) (getClusterSlot key) s) { w with task := task }
            (dbExecute sha1 fuel input maxRetries master argv { w with task := task }).world := by
  have hinv := cluster_inv h
  obtain ⟨m, hf, hm⟩ := hinv.mirrored
  refine ⟨m, hf, hm, fun task fuel input maxRetries master argv ht => ?_⟩
  have hw := (hinv.working ht).sound
  have hmeets : ∀ i, Meets (Heard input) (input.redirect i).discovery := fun i n s r hn => ⟨i, n, hn⟩
  refine ⟨((commandRule_charts (Heard input)).dbExecute sha1 fuel (fun i => (input.call i).reads_all)
    (fun i => ⟨trivial, hmeets i⟩) maxRetries master argv hw).learns, fun key hkey hsome => ?_⟩
  rw [dbExecute_of_key (w := { w with task := task }) sha1 fuel input maxRetries master hinv.cluster hkey]
  have howns := hm.owns_iff (asksMaster w.db master argv) (getClusterSlot_lt key)
  obtain ⟨s, hserves, hhealthy⟩ := hsome
  obtain ⟨w₁, hfirst, hrest⟩ := follow_leads sha1 fuel hmeets maxRetries (asksMaster w.db master argv) (getClusterSlot key)
    (hopsOf w.db) argv hw hinv.cluster
    ⟨s, (candidate_iff hw.wellPlaced hinv.cluster s).mpr ⟨hserves.registered, (howns s).mpr hserves, hhealthy⟩⟩
  refine ⟨w₁, hfirst.mono fun e he t c commands reply err hx => ?_, hrest⟩
  exact (howns t).mp (he t c commands reply err hx)

def clusterArgs : DbArgs :=
  { Configuration.sampleArgs with location := some (bytes "10.0.0.1:6379"), type := .cluster }

def halves : List Reply :=
  [.array [.string (bytes "slots"), .array [.integer 0, .integer 8191], .string (bytes "nodes"),
      .array [Discovery.sampleNode]],
    .array [.string (bytes "slots"), .array [.integer 8192, .integer 16383], .string (bytes "nodes"),
      .array [.array [.string (bytes "endpoint"), .string (bytes "10.0.0.2"), .string (bytes "port"), .integer 6379,
        .string (bytes "role"), .string (bytes "master")]]]]

def halvesInput : RedirectInput := ⟨⟨⟨0, false, none⟩, 0⟩, [], ⟨fun _ _ => 0, [], fun _ _ => some (.array halves)⟩⟩

def getFoo : Argv := [some (bytes "GET"), some (bytes "foo")]

def answers : ClusterInput where
  call _ := ⟨⟨true, ⟨0, fun _ => 0, fun _ => false⟩, 1024, 1024⟩, fun _ => answering (.string (bytes "v"))⟩
  redirect _ := halvesInput

def destination : Event → Option (Option ServerId)
  | .exchange s _ _ _ _ => some (some s)
  | .redirection _ _ _ => some none
  | _ => none

def got (db : Db) : World := (dbExecute id 9 answers 0 false getFoo (idleWorld db)).world

theorem halvesInput_discovers : ∃ db, vmodDbInit 9 halvesInput ⟨false, false⟩ true 0 clusterArgs = .ok (some db) ∧
    db.clusterEnabled = true ∧ asksMaster db false getFoo = false ∧ (db.server 1).slots 12182 = true ∧
    healthy db 0 1 = true ∧ (got db).trace.filterMap destination = [some 1] := by
  have hrun : ((vmodDbInit 9 halvesInput ⟨false, false⟩ true 0 clusterArgs).toOption.join.map fun db =>
      decide (db.clusterEnabled = true ∧ asksMaster db false getFoo = false ∧ (db.server 1).slots 12182 = true ∧
        healthy db 0 1 = true ∧ (got db).trace.filterMap destination = [some 1])) = some true := by decide +kernel
  obtain ⟨db, hdb, hfacts⟩ := Option.map_eq_some_iff.mp hrun
  refine ⟨db, ?_, of_decide_eq_true hfacts⟩
  cases hinit : vmodDbInit 9 halvesInput ⟨false, false⟩ true 0 clusterArgs with
  | error f => simp [hinit, Except.toOption] at hdb
  | ok found => simpa [hinit, Except.toOption] using hdb

theorem commands_routed_halves : ∃ db m, From (fun _ r => r = .array halves) db m ∧ Serves m db false 12182 1 ∧
    (got db).trace.filterMap destination = [some 1] ∧
    ∀ s c commands reply err, .exchange s c commands reply err ∈ (got db).trace → Serves m db false 12182 s := by
  obtain ⟨db, hinit, hcluster, hasks, hslot, hhealthy, htrace⟩ := halvesInput_discovers
  have hreachable : (cluster (fun _ r => r = .array halves) id).Reachable (idleWorld db) := by
    refine System.reachable_init ⟨hcluster, rfl, 9, halvesInput, ⟨false, false⟩, true, 0, clusterArgs, ?_, hinit⟩
    rintro n s r ⟨⟩
    rfl
  obtain ⟨m, hf, hm, hcommands⟩ := commands_routed hreachable
  have hserves : Serves m db false 12182 1 := (hm.owns_iff false (by decide) 1).mp ⟨hslot, nofun⟩
  have hkey : getClusterSlot (bytes "foo") = 12182 := by decide +kernel
  have hleads := (hcommands ⟨0, []⟩ 9 answers 0 false getFoo (by simp)).2 (bytes "foo") (by decide +kernel)
  rw [show asksMaster (idleWorld db).db false getFoo = false from hasks, hkey] at hleads
  obtain ⟨w₁, ⟨events, hsent, hevents⟩, hrest⟩ := hleads ⟨1, hserves, hhealthy⟩
  obtain hall | ⟨newer, ask, location, s, hredirected⟩ := hrest
  · refine ⟨db, m, hf, hserves, htrace, fun s c commands reply err he => ?_⟩
    refine hevents _ ?_ s c commands reply err rfl
    have hmem : Event.exchange s c commands reply err ∈ w₁.trace := hall ▸ he
    simpa [hsent, idleWorld] using hmem
  · change (got db).trace = _ at hredirected
    have hmem : none ∈ (got db).trace.filterMap destination := by
      rw [hredirected]
      exact List.mem_filterMap.mpr ⟨.redirection ask location s, by simp, rfl⟩
    simp [htrace] at hmem

end VmodRedis.ClusterRouting
