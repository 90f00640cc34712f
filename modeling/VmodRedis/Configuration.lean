import VmodRedis.CommandRule
import VmodRedis.DatabaseCreation
import VmodRedis.LifecycleSafety
import VmodRedis.RuleLines
import VmodRedis.ServerWeights

namespace VmodRedis.Configuration

open CStrings Replies Database Connections Registry Planning Discovery DiscoveryWalk Execution ClusterExecution
open DatabaseCreation SentinelUpdate WeightRules TransitionSystem

structure Config where
  rules : List Rule
  dbs : List Db

section

variable (compiles : Bytes → Bool) (vreMatch : Bytes → Bytes → Bool) (sha1 : Bytes → Bytes)

def compiled (rules : List Rule) : List WeightRule := rules.map fun rule => ⟨rule.weight, vreMatch rule.regexp⟩

/-- `environment` is `VMOD_REDIS_WEIGHTS`. -/
def vmodWeights (environment rules : Option Bytes) (config : Config) : Except Scanning.Stuck Config :=
  if ¬ config.dbs.isEmpty then .ok config
  else if ¬ config.rules.isEmpty then .ok config
  else
    match (given rules).or (given environment) with
    | none => .ok config
    | some text =>
      (unsafeSetWeightRules compiles ((cstr text).length + 1) config.rules text).map fun r => { config with rules := r.2 }

def Ruled (rules : List WeightRule) (input : RedirectInput) : Prop := Uses (· = rules) (·.rules = rules) input

inductive Step : Config → Config → Prop
  | weights (config config' : Config) (environment rules : Option Bytes)
      (h : vmodWeights compiles environment rules config = .ok config') : Step config config'
  | create (config : Config) (fuel : ℕ) (input : RedirectInput) (build : Build) (tlsContext : Bool) (id : DbId)
      (args : DbArgs) (db : Db) (hr : Ruled (compiled vreMatch config.rules) input)
      (h : vmodDbInit fuel input build tlsContext id args = .ok (some db)) :
      Step config { config with dbs := config.dbs ++ [db] }
  | release (config : Config) (i : ℕ) : Step config { config with dbs := config.dbs.eraseIdx i }
  | addServer (config : Config) (i fuel : ℕ) (input : RedirectInput) (location : Option Bytes) (type : ServerType)
      (db db' : Db) (hi : config.dbs[i]? = some db) (hr : Ruled (compiled vreMatch config.rules) input)
      (h : vmodDbAddServer fuel input location type db = .ok db') : Step config { config with dbs := config.dbs.set i db' }
  | command (config : Config) (i fuel : ℕ) (w : World) (input : ClusterInput) (maxRetries : ℕ) (master : Bool) (argv : Argv)
      (hi : config.dbs[i]? = some w.db) (hr : ∀ k, Ruled (compiled vreMatch config.rules) (input.redirect k)) :
      Step config { config with
        dbs := config.dbs.set i (dbExecute sha1 fuel input maxRetries master argv w).world.db }
  | sentinel (config : Config) (inventory : List Discovered) (clock : DbId → Bucket → ServerId → ℤ) :
      Step config { config with dbs := updateDbs inventory clock config.dbs }
  | cold (config : Config) : Step config { config with dbs := config.dbs.map fun db => (Lifecycle.releaseContexts db).1 }

def configuration : System Config where
  init config := config = ⟨[], []⟩
  step := Step compiles vreMatch sha1

end

variable {rules : List WeightRule}

theorem commandRule_settled (rules : List WeightRule) :
    CommandRule (fun _ => True) (· = rules) (·.rules = rules) (fun _ => True) (fun w => Settled rules w.db)
      (fun _ w' => Settled rules w'.db) (fun _ _ => True) where
  wellPlaced hw := hw.1
  refl hw := hw
  trans _ h' := h'
  inv h := h
  context _ _ := trivial
  log _ hw _ := hw
  stats _ hw hs ht hf := hw.same (.setStats _ _ hs ht hf)
  lock _ _ s hw _ _ := ⟨hw.same (SharedPool.lockSection_same _ s _ _), fun _ _ => trivial⟩
  act a hw _ := hw.same (act_same _ a)
  unlock _ hw _ := hw.same (.setPool _ _ _)
  evict hw he := hw.same (evict_same he)
  create input s hw _ _ := ⟨hw.same (createPrivate_same input s _), fun _ _ => trivial⟩
  exchange _ _ _ _ hw _ := hw
  plan hw _ h := ⟨planExecution_settled hw h, fun _ _ => ⟨fun _ _ => trivial, fun _ _ => trivial⟩⟩
  add input rules' location role hw hr := by
    obtain rfl := hr
    exact unsafeAddRedisServer_settled hw input location role
  discover hw hr hs h := unsafeDiscoverSlots_settled hr hw hs h

theorem addFirst_cases {fuel : ℕ} {input : RedirectInput} {location : Bytes} {role : Role} {discover : Db → Bool}
    {db db' : Db} (h : addFirst fuel input location role discover db = .ok db') :
    ∃ s d, unsafeAddRedisServer input.add input.rules location role db = (some s, d) ∧
      (db' = d ∨ ∃ found walk, unsafeDiscoverSlots fuel input.discovery s d = some (found, walk) ∧ db' = walk.db) := by
  unfold addFirst at h
  obtain ⟨⟨s, d⟩, hrun⟩ : ∃ r, r = unsafeAddRedisServer input.add input.rules location role db := ⟨_, rfl⟩
  rw [← hrun] at h ⊢
  cases s with
  | none => cases h
  | some s =>
    refine ⟨s, d, rfl, ?_⟩
    dsimp only at h
    split_ifs at h
    · obtain ⟨r, hwalk⟩ : ∃ r, unsafeDiscoverSlots fuel input.discovery s d = r := ⟨_, rfl⟩
      rw [hwalk] at h
      cases r with
      | none => cases h
      | some r => exact Or.inr ⟨r.1, r.2, hwalk, (Except.ok.inj h).symm⟩
    · exact Or.inl (Except.ok.inj h).symm

theorem vmodDbInit_cases {fuel : ℕ} {input : RedirectInput} {build : Build} {tlsContext : Bool} {id : DbId}
    {args : DbArgs} {db : Db} (h : vmodDbInit fuel input build tlsContext id args = .ok (some db)) :
    db = newVmodRedisDb (args.options build id) ∨ ∃ location role discover,
      addFirst fuel input location role discover (newVmodRedisDb (args.options build id)) = .ok db := by
  unfold vmodDbInit at h
  split_ifs at h
  · cases h
  · cases h
  dsimp only at h
  cases hl : given args.location with
  | none =>
    rw [hl] at h
    exact Or.inl (Option.some.inj (Except.ok.inj h)).symm
  | some location =>
    rw [hl] at h
    refine Or.inr ⟨location, type2role args.type, (·.clusterEnabled), ?_⟩
    dsimp only at h
    cases hadd : addFirst fuel input location (type2role args.type) (·.clusterEnabled)
        (newVmodRedisDb (args.options build id)) with
    | error f =>
      rw [hadd] at h
      cases h
    | ok d =>
      rw [hadd] at h
      rw [Option.some.inj (Except.ok.inj h)]

theorem vmodDbAddServer_cases {fuel : ℕ} {input : RedirectInput} {location : Option Bytes} {type : ServerType}
    {db db' : Db} (h : vmodDbAddServer fuel input location type db = .ok db') :
    db' = db ∨ ∃ location role discover, addFirst fuel input location role discover db = .ok db' := by
  unfold vmodDbAddServer at h
  cases hl : given location with
  | none =>
    rw [hl] at h
    exact Or.inl (Except.ok.inj h).symm
  | some l =>
    rw [hl] at h
    dsimp only at h
    split_ifs at h
    · exact Or.inr ⟨_, _, _, h⟩
    · exact Or.inl (Except.ok.inj h).symm

theorem addFirst_settled {fuel : ℕ} {input : RedirectInput} {location : Bytes} {role : Role} {discover : Db → Bool}
    {db db' : Db} (hr : Ruled rules input) (h : Settled rules db)
    (hadd : addFirst fuel input location role discover db = .ok db') : Settled rules db' := by
  obtain ⟨s, d, hrun, hcases⟩ := addFirst_cases hadd
  have hadded := unsafeAddRedisServer_settled h input.add location role
  rw [← hr.rules, hrun] at hadded
  rw [hr.rules] at hadded
  obtain rfl | ⟨found, walk, hwalk, rfl⟩ := hcases
  · exact hadded
  · exact unsafeDiscoverSlots_settled hr.discovery hadded (unsafeAddRedisServer_registers h.1 hrun) hwalk

theorem vmodDbInit_settled {fuel : ℕ} {input : RedirectInput} {build : Build} {tlsContext : Bool} {id : DbId}
    {args : DbArgs} {db : Db} (hr : Ruled rules input)
    (h : vmodDbInit fuel input build tlsContext id args = .ok (some db)) : Settled rules db := by
  have hnew := Settled.new rules (args.options build id)
  obtain rfl | ⟨location, role, discover, hadd⟩ := vmodDbInit_cases h
  · exact hnew
  · exact addFirst_settled hr hnew hadd

theorem vmodDbAddServer_settled {fuel : ℕ} {input : RedirectInput} {location : Option Bytes} {type : ServerType}
    {db db' : Db} (hr : Ruled rules input) (hdb : Settled rules db)
    (h : vmodDbAddServer fuel input location type db = .ok db') : Settled rules db' := by
  obtain rfl | ⟨l, role, discover, hadd⟩ := vmodDbAddServer_cases h
  · exact hdb
  · exact addFirst_settled hr hdb hadd

section

variable {compiles : Bytes → Bool} {vreMatch : Bytes → Bytes → Bool} {sha1 : Bytes → Bytes} {config config' : Config}

def Written (compiles : Bytes → Bool) (rules : List Rule) : Prop :=
  rules = [] ∨ ∃ text, List.Forall₂ (fun item rule => ∃ w, item = some w ∧ narrowed w.number = ((rule : Rule).weight : ℕ) ∧
    w.regexp = rule.regexp ∧ compiles rule.regexp = true) (items text) rules

inductive Weighs (vreMatch : Bytes → Bytes → Bool) (rules : List Rule) (v : Server) : Weight → Prop
  | socket (path : Bytes) (ha : v.address = .path path) : Weighs vreMatch rules v 0
  | rule (host : Bytes) (port : ℕ) (ha : v.address = .host host port) (before after : List Rule) (rule : Rule)
      (he : rules = before ++ rule :: after) (hbefore : ∀ r ∈ before, vreMatch r.regexp v.raw = false)
      (hrule : vreMatch rule.regexp v.raw = true) : Weighs vreMatch rules v rule.weight
  | other (host : Bytes) (port : ℕ) (ha : v.address = .host host port)
      (hnone : ∀ r ∈ rules, vreMatch r.regexp v.raw = false) : Weighs vreMatch rules v 3

theorem weighs_serverWeight (vreMatch : Bytes → Bytes → Bool) (rules : List Rule) (v : Server) :
    Weighs vreMatch rules v (serverWeight (compiled vreMatch rules) v) := by
  cases ha : v.address with
  | path path =>
    have hweight : serverWeight (compiled vreMatch rules) v = 0 := by simp [serverWeight, ha, Address.isHost]
    rw [hweight]
    exact .socket path ha
  | host host port =>
    simp only [serverWeight, ha, Address.isHost, if_true, compiled, List.find?_map]
    cases hf : rules.find? ((fun rule => rule.vre v.raw) ∘ fun rule => (⟨rule.weight, vreMatch rule.regexp⟩ : WeightRule)) with
    | none =>
      refine .other host port ha fun r hr => ?_
      exact Bool.eq_false_iff.mpr (List.find?_eq_none.mp hf r hr)
    | some rule =>
      obtain ⟨hrule, before, after, he, hbefore⟩ := List.find?_eq_some_iff_append.mp hf
      refine .rule host port ha before after rule he (fun r hr => ?_) hrule
      simpa using hbefore r hr

theorem Weighs.unique {vreMatch : Bytes → Bytes → Bool} {rules : List Rule} {v : Server} {w : Weight}
    (h : Weighs vreMatch rules v w) : w = serverWeight (compiled vreMatch rules) v := by
  cases h with
  | socket path ha => simp [serverWeight, ha, Address.isHost]
  | rule host port ha before after rule he hbefore hrule =>
    have hf : rules.find? ((fun rule => rule.vre v.raw) ∘
        fun rule => (⟨rule.weight, vreMatch rule.regexp⟩ : WeightRule)) = some rule := by
      refine List.find?_eq_some_iff_append.mpr ⟨hrule, before, after, he, fun r hr => ?_⟩
      simpa using hbefore r hr
    simp only [serverWeight, ha, Address.isHost, if_true, compiled, List.find?_map, hf, Option.map_some]
  | other host port ha hnone =>
    have hf : rules.find? ((fun rule => rule.vre v.raw) ∘
        fun rule => (⟨rule.weight, vreMatch rule.regexp⟩ : WeightRule)) = none := by
      refine List.find?_eq_none.mpr fun r hr => ?_
      simpa using hnone r hr
    simp only [serverWeight, ha, Address.isHost, if_true, compiled, List.find?_map, hf, Option.map_none]

theorem weighs_iff (vreMatch : Bytes → Bytes → Bool) (rules : List Rule) (v : Server) (w : Weight) :
    Weighs vreMatch rules v w ↔ w = serverWeight (compiled vreMatch rules) v :=
  ⟨Weighs.unique, fun h => h ▸ weighs_serverWeight vreMatch rules v⟩

structure Config.Inv (compiles : Bytes → Bool) (vreMatch : Bytes → Bytes → Bool) (config : Config) : Prop where
  written : Written compiles config.rules
  settled : ∀ db ∈ config.dbs, Settled (compiled vreMatch config.rules) db

theorem unsafeSetWeightRules_error {fuel : ℕ} {rules found : List Rule} {text : Bytes} {error : ℕ}
    (h : unsafeSetWeightRules compiles fuel rules text = .ok (error, found)) : error = 0 ∨ found = [] := by
  unfold unsafeSetWeightRules at h
  cases hp : parseRules compiles (cstr text) fuel 0 rules with
  | error stuck =>
    rw [hp] at h
    cases h
  | ok r =>
    rw [hp] at h
    obtain ⟨rfl, rfl⟩ := Prod.mk.inj (Except.ok.inj h)
    by_cases hzero : r.1 = 0
    · exact Or.inl hzero
    · exact Or.inr (if_neg hzero)

theorem outcome_written {error : ℕ} {lines : List (Option WeightRules.Written)} {found : List Rule}
    (h : outcome compiles error lines = (0, found)) :
    List.Forall₂ (fun item rule => ∃ w, item = some w ∧ narrowed w.number = ((rule : Rule).weight : ℕ) ∧
      w.regexp = rule.regexp ∧ compiles rule.regexp = true) lines found := by
  have hzero : (linesResult compiles error lines).1 = 0 := congrArg Prod.fst h
  have hpasses : ∀ item ∈ lines, Passes compiles item := by
    by_contra hn
    exact linesResult_error hn error hzero
  obtain ⟨rules, hrules, hall⟩ := linesResult_ok hpasses error
  have hfound : rules = found := by
    rw [outcome, hrules] at h
    obtain ⟨rfl, h⟩ := Prod.mk.inj h
    exact h
  subst hfound
  clear h hzero hrules
  induction hall with
  | nil => exact .nil
  | cons hitem hrest ih =>
    obtain ⟨hpass, hothers⟩ := List.forall_mem_cons.mp hpasses
    obtain ⟨w, rfl, hweight, hregexp⟩ := hitem
    exact .cons ⟨w, rfl, hweight, hregexp, hregexp ▸ hpass.2.2⟩ (ih hothers)

variable (compiles) in
theorem vmodWeights_cases (environment rules : Option Bytes) (config : Config) :
    vmodWeights compiles environment rules config = .ok config ∨ config.dbs = [] ∧ config.rules = [] ∧
      ∃ found, vmodWeights compiles environment rules config = .ok { config with rules := found } ∧
        Written compiles found := by
  unfold vmodWeights
  by_cases hdbs : config.dbs.isEmpty = true
  swap
  · exact Or.inl (if_pos hdbs)
  by_cases hrules : config.rules.isEmpty = true
  swap
  · rw [if_neg (not_not.mpr hdbs)]
    exact Or.inl (if_pos hrules)
  rw [if_neg (not_not.mpr hdbs), if_neg (not_not.mpr hrules)]
  cases (given rules).or (given environment) with
  | none => exact Or.inl rfl
  | some text =>
    have hnone := List.isEmpty_iff.mp hrules
    have heq := unsafeSetWeightRules_eq compiles text (Nat.lt_succ_self (cstr text).length)
    obtain ⟨⟨error, found⟩, hr⟩ : ∃ r, r = outcome compiles (lastError (cstr text)) (items (cstr text)) := ⟨_, rfl⟩
    rw [← hr] at heq
    refine Or.inr ⟨List.isEmpty_iff.mp hdbs, hnone, found, ?_, ?_⟩
    · dsimp only
      rw [hnone, heq]
      rfl
    · obtain rfl | rfl := unsafeSetWeightRules_error heq
      · exact Or.inr ⟨cstr text, outcome_written hr.symm⟩
      · exact Or.inl rfl

theorem Step.rules_eq (hs : Step compiles vreMatch sha1 config config') (hne : config.dbs ≠ []) :
    config'.rules = config.rules := by
  cases hs with
  | weights _ environment rules h =>
    obtain hw | ⟨hempty, -⟩ := vmodWeights_cases compiles environment rules config
    · rw [Except.ok.inj (h.symm.trans hw)]
    · exact absurd hempty hne
  | _ => rfl

theorem Config.Inv.set (h : config.Inv compiles vreMatch) {db : Db} (hdb : Settled (compiled vreMatch config.rules) db)
    (i : ℕ) : Config.Inv compiles vreMatch { config with dbs := config.dbs.set i db } where
  written := h.written
  settled d hd := by
    obtain hd | rfl := List.mem_or_eq_of_mem_set hd
    · exact h.settled d hd
    · exact hdb

theorem Config.Inv.map (h : config.Inv compiles vreMatch) {f : Db → Db}
    (hf : ∀ db, Settled (compiled vreMatch config.rules) db → Settled (compiled vreMatch config.rules) (f db)) :
    Config.Inv compiles vreMatch { config with dbs := config.dbs.map f } where
  written := h.written
  settled d hd := by
    obtain ⟨db, hdb, rfl⟩ := List.mem_map.mp hd
    exact hf db (h.settled db hdb)

theorem Config.Inv.step (h : config.Inv compiles vreMatch) (hs : Step compiles vreMatch sha1 config config') :
    config'.Inv compiles vreMatch := by
  cases hs with
  | weights _ environment rules hw =>
    obtain hsame | ⟨hempty, -, found, hset, hwritten⟩ := vmodWeights_cases compiles environment rules config
    · obtain rfl := Except.ok.inj (hw.symm.trans hsame)
      exact h
    · obtain rfl := Except.ok.inj (hw.symm.trans hset)
      refine ⟨hwritten, fun db hdb => ?_⟩
      rw [hempty] at hdb
      exact absurd hdb List.not_mem_nil
  | create fuel input build tlsContext id args db hr hinit =>
    refine ⟨h.written, fun d hd => ?_⟩
    obtain hd | hd := List.mem_append.mp hd
    · exact h.settled d hd
    · obtain rfl := List.mem_singleton.mp hd
      exact vmodDbInit_settled hr hinit
  | release i => exact ⟨h.written, fun d hd => h.settled d (List.mem_of_mem_eraseIdx hd)⟩
  | addServer i fuel input location type db db' hi hr hadd =>
    exact h.set (vmodDbAddServer_settled hr (h.settled db (List.mem_of_getElem? hi)) hadd) i
  | command i fuel w input maxRetries master argv hi hr =>
    have hw := h.settled w.db (List.mem_of_getElem? hi)
    exact h.set ((commandRule_settled _).dbExecute sha1 fuel (fun k => (input.call k).reads_all) hr maxRetries
      master argv hw) i
  | sentinel inventory clock => exact h.map fun db hdb => unsafeUpdateDbs_settled hdb inventory (clock db.id)
  | cold => exact h.map fun db hdb => hdb.same (Lifecycle.releaseContexts_same db)

theorem configuration_inv (h : (configuration compiles vreMatch sha1).Reachable config) : config.Inv compiles vreMatch := by
  refine System.invariant (P := Config.Inv compiles vreMatch) ?_ (fun _ _ _ hc hs => hc.step hs) h
  rintro config rfl
  exact ⟨Or.inl rfl, fun db hdb => absurd hdb List.not_mem_nil⟩

/-- In every run the servers of every registered database are listed under the weights that the rules give them;
the rules are all those of one text, and stay the same as long as a database is registered. -/
theorem weights_settled (h : (configuration compiles vreMatch sha1).Reachable config) :
    (∀ db ∈ config.dbs, ∀ s, db.Registered s → ∀ weight role, s ∈ db.servers (weight, role) ↔
        Weighs vreMatch config.rules (db.server s) weight ∧ role = (db.server s).role) ∧
      Written compiles config.rules ∧
      (∀ environment rules, ∃ config', vmodWeights compiles environment rules config = .ok config') ∧
      ∀ config', Relation.ReflTransGen (fun a b => Step compiles vreMatch sha1 a b ∧ a.dbs ≠ []) config config' →
        config'.rules = config.rules := by
  have hinv := configuration_inv h
  refine ⟨fun db hdb s hs weight role => ?_, hinv.written, fun environment rules => ?_, fun config' hsteps => ?_⟩
  · obtain ⟨hplaced, hweighted⟩ := hinv.settled db hdb
    rw [weighs_iff, ← hweighted s hs, hplaced.placed.mem_iff, Server.bucket, Prod.mk.injEq]
    constructor
    · rintro ⟨⟨rfl, rfl⟩, -⟩
      exact ⟨rfl, rfl⟩
    · rintro ⟨rfl, rfl⟩
      exact ⟨⟨rfl, rfl⟩, hs⟩
  · obtain hw | ⟨-, -, found, hw, -⟩ := vmodWeights_cases compiles environment rules config
    · exact ⟨_, hw⟩
    · exact ⟨_, hw⟩
  · induction hsteps with
    | refl => rfl
    | tail _ hstep ih => exact (hstep.1.rules_eq hstep.2).trans ih

end

def sampleArgs : DbArgs :=
  ⟨none, .master, 500, 0, 0, 0, true, 1, .default, false, [], some [], some [], 0, false, 0⟩

def ruled : Config := ⟨[⟨0, bytes "^10"⟩], []⟩

theorem ruled_set : vmodWeights (fun _ => true) none (some (bytes "0 ^10")) ⟨[], []⟩ = .ok ruled := by
  have hset : unsafeSetWeightRules (fun _ => true) 6 [] (bytes "0 ^10") = .ok (0, [⟨0, bytes "^10"⟩]) := by
    decide +kernel
  exact congrArg (Except.map fun r => { (⟨[], []⟩ : Config) with rules := r.2 }) hset

def ruledInput : RedirectInput :=
  ⟨⟨⟨0, false, none⟩, 0⟩, compiled (fun _ _ => true) ruled.rules, fun _ _ => 0, compiled (fun _ _ => true) ruled.rules,
    fun _ _ => none⟩

def emptyDb : Db := newVmodRedisDb (sampleArgs.options ⟨false, false⟩ 0)

theorem emptyDb_adds : ∃ s db, vmodDbAddServer 0 ruledInput (some (bytes "10.0.0.1:6379")) .master emptyDb = .ok db ∧
    db.Registered s := by
  have hnew : newRedisServer emptyDb (bytes "10.0.0.1:6379") .master ≠ none := by decide +kernel
  have hgiven : given (some (bytes "10.0.0.1:6379")) = some (bytes "10.0.0.1:6379") := by decide +kernel
  obtain ⟨s, db, hadd, hadded, -, -⟩ | ⟨hn, -⟩ := unsafeAddRedisServer_spec (newVmodRedisDb_wellPlaced
    (sampleArgs.options ⟨false, false⟩ 0)) ruledInput.add ruledInput.rules (bytes "10.0.0.1:6379") .master
  · refine ⟨s, db, ?_, (hadded.registered s).mpr (Or.inr rfl)⟩
    have hc : db.clusterEnabled = false := congrArg Options.clusterEnabled hadded.options
    have hsingle : (newVmodRedisDb (sampleArgs.options ⟨false, false⟩ 0)).clusterEnabled = false := rfl
    simp [vmodDbAddServer, hgiven, addFirst, type2role, emptyDb, hadd, hc, hsingle]
  · exact absurd hn hnew

theorem weights_settled_ruled : ∃ db : Db, ∃ s, db.Registered s ∧ s ∈ db.servers (0, (db.server s).role) := by
  have hruled : (configuration (fun _ => true) (fun _ _ => true) id).Reachable ruled :=
    (System.reachable_init rfl).step (.weights _ _ none (some (bytes "0 ^10")) ruled_set)
  have hcreated := hruled.step (.create ruled 0 ruledInput ⟨false, false⟩ true 0 sampleArgs emptyDb ⟨rfl, rfl⟩ rfl)
  obtain ⟨s, db, hadd, hs⟩ := emptyDb_adds
  have hadded := hcreated.step (.addServer _ 0 0 ruledInput (some (bytes "10.0.0.1:6379")) .master emptyDb db rfl ⟨rfl, rfl⟩ hadd)
  refine ⟨db, s, hs, ((weights_settled hadded).1 db (List.mem_singleton_self db) s hs _ _).mpr ⟨?_, rfl⟩⟩
  have hweight : serverWeight (compiled (fun _ _ => true) ruled.rules) (db.server s) = 0 := by
    unfold serverWeight
    split_ifs <;> rfl
  exact (weighs_iff _ _ _ _).mpr hweight.symm

end VmodRedis.Configuration
