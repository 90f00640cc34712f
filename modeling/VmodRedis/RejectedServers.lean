import VmodRedis.DatabaseCreation
import VmodRedis.DiscoveryTopology

namespace VmodRedis.DatabaseCreation

open CStrings Database Registry Planning Discovery Execution ClusterExecution

theorem newRedisServer_eq_none (db : Db) (location : Bytes) (role : Role) :
    newRedisServer db location role = none ↔ db.clusterEnabled = true ∧ colon ∉ cstr location := by
  rw [← strrchr_isSome]
  unfold newRedisServer
  dsimp only
  rw [ite_eq_left_iff]
  cases strrchr location colon with
  | none => simp [Address.isHost]
  | some parts => simp [Address.isHost]

inductive Registration where
  | creation (build : Build) (tlsContext : Bool) (id : DbId) (args : DbArgs)
  | addServer (location : Option Bytes) (type : ServerType) (db : Db)
  | redirection (i : ℕ) (str : Bytes) (w : World)
  | discovered (now : ℤ) (node : Node) (db : Db)

namespace Registration

def request : Registration → Option (Db × Bytes × Role)
  | .creation build tlsContext id args =>
    if args.supported build && args.valid build && (!args.tls || tlsContext) then
      (given args.location).map fun l => (newVmodRedisDb (args.options build id), l, type2role args.type)
    else none
  | .addServer location type db =>
    if !db.clusterEnabled || type = .cluster then (given location).map fun l => (db, l, type2role type) else none
  | .redirection _ str w => (redirectionLocation str).map fun l => (w.db, l, .tbd)
  | .discovered _ node db => if node.location.length < 256 then some (db, node.location, node.role) else none

def after (fuel : ℕ) (input : RedirectInput) : Registration → Except Fault (Option Db)
  | .creation build tlsContext id args => vmodDbInit fuel input build tlsContext id args
  | .addServer location type db => (vmodDbAddServer fuel input location type db).map some
  | .redirection i str w =>
    match redirect fuel input i str w with
    | (_, .error f) => .error f
    | (w, .ok _) => .ok (some w.db)
  | .discovered now node db => .ok (some (unsafeAddNode now input.rules node db).2)

def Rejected (r : Registration) : Prop :=
  ∃ db location role, r.request = some (db, location, role) ∧ findServer db location = none ∧
    newRedisServer db location role = none

def Acceptable (r : Registration) : Prop :=
  ∀ db location role, r.request = some (db, location, role) →
    db.clusterEnabled = false ∨ colon ∈ cstr location ∨ (findServer db location).isSome = true

def Survived (fuel : ℕ) (input : RedirectInput) (r : Registration) : Prop :=
  ∀ db location role, r.request = some (db, location, role) →
    r.after fuel input =
      .ok (some (db.setStats { db.stats with serversFailed := db.stats.serversFailed + 1 }))

theorem acceptable_iff (r : Registration) : r.Acceptable ↔ ¬ r.Rejected := by
  constructor
  · rintro ha ⟨db, location, role, hr, hf, hn⟩
    obtain ⟨hc, hl⟩ := (newRedisServer_eq_none db location role).mp hn
    rcases ha db location role hr with h | h | h
    · exact Bool.false_ne_true (h.symm.trans hc)
    · exact hl h
    · rw [hf] at h
      exact Bool.false_ne_true h
  · intro hr db location role hq
    by_contra hn
    simp only [not_or, Bool.not_eq_false, Option.not_isSome_iff_eq_none] at hn
    obtain ⟨hc, hl, hf⟩ := hn
    exact hr ⟨db, location, role, hq, hf, (newRedisServer_eq_none db location role).mpr ⟨hc, hl⟩⟩

theorem discovered_not_rejected (now : ℤ) (node : Node) (db : Db) : ¬ (Registration.discovered now node db).Rejected := by
  rintro ⟨db', location, role, hr, -, hn⟩
  obtain ⟨-, hr⟩ := Option.ite_none_right_eq_some.mp hr
  cases hr
  exact newRedisServer_location db node node.role hn

end Registration

theorem unsafeAddRedisServer_rejected {db : Db} {location : Bytes} {role : Role}
    (hf : findServer db location = none) (hn : newRedisServer db location role = none) (input : AddInput)
    (rules : List WeightRule) :
    unsafeAddRedisServer input rules location role db =
      (none, db.setStats { db.stats with serversFailed := db.stats.serversFailed + 1 }) := by
  simp only [unsafeAddRedisServer, hf, hn]

theorem addFirst_rejected {db : Db} {location : Bytes} {role : Role} (hf : findServer db location = none)
    (hn : newRedisServer db location role = none) (fuel : ℕ) (input : RedirectInput) (discover : Db → Bool) :
    addFirst fuel input location role discover db = .error .serverRejected := by
  simp only [addFirst, unsafeAddRedisServer_rejected hf hn]

theorem redirect_rejected {w : World} {str location : Bytes} (hl : redirectionLocation str = some location)
    (hf : findServer w.db location = none) (hn : newRedisServer w.db location .tbd = none) (fuel : ℕ)
    (input : RedirectInput) (i : ℕ) : (redirect fuel input i str w).2 = .error .serverRejected := by
  simp only [redirect, hl, unsafeAddRedisServer_rejected hf hn]

namespace Registration

/-- The callers that can be rejected assert that they are not. -/
theorem Rejected.after_eq {r : Registration} (h : r.Rejected) (fuel : ℕ) (input : RedirectInput) :
    r.after fuel input = .error .serverRejected := by
  obtain ⟨db, location, role, hr, hf, hn⟩ := id h
  cases r with
  | creation build tlsContext id args =>
    obtain ⟨hguard, hr⟩ := Option.ite_none_right_eq_some.mp hr
    obtain ⟨l, hl, he⟩ := Option.map_eq_some_iff.mp hr
    cases he
    simp only [Bool.and_eq_true, Bool.or_eq_true, Bool.not_eq_true'] at hguard
    obtain ⟨⟨hsupported, hvalid⟩, htls⟩ := hguard
    have hcontext : ¬ (args.tls && !tlsContext) = true := by
      rcases htls with ht | ht <;> simp [ht]
    simp only [after, vmodDbInit, hsupported, hvalid, hl]
    rw [if_neg (by decide), if_neg hcontext, addFirst_rejected hf hn]
    rfl
  | addServer location type db =>
    obtain ⟨hguard, hr⟩ := Option.ite_none_right_eq_some.mp hr
    obtain ⟨l, hl, he⟩ := Option.map_eq_some_iff.mp hr
    cases he
    simp only [after, vmodDbAddServer, hl]
    rw [if_pos hguard, addFirst_rejected hf hn]
    rfl
  | redirection i str w =>
    obtain ⟨l, hl, he⟩ := Option.map_eq_some_iff.mp hr
    cases he
    have hfault := redirect_rejected hl hf hn fuel input i
    obtain ⟨⟨w', result⟩, hw⟩ : ∃ p, redirect fuel input i str w = p := ⟨_, rfl⟩
    rw [hw] at hfault
    simp only [after, hw]
    rw [show result = .error .serverRejected from hfault]
  | discovered now node db => exact absurd h (discovered_not_rejected now node db)

end Registration

theorem registration_survived_iff (fuel : ℕ) (input : RedirectInput) (r : Registration) :
    ((r.Rejected → r.Survived fuel input) ↔ r.Acceptable) ∧
      (r.Rejected → r.after fuel input = .error .serverRejected) := by
  refine ⟨⟨fun h => ?_, fun ha hr => absurd hr (r.acceptable_iff.mp ha)⟩, fun hr => hr.after_eq fuel input⟩
  apply r.acceptable_iff.mpr
  intro hr
  obtain ⟨db, location, role, hq, -⟩ := id hr
  have he := h hr db location role hq
  rw [hr.after_eq fuel input] at he
  cases he

def clusterArgs (location : Bytes) : DbArgs :=
  ⟨some location, .cluster, 0, 0, 0, 0, true, 1, .default, false, [some [], some [], some [], some [], some []],
    some [], some [], 0, false, 0⟩

def clusterDb : Db := newVmodRedisDb ((clusterArgs []).options ⟨true, true⟩ 0)

theorem registration_not_survived :
    let creation := Registration.creation ⟨true, true⟩ true 0 (clusterArgs (bytes "/var/run/redis.sock"))
    let redirection := Registration.redirection 0 (bytes "MOVED 866 localhost") (idleWorld clusterDb)
    let input : RedirectInput := ⟨⟨⟨0, false, none⟩, 0⟩, [], ⟨fun _ _ => 0, [], fun _ _ => none⟩⟩
    (creation.Rejected ∧ ¬ creation.Survived 0 input) ∧ redirection.Rejected ∧ ¬ redirection.Survived 0 input := by
  intro creation redirection input
  have hcreation : creation.Rejected :=
    ⟨clusterDb, bytes "/var/run/redis.sock", .tbd, rfl, by decide,
      (newRedisServer_eq_none _ _ _).mpr ⟨rfl, by decide⟩⟩
  have hredirection : redirection.Rejected :=
    ⟨clusterDb, bytes "localhost", .tbd, rfl, by decide, (newRedisServer_eq_none _ _ _).mpr ⟨rfl, by decide⟩⟩
  refine ⟨⟨hcreation, fun hs => ?_⟩, hredirection, fun hs => ?_⟩
  · have he := hs clusterDb (bytes "/var/run/redis.sock") .tbd rfl
    rw [hcreation.after_eq] at he
    cases he
  · have he := hs clusterDb (bytes "localhost") .tbd rfl
    rw [hredirection.after_eq] at he
    cases he

end VmodRedis.DatabaseCreation
