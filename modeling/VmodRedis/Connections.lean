import VmodRedis.Database

namespace VmodRedis.Connections

open Database

inductive Drop where
  | error
  | version
  | ttl
  | sick
  | hungUp
  deriving DecidableEq

def countDrop : Drop → Dropped → Dropped
  | .error, d => { d with error := d.error + 1 }
  | .version, d => { d with version := d.version + 1 }
  | .ttl, d => { d with ttl := d.ttl + 1 }
  | .sick, d => { d with sick := d.sick + 1 }
  | .hungUp, d => { d with hungUp := d.hungUp + 1 }

/-- What a validity check reads outside the database: the clock, `vmod_state.version` as it is when each context is
checked or stamped, and what `poll` says of each connection. -/
structure Probe where
  now : ℤ
  version : ContextId → ℕ
  hup : ContextId → Bool

/-- The object that each identity of a context stands for. -/
abbrev Heap := ContextId → Context

def rejection (p : Probe) (heap : Heap) (db : Db) (c : ContextId) : Option Drop :=
  let context := heap c
  if context.err then some .error
  else if context.version ≠ p.version c then some .version
  else if 0 < db.connectionTtl ∧ (db.connectionTtl : ℤ) < p.now - context.tst then some .ttl
  else if 0 < db.sicknessTtl ∧ context.tst ≤ (db.server context.server).sickness.tst then some .sick
  else if p.hup c then some .hungUp
  else none

def Accepted (p : Probe) (heap : Heap) (db : Db) (c : ContextId) : Prop := rejection p heap db c = none

instance (p : Probe) (heap : Heap) (db : Db) (c : ContextId) : Decidable (Accepted p heap db c) :=
  inferInstanceAs (Decidable (_ = _))

theorem ite_some_eq_none {P : Prop} [Decidable P] {d : Drop} {r : Option Drop} :
    (if P then some d else r) = none ↔ ¬ P ∧ r = none := by
  by_cases h : P <;> simp [h]

theorem accepted_iff (p : Probe) (heap : Heap) (db : Db) (c : ContextId) :
    Accepted p heap db c ↔ (heap c).err = false ∧ (heap c).version = p.version c ∧
      (0 < db.connectionTtl → p.now - (heap c).tst ≤ db.connectionTtl) ∧
      (0 < db.sicknessTtl → (db.server (heap c).server).sickness.tst < (heap c).tst) ∧ p.hup c = false := by
  unfold Accepted rejection
  simp only [ite_some_eq_none, Bool.not_eq_true, ne_eq, not_not, not_and, not_lt, not_le, and_true]

def countDropped (d : Drop) (db : Db) : Db :=
  db.setStats { db.stats with dropped := countDrop d db.stats.dropped }

def isValidRedisContext (p : Probe) (heap : Heap) (db : Db) (c : ContextId) : Bool × Db :=
  match rejection p heap db c with
  | none => (true, db)
  | some d => (false, countDropped d db)

def newRedisContext (db : Db) (s : ServerId) (version : ℕ) (now : ℤ) : Context :=
  { db := db.id, server := s, err := false, version := version, tst := now }

def flushSickness (now : ℤ) (s : ServerId) (db : Db) : Db :=
  let server := db.server s
  if now < server.sickness.exp then
    db.setServer s { server with sickness := ⟨server.sickness.tst, now⟩ }
  else db

def flagSickness (now : ℤ) (s : ServerId) (db : Db) : Db :=
  if 0 < db.sicknessTtl then
    db.setServer s { db.server s with sickness := ⟨now, now + db.sicknessTtl⟩ }
  else db

/-- `new_rcontext`: `connected` says whether the connection was established and initialised. -/
def newRcontext (now : ℤ) (ephemeral connected : Bool) (s : ServerId) (db : Db) : Db :=
  if connected then
    let db := flushSickness now s db
    if ephemeral then db
    else db.setStats { db.stats with connectionsTotal := db.stats.connectionsTotal + 1 }
  else
    let db := flagSickness now s db
    if ephemeral then db
    else db.setStats { db.stats with connectionsFailed := db.stats.connectionsFailed + 1 }

def core (v : Server) : Server := { v with pool := .empty, sickness := ⟨0, 0⟩ }

structure SameRegistry (db db' : Db) : Prop where
  options : db'.toOptions = db.toOptions
  servers : db'.servers = db.servers
  nextServer : db'.nextServer = db.nextServer
  serversTotal : db'.stats.serversTotal = db.stats.serversTotal
  discoveriesTotal : db'.stats.discoveriesTotal = db.stats.discoveriesTotal
  discoveriesFailed : db'.stats.discoveriesFailed = db.stats.discoveriesFailed
  core : ∀ s, core (db'.server s) = core (db.server s)

namespace SameRegistry

theorem refl (db : Db) : SameRegistry db db := ⟨rfl, rfl, rfl, rfl, rfl, rfl, fun _ => rfl⟩

theorem trans {a b c : Db} (h : SameRegistry a b) (h' : SameRegistry b c) : SameRegistry a c where
  options := h'.options.trans h.options
  servers := h'.servers.trans h.servers
  nextServer := h'.nextServer.trans h.nextServer
  serversTotal := h'.serversTotal.trans h.serversTotal
  discoveriesTotal := h'.discoveriesTotal.trans h.discoveriesTotal
  discoveriesFailed := h'.discoveriesFailed.trans h.discoveriesFailed
  core s := (h'.core s).trans (h.core s)

variable {db db' : Db} (h : SameRegistry db db') (s : ServerId)

include h

theorem raw : (db'.server s).raw = (db.server s).raw := (Server.mk.inj (h.core s)).1

theorem address : (db'.server s).address = (db.server s).address := (Server.mk.inj (h.core s)).2.1

theorem role : (db'.server s).role = (db.server s).role := (Server.mk.inj (h.core s)).2.2.1

theorem weight : (db'.server s).weight = (db.server s).weight := (Server.mk.inj (h.core s)).2.2.2.1

theorem slots : (db'.server s).slots = (db.server s).slots := (Server.mk.inj (h.core s)).2.2.2.2.2.1

theorem bucket : (db'.server s).bucket = (db.server s).bucket := by
  simp only [Server.bucket, h.weight, h.role]

theorem registered : db'.Registered s ↔ db.Registered s := by
  simp only [Db.Registered, h.servers]

theorem allServers : db'.allServers = db.allServers := by
  simp only [Db.allServers, h.servers]

omit h

theorem setServer (db : Db) (s : ServerId) (pool : Pool) (sickness : Sickness) :
    SameRegistry db (db.setServer s { db.server s with pool := pool, sickness := sickness }) where
  options := rfl
  servers := rfl
  nextServer := rfl
  serversTotal := rfl
  discoveriesTotal := rfl
  discoveriesFailed := rfl
  core t := by
    by_cases ht : t = s
    · subst ht
      simp [Connections.core]
    · simp [ht]

theorem setPool (db : Db) (s : ServerId) (pool : Pool) : SameRegistry db (db.setPool s pool) :=
  setServer db s pool (db.server s).sickness

theorem setStats (db : Db) (stats : Stats) (hs : stats.serversTotal = db.stats.serversTotal)
    (ht : stats.discoveriesTotal = db.stats.discoveriesTotal)
    (hf : stats.discoveriesFailed = db.stats.discoveriesFailed) :
    SameRegistry db (db.setStats stats) :=
  ⟨rfl, rfl, rfl, hs, ht, hf, fun _ => rfl⟩

end SameRegistry

theorem countDropped_same (d : Drop) (db : Db) : SameRegistry db (countDropped d db) :=
  .setStats _ _ rfl rfl rfl

theorem isValidRedisContext_same (p : Probe) (heap : Heap) (db : Db) (c : ContextId) :
    SameRegistry db (isValidRedisContext p heap db c).2 := by
  unfold isValidRedisContext
  cases rejection p heap db c with
  | none => exact .refl db
  | some d => exact countDropped_same d db

theorem isValidRedisContext_server (p : Probe) (heap : Heap) (db : Db) (c : ContextId) :
    (isValidRedisContext p heap db c).2.server = db.server := by
  unfold isValidRedisContext
  cases rejection p heap db c <;> rfl

theorem isValidRedisContext_iff (p : Probe) (heap : Heap) (db : Db) (c : ContextId) :
    (isValidRedisContext p heap db c).1 = true ↔ Accepted p heap db c := by
  unfold isValidRedisContext Accepted
  cases rejection p heap db c <;> simp

structure SicknessOnly (s : ServerId) (db db' : Db) : Prop where
  same : SameRegistry db db'
  server : ∃ sickness, db'.server = Function.update db.server s { db.server s with sickness := sickness }

namespace SicknessOnly

variable {s : ServerId} {db db' : Db}

theorem refl (s : ServerId) (db : Db) : SicknessOnly s db db :=
  ⟨.refl db, (db.server s).sickness, (Function.update_eq_self s db.server).symm⟩

theorem setSickness (s : ServerId) (db : Db) (sickness : Sickness) :
    SicknessOnly s db (db.setServer s { db.server s with sickness := sickness }) :=
  ⟨.setServer db s (db.server s).pool sickness, sickness, rfl⟩

theorem count (h : SicknessOnly s db db') (stats : Stats)
    (hs : stats.serversTotal = db'.stats.serversTotal)
    (ht : stats.discoveriesTotal = db'.stats.discoveriesTotal)
    (hf : stats.discoveriesFailed = db'.stats.discoveriesFailed) :
    SicknessOnly s db (db'.setStats stats) :=
  ⟨h.same.trans (.setStats _ _ hs ht hf), h.server⟩

theorem of_ne (h : SicknessOnly s db db') {t : ServerId} (ht : t ≠ s) : db'.server t = db.server t := by
  obtain ⟨sickness, hs⟩ := h.server
  rw [hs, Function.update_of_ne ht]

theorem pool (h : SicknessOnly s db db') (t : ServerId) : (db'.server t).pool = (db.server t).pool := by
  by_cases ht : t = s
  · obtain ⟨sickness, hs⟩ := h.server
    rw [hs, ht, Function.update_self]
  · rw [h.of_ne ht]

end SicknessOnly

theorem flushSickness_only (now : ℤ) (s : ServerId) (db : Db) :
    SicknessOnly s db (flushSickness now s db) := by
  unfold flushSickness
  dsimp only
  split_ifs
  · exact .setSickness s db _
  · exact .refl s db

theorem flagSickness_only (now : ℤ) (s : ServerId) (db : Db) :
    SicknessOnly s db (flagSickness now s db) := by
  unfold flagSickness
  split_ifs
  · exact .setSickness s db _
  · exact .refl s db

theorem newRcontext_only (now : ℤ) (ephemeral connected : Bool) (s : ServerId) (db : Db) :
    SicknessOnly s db (newRcontext now ephemeral connected s db) := by
  cases connected
  · have h := flagSickness_only now s db
    cases ephemeral
    · exact h.count _ rfl rfl rfl
    · exact h
  · have h := flushSickness_only now s db
    cases ephemeral
    · exact h.count _ rfl rfl rfl
    · exact h

end VmodRedis.Connections
