import VmodRedis.Lib.Buckets
import VmodRedis.RelistedNodes

namespace VmodRedis.DiscoveryWalk

open CStrings Replies Database Connections Registry Discovery

/-- What a discovery meets: the reply to each of its queries, counted from the first, and the times
at which each of them registers nodes. -/
structure DiscoveryInput where
  clock : ℕ → ℕ → ℤ
  rules : List WeightRule
  reply : ℕ → ServerId → Option Reply

structure Walk where
  db : Db
  queried : List ServerId

def query (input : DiscoveryInput) (s : ServerId) (walk : Walk) : Bool × Walk :=
  let n := walk.queried.length
  let (done, db) := unsafeDiscoverSlotsAux (input.clock n) input.rules (input.reply n s) s walk.db
  (done, ⟨db, walk.queried ++ [s]⟩)

def next (db : Db) (s : ServerId) : Option ServerId := Buckets.successor s (db.servers (db.server s).bucket)

/-- `VTAILQ_FOREACH` from the server at hand on, or nothing if it does not end within `fuel` steps. -/
def visitFrom (input : DiscoveryInput) (start : ServerId) : ℕ → Option ServerId → Walk → Option (Bool × Walk)
  | _, none, walk => some (false, walk)
  | 0, some _, _ => none
  | fuel + 1, some s, walk =>
    if s ≠ start then
      let (done, walk) := query input s walk
      if done then some (true, walk) else visitFrom input start fuel (next walk.db s) walk
    else visitFrom input start fuel (next walk.db s) walk

def visitBuckets (input : DiscoveryInput) (start : ServerId) (fuel : ℕ) : List Bucket → Walk → Option (Bool × Walk)
  | [], walk => some (false, walk)
  | b :: rest, walk =>
    match visitFrom input start fuel (walk.db.servers b).head? walk with
    | some (false, walk) => visitBuckets input start fuel rest walk
    | result => result

def unsafeDiscoverSlots (fuel : ℕ) (input : DiscoveryInput) (start : ServerId) (db : Db) :
    Option (Bool × Walk) :=
  let (done, walk) := query input start ⟨db, []⟩
  if done then some (true, walk) else visitBuckets input start fuel buckets walk

theorem visitFrom_mono {input : DiscoveryInput} {start : ServerId} {fuel fuel' : ℕ} (h : fuel ≤ fuel')
    {s : Option ServerId} {walk : Walk} {r : Bool × Walk} (hr : visitFrom input start fuel s walk = some r) :
    visitFrom input start fuel' s walk = some r := by
  induction fuel generalizing fuel' s walk with
  | zero =>
    cases s with
    | none => rwa [visitFrom] at hr ⊢
    | some s => simp [visitFrom] at hr
  | succ fuel ih =>
    obtain ⟨fuel', rfl⟩ : ∃ n, fuel' = n + 1 := ⟨fuel' - 1, by omega⟩
    have hle : fuel ≤ fuel' := by omega
    cases s with
    | none => rwa [visitFrom] at hr ⊢
    | some s =>
      simp only [visitFrom] at hr ⊢
      by_cases hs : s ≠ start
      · rw [if_pos hs] at hr ⊢
        by_cases hd : (query input s walk).1 = true
        · rwa [if_pos hd] at hr ⊢
        · rw [if_neg hd] at hr ⊢
          exact ih hle hr
      · rw [if_neg hs] at hr ⊢
        exact ih hle hr

theorem visitBuckets_mono {input : DiscoveryInput} {start : ServerId} {fuel fuel' : ℕ} (h : fuel ≤ fuel')
    {bs : List Bucket} {walk : Walk} {r : Bool × Walk} (hr : visitBuckets input start fuel bs walk = some r) :
    visitBuckets input start fuel' bs walk = some r := by
  induction bs generalizing walk with
  | nil => exact hr
  | cons b bs ih =>
    unfold visitBuckets at hr ⊢
    cases hv : visitFrom input start fuel (walk.db.servers b).head? walk with
    | none => simp [hv] at hr
    | some r' =>
      rw [visitFrom_mono h hv]
      rw [hv] at hr
      obtain ⟨done, walk'⟩ := r'
      cases done with
      | true => exact hr
      | false => exact ih hr

theorem unsafeDiscoverSlots_mono {input : DiscoveryInput} {start : ServerId} {fuel fuel' : ℕ}
    (h : fuel ≤ fuel') {db : Db} {r : Bool × Walk} (hr : unsafeDiscoverSlots fuel input start db = some r) :
    unsafeDiscoverSlots fuel' input start db = some r := by
  simp only [unsafeDiscoverSlots] at hr ⊢
  by_cases hd : (query input start ⟨db, []⟩).1 = true
  · rwa [if_pos hd] at hr ⊢
  · rw [if_neg hd] at hr ⊢
    exact visitBuckets_mono h hr

structure SameLists (db db' : Db) : Prop where
  retains : Retains db db'
  wellPlaced : WellPlaced db'
  servers : db'.servers = db.servers

namespace SameLists

variable {db db' db'' : Db} {s : ServerId}

theorem refl (h : WellPlaced db) : SameLists db db := ⟨.refl db, h, rfl⟩

theorem trans (h : SameLists db db') (h' : SameLists db' db'') : SameLists db db'' :=
  ⟨h.retains.trans h'.retains, h'.wellPlaced, h'.servers.trans h.servers⟩

theorem registered (h : SameLists db db') : db'.Registered s ↔ db.Registered s := by
  simp only [Db.Registered, h.servers]

theorem tls (h : SameLists db db') : db'.tls = db.tls := congrArg Options.tls h.retains.options

theorem bucket (h : SameLists db db') (hw : WellPlaced db) (hs : db.Registered s) :
    (db'.server s).bucket = (db.server s).bucket :=
  h.wellPlaced.placed.key_eq _ s (by rw [h.servers]; exact hw.placed.mem_key hs)

theorem announced (h : SameLists db db') (hs : db.Registered s) (reply : Option Reply) :
    announced db' s reply = Discovery.announced db s reply := by
  unfold Discovery.announced
  rw [h.tls, h.retains.address s hs]

theorem named (h : SameLists db db') (hw : WellPlaced db) (node : Node) : Named db' node s ↔ Named db node s := by
  unfold Named
  rw [h.registered]
  refine and_congr_right fun hs => ?_
  rw [h.retains.raw s hs, show (db'.server s).role = (db.server s).role from congrArg Prod.snd (h.bucket hw hs)]

end SameLists

def Harmless (ok : ServerId → Bool) (quiet : ServerId → Prop) : List ServerId → Prop
  | [] => True
  | s :: rest => ok s = true ∨ (quiet s ∧ Harmless ok quiet rest)

section

variable {ok : ServerId → Bool} {quiet : ServerId → Prop} {l l' : List ServerId}

theorem Harmless.left (h : Harmless ok quiet (l ++ l')) : Harmless ok quiet l := by
  induction l with
  | nil => trivial
  | cons s l ih => exact h.imp_right fun hs => ⟨hs.1, ih hs.2⟩

theorem Harmless.right (h : Harmless ok quiet (l ++ l')) (hn : l.any ok = false) : Harmless ok quiet l' := by
  induction l with
  | nil => exact h
  | cons s l ih =>
    rw [List.any_cons, Bool.or_eq_false_iff] at hn
    exact ih (h.resolve_left (by simp [hn.1])).2 hn.2

end

section

variable {db : Db} (hw : WellPlaced db) (clock : ℕ → ℕ → ℤ) (rules : List WeightRule)
  (outcome : ServerId → Option Reply) (start : ServerId)

include hw

end

def addMaster (db : Db) (location : Bytes) : Db :=
  (unsafeAddRedisServer ⟨⟨0, false, none⟩, 0⟩ [] location .master db).2

def masters : Db :=
  [bytes "10.0.0.1:6379", bytes "10.0.0.2:6379", bytes "10.0.0.3:6379"].foldl addMaster
    (newVmodRedisDb ⟨0, 0, 0, false, 1, .off, 0, false, true, 0⟩)

theorem addMasters_fresh (locations : List Bytes) {db : Db} (h : WellPlaced db)
    (hp : ∀ s, (db.server s).pool = .empty) : WellPlaced (locations.foldl addMaster db) ∧
      ∀ s, ((locations.foldl addMaster db).server s).pool = .empty := by
  induction locations generalizing db with
  | nil => exact ⟨h, hp⟩
  | cons location locations ih =>
    refine ih (unsafeAddRedisServer_wellPlaced h _ _ location _) fun s => ?_
    unfold addMaster
    rcases unsafeAddRedisServer_spec h ⟨⟨0, false, none⟩, 0⟩ [] location .master with ⟨t, d, he, ha, -, -⟩ | ⟨-, he⟩
    · rw [he]
      rcases ha.pools s with hs | hs
      · exact hs.trans (hp s)
      · exact hs
    · rw [he]
      exact hp s

theorem masters_fresh : WellPlaced masters ∧ ∀ s, (masters.server s).pool = .empty := by
  have h := newVmodRedisDb_wellPlaced ⟨0, 0, 0, false, 1, .off, 0, false, true, 0⟩
  unfold masters
  exact addMasters_fresh _ h fun _ => rfl

end VmodRedis.DiscoveryWalk
