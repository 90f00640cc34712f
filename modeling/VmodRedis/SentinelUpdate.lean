import VmodRedis.Registry

namespace VmodRedis.SentinelUpdate

open CStrings Database Connections Registry

structure Discovered where
  host : Bytes
  port : ℕ
  role : Role
  down : Bool

def Discovered.describes (d : Discovered) (v : Server) : Bool :=
  match v.address with
  | .host host port => port = d.port && strcmp host d.host
  | .path _ => false

def changeRole (role : Role) (s : ServerId) (db : Db) : Db :=
  if (db.server s).role ≠ role then
    let db := db.removeServer s
    (db.setServer s { db.server s with role := role }).insertServer s
  else db

def changeSickness (down : Bool) (now : ℤ) (s : ServerId) (db : Db) : Db :=
  let v := db.server s
  if v.sickness.exp ≤ now then
    if down then db.setServer s { v with sickness := ⟨v.sickness.tst, uintMax⟩ } else db
  else if down then db
  else db.setServer s { v with sickness := ⟨v.sickness.tst, now⟩ }

def unsafeUpdateDbsAux (inventory : List Discovered) (now : ℤ) (s : ServerId) (db : Db) : Db :=
  match inventory.find? fun d => d.describes (db.server s) with
  | some d => changeSickness d.down now s (changeRole d.role s db)
  | none => db

/-- The loop over one list: it goes on from the element that followed the current one, so that it
visits what the list held when it began. `clock` tells the time of each visit. -/
def updateList (inventory : List Discovered) (clock : Bucket → ServerId → ℤ) (db : Db) (b : Bucket) : Db :=
  (db.servers b).foldl
    (fun db s => if (db.server s).address.isHost then unsafeUpdateDbsAux inventory (clock b s) s db else db) db

def unsafeUpdateDbs (inventory : List Discovered) (clock : Bucket → ServerId → ℤ) (db : Db) : Db :=
  if db.clusterEnabled then db else buckets.foldl (updateList inventory clock) db

theorem changeRole_spec {db : Db} (h : WellPlaced db) {s : ServerId} (hs : db.Registered s) (role : Role) :
    Added db s (changeRole role s db) ∧ WellPlaced (changeRole role s db) := by
  unfold changeRole
  split_ifs
  · have hd := (h.detached hs).setRole role
    refine ⟨hd.insert_added h, hd.insert_wellPlaced h ?_⟩
    rw [if_pos hs]
    rfl
  · exact ⟨.refl hs, h⟩

theorem changeSickness_only (down : Bool) (now : ℤ) (s : ServerId) (db : Db) :
    SicknessOnly s db (changeSickness down now s db) := by
  unfold changeSickness
  dsimp only
  split_ifs
  · exact .setSickness s db _
  · exact .refl s db
  · exact .refl s db
  · exact .setSickness s db _

theorem unsafeUpdateDbsAux_spec {db : Db} (h : WellPlaced db) {s : ServerId} (hs : db.Registered s)
    (inventory : List Discovered) (now : ℤ) :
    Retains db (unsafeUpdateDbsAux inventory now s db) ∧
      WellPlaced (unsafeUpdateDbsAux inventory now s db) := by
  unfold unsafeUpdateDbsAux
  split
  · next d _ =>
    obtain ⟨ha, hw⟩ := changeRole_spec h hs d.role
    have hsame := (changeSickness_only d.down now s (changeRole d.role s db)).same
    exact ⟨ha.retains.trans (retains_of_same hsame), hw.same hsame⟩
  · exact ⟨.refl db, h⟩

theorem updateList_spec {db : Db} (h : WellPlaced db) (inventory : List Discovered)
    (clock : Bucket → ServerId → ℤ) (b : Bucket) :
    Retains db (updateList inventory clock db b) ∧ WellPlaced (updateList inventory clock db b) := by
  refine foldl_retains (P := fun db s => db.Registered s) ?_ ?_ _ h fun s hs => ⟨b, hs⟩
  · intro db s hw hs
    split_ifs
    · exact unsafeUpdateDbsAux_spec hw hs inventory _
    · exact ⟨.refl db, hw⟩
  · intro db db' s hr hs
    exact hr.registered s hs

theorem unsafeUpdateDbs_spec {db : Db} (h : WellPlaced db) (inventory : List Discovered)
    (clock : Bucket → ServerId → ℤ) :
    Retains db (unsafeUpdateDbs inventory clock db) ∧ WellPlaced (unsafeUpdateDbs inventory clock db) := by
  unfold unsafeUpdateDbs
  split_ifs
  · exact ⟨.refl db, h⟩
  · exact foldl_retains (P := fun _ _ => True) (fun db b hw _ => updateList_spec hw inventory clock b)
      (fun _ _ _ _ _ => trivial) buckets h fun _ _ => trivial

end VmodRedis.SentinelUpdate
