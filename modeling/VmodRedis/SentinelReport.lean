import VmodRedis.RegistryInvariant

namespace VmodRedis.SentinelUpdate

open CStrings Database Connections Registry RegistryInvariant TransitionSystem

def Discovered.sameAddress (d e : Discovered) : Bool := d.port = e.port && strcmp d.host e.host

def Distinct (inventory : List Discovered) : Prop :=
  inventory.Pairwise fun d e => d.sameAddress e = false

def updateDbs (inventory : List Discovered) (clock : DbId → Bucket → ServerId → ℤ) (dbs : List Db) : List Db :=
  dbs.map fun db => unsafeUpdateDbs inventory (clock db.id) db

def reported (down : Bool) (now : ℤ) (sickness : Sickness) : Sickness :=
  if sickness.exp ≤ now then if down then ⟨sickness.tst, uintMax⟩ else sickness
  else if down then sickness
  else ⟨sickness.tst, now⟩

def updated (inventory : List Discovered) (now : ℤ) (v : Server) : Server :=
  match inventory.find? fun d => d.describes v with
  | some d => { v with role := d.role, sickness := reported d.down now v.sickness }
  | none => v

theorem describes_congr (d : Discovered) {v v' : Server} (h : v'.address = v.address) :
    d.describes v' = d.describes v := by
  unfold Discovered.describes
  rw [h]

theorem describes_sameAddress {d e : Discovered} {v : Server} (hd : d.describes v = true) (he : e.describes v = true) :
    d.sameAddress e = true := by
  unfold Discovered.describes at hd he
  cases ha : v.address with
  | path path => simp [ha] at hd
  | host host port =>
    simp only [ha, Bool.and_eq_true, decide_eq_true_eq, strcmp_iff] at hd he
    simp only [Discovered.sameAddress, Bool.and_eq_true, decide_eq_true_eq, strcmp_iff]
    exact ⟨hd.1.symm.trans he.1, hd.2.symm.trans he.2⟩

theorem find_describes {inventory : List Discovered} (h : Distinct inventory) {d : Discovered} (hd : d ∈ inventory)
    {v : Server} (hv : d.describes v = true) : (inventory.find? fun d => d.describes v) = some d := by
  induction inventory with
  | nil => exact absurd hd List.not_mem_nil
  | cons e inventory ih =>
    obtain ⟨hhead, htail⟩ := List.pairwise_cons.mp h
    rcases List.mem_cons.mp hd with rfl | hd
    · exact List.find?_cons_of_pos hv
    · have he : ¬ e.describes v = true := fun he => by
        have happart := hhead d hd
        rw [describes_sameAddress he hv] at happart
        exact absurd happart (by simp)
      exact (List.find?_cons_of_neg (p := fun d : Discovered => d.describes v) he).trans (ih htail hd)

theorem updated_address (inventory : List Discovered) (now : ℤ) (v : Server) :
    (updated inventory now v).address = v.address := by
  unfold updated
  cases inventory.find? fun d => d.describes v <;> rfl

theorem updated_of_find {inventory : List Discovered} {v : Server} {d : Discovered}
    (h : (inventory.find? fun d => d.describes v) = some d) (now : ℤ) :
    updated inventory now v = { v with role := d.role, sickness := reported d.down now v.sickness } := by
  unfold updated
  rw [h]

theorem updated_of_unmatched {inventory : List Discovered} {v : Server}
    (h : ∀ d ∈ inventory, d.describes v = false) (now : ℤ) : updated inventory now v = v := by
  unfold updated
  rw [List.find?_eq_none.mpr fun d hd => by rw [h d hd]; exact Bool.false_ne_true]

theorem reported_idem (down : Bool) (now : ℤ) (sickness : Sickness) :
    reported down now (reported down now sickness) = reported down now sickness := by
  unfold reported
  cases down <;> by_cases h : sickness.exp ≤ now <;> simp [h]

theorem reported_down_iff (now : ℤ) (sickness : Sickness) :
    (reported true now sickness).exp = uintMax ↔ sickness.exp ≤ now ∨ sickness.exp = uintMax := by
  unfold reported
  by_cases hle : sickness.exp ≤ now
  · rw [if_pos hle]
    exact ⟨fun _ => Or.inl hle, fun _ => rfl⟩
  · rw [if_neg hle]
    exact ⟨Or.inr, fun h => h.resolve_left hle⟩

theorem reported_up_le (now : ℤ) (sickness : Sickness) : (reported false now sickness).exp ≤ now := by
  unfold reported
  by_cases hle : sickness.exp ≤ now
  · rw [if_pos hle]
    exact hle
  · rw [if_neg hle]
    exact le_refl now

theorem reported_later {down : Bool} {now later : ℤ} (hle : now ≤ later) {sickness : Sickness}
    (h : down = true → sickness.exp ≤ now ∨ sickness.exp = uintMax) :
    reported down later (reported down now sickness) = reported down now sickness := by
  have hup : ∀ s : Sickness, s.exp ≤ now → reported false later s = s := by
    intro s hs
    unfold reported
    rw [if_pos (hs.trans hle)]
    rfl
  have hdown : ∀ s : Sickness, s.exp = uintMax → reported true later s = s := by
    rintro ⟨tst, exp⟩ rfl
    simp [reported]
  cases down with
  | false => exact hup _ (reported_up_le now sickness)
  | true => exact hdown _ ((reported_down_iff now sickness).mpr (h rfl))

theorem updated_idem (inventory : List Discovered) (now : ℤ) (v : Server) :
    updated inventory now (updated inventory now v) = updated inventory now v := by
  have hfind : (inventory.find? fun d => d.describes (updated inventory now v)) =
      inventory.find? fun d => d.describes v := by
    congr 1
    funext d
    exact describes_congr d (updated_address inventory now v)
  cases h : inventory.find? fun d => d.describes v with
  | none =>
    have he : updated inventory now v = v := by
      unfold updated
      rw [h]
    rw [he, he]
  | some d =>
    rw [h] at hfind
    rw [updated_of_find hfind, updated_of_find h]
    simp only [reported_idem]

theorem updated_later {inventory : List Discovered} {now later : ℤ} (hle : now ≤ later) {v : Server}
    (h : ∀ d ∈ inventory, d.describes v = true → d.down = true → v.sickness.exp ≤ now ∨ v.sickness.exp = uintMax) :
    updated inventory later (updated inventory now v) = updated inventory now v := by
  have hfind : (inventory.find? fun d => d.describes (updated inventory now v)) =
      inventory.find? fun d => d.describes v := by
    congr 1
    funext d
    exact describes_congr d (updated_address inventory now v)
  cases hf : inventory.find? fun d => d.describes v with
  | none =>
    have he : ∀ n, updated inventory n v = v := by
      intro n
      unfold updated
      rw [hf]
    rw [he, he]
  | some d =>
    have hd : d.describes v = true := List.find?_some (p := fun d : Discovered => d.describes v) hf
    rw [hf] at hfind
    rw [updated_of_find hfind, updated_of_find hf]
    simp only [reported_later hle (h d (List.mem_of_find?_eq_some hf) hd)]

theorem changeRole_server (role : Role) (s : ServerId) (db : Db) :
    (changeRole role s db).server = Function.update db.server s { db.server s with role := role } := by
  unfold changeRole
  by_cases h : (db.server s).role ≠ role
  · rw [if_pos h]
    rfl
  · rw [if_neg h]
    obtain rfl := not_not.mp h
    exact (Function.update_eq_self s db.server).symm

theorem changeSickness_server (down : Bool) (now : ℤ) (s : ServerId) (db : Db) :
    (changeSickness down now s db).server =
      Function.update db.server s { db.server s with sickness := reported down now (db.server s).sickness } := by
  unfold changeSickness reported
  dsimp only
  by_cases h : (db.server s).sickness.exp ≤ now <;> cases down <;> simp [h]

theorem unsafeUpdateDbsAux_server (inventory : List Discovered) (now : ℤ) (s : ServerId) (db : Db) :
    (unsafeUpdateDbsAux inventory now s db).server =
      Function.update db.server s (updated inventory now (db.server s)) := by
  unfold unsafeUpdateDbsAux updated
  cases inventory.find? fun d => d.describes (db.server s) with
  | none => exact (Function.update_eq_self s db.server).symm
  | some d =>
    dsimp only
    rw [changeSickness_server, changeRole_server, Function.update_self, Function.update_idem]

theorem unsafeUpdateDbsAux_fixed {inventory : List Discovered} {now : ℤ} {s : ServerId} {db : Db}
    (h : updated inventory now (db.server s) = db.server s) : unsafeUpdateDbsAux inventory now s db = db := by
  unfold unsafeUpdateDbsAux
  cases hf : inventory.find? fun d => d.describes (db.server s) with
  | none => rfl
  | some d =>
    rw [updated_of_find hf] at h
    have hrole : d.role = (db.server s).role := congrArg Server.role h
    have hsick : reported d.down now (db.server s).sickness = (db.server s).sickness := congrArg Server.sickness h
    have hstay : changeRole d.role s db = db := by
      unfold changeRole
      rw [if_neg (not_not.mpr hrole.symm)]
    dsimp only
    rw [hstay]
    have hsame : ∀ sickness, sickness = (db.server s).sickness →
        db.setServer s { db.server s with sickness := sickness } = db := by
      rintro sickness rfl
      exact congrArg (fun f => { db with server := f }) (Function.update_eq_self s db.server)
    unfold reported at hsick
    unfold changeSickness
    dsimp only
    split_ifs at hsick ⊢
    · exact hsame _ hsick
    · rfl
    · rfl
    · exact hsame _ hsick

def visited (inventory : List Discovered) (ns : List ℤ) (v : Server) : Server :=
  ns.foldl (fun v n => updated inventory n v) v

theorem visited_const (inventory : List Discovered) {now : ℤ} {ns : List ℤ} (hne : ns ≠ []) (h : ∀ n ∈ ns, n = now)
    (v : Server) : visited inventory ns v = updated inventory now v := by
  induction ns generalizing v with
  | nil => exact absurd rfl hne
  | cons n ns ih =>
    obtain rfl := h n (by simp)
    by_cases hns : ns = []
    · subst hns
      rfl
    · change visited inventory ns (updated inventory n v) = _
      rw [ih hns (fun m hm => h m (List.mem_cons_of_mem n hm)), updated_idem]

def visit (inventory : List Discovered) (clock : ServerId → ℤ) (db : Db) (s : ServerId) : Db :=
  if (db.server s).address.isHost then unsafeUpdateDbsAux inventory (clock s) s db else db

theorem visit_server (inventory : List Discovered) (clock : ServerId → ℤ) (db : Db) (s : ServerId) :
    (visit inventory clock db s).server =
      Function.update db.server s (updated inventory (clock s) (db.server s)) := by
  unfold visit
  by_cases hhost : (db.server s).address.isHost = true
  · rw [if_pos hhost]
    exact unsafeUpdateDbsAux_server inventory (clock s) s db
  · rw [if_neg hhost, updated_of_unmatched, Function.update_eq_self]
    intro d _
    unfold Discovered.describes
    cases ha : (db.server s).address with
    | host host port => exact absurd (by rw [ha]; rfl) hhost
    | path path => rfl

theorem foldl_visit (inventory : List Discovered) (clock : ServerId → ℤ) (l : List ServerId) (db : Db) (s : ServerId) :
    ∃ ns, (s ∈ l → ns ≠ []) ∧ (∀ n ∈ ns, n = clock s) ∧
      (l.foldl (visit inventory clock) db).server s = visited inventory ns (db.server s) := by
  induction l generalizing db with
  | nil => exact ⟨[], by simp, by simp, rfl⟩
  | cons t l ih =>
    obtain ⟨ns, hne, hn, hs⟩ := ih (visit inventory clock db t)
    rw [List.foldl_cons, hs, visit_server]
    by_cases hst : s = t
    · subst hst
      refine ⟨clock s :: ns, by simp, ?_, by rw [Function.update_self]; rfl⟩
      intro n hm
      rcases List.mem_cons.mp hm with rfl | hm
      · rfl
      · exact hn n hm
    · refine ⟨ns, fun hm => hne ((List.mem_cons.mp hm).resolve_left hst), hn, ?_⟩
      rw [Function.update_of_ne hst]

/-- A server that a visit moves from one list to another has been visited already, so that none is
missed: the servers still to be visited are in the lists still to come. -/
theorem foldl_updateList (inventory : List Discovered) (clock : Bucket → ServerId → ℤ) (bs : List Bucket) {db : Db}
    (hw : WellPlaced db) {s : ServerId} (hs : db.Registered s) :
    ∃ ns, ((db.server s).bucket ∈ bs → ns ≠ []) ∧ (∀ n ∈ ns, ∃ b, n = clock b s) ∧
      (bs.foldl (updateList inventory clock) db).server s = visited inventory ns (db.server s) := by
  induction bs generalizing db with
  | nil => exact ⟨[], by simp, by simp, rfl⟩
  | cons b bs ih =>
    obtain ⟨hr, hw'⟩ := updateList_spec hw inventory clock b
    obtain ⟨ms, hms, hm, hfirst⟩ := foldl_visit inventory (clock b) (db.servers b) db s
    obtain ⟨ns, hns, hn, hrest⟩ := ih hw' (hr.registered s hs)
    change (updateList inventory clock db b).server s = _ at hfirst
    refine ⟨ms ++ ns, fun hb => ?_, ?_, ?_⟩
    · by_cases hme : ms = []
      · subst hme
        have hnot : (db.server s).bucket ≠ b := by
          rintro rfl
          exact hms (hw.placed.mem_key hs) rfl
        have hstay : (updateList inventory clock db b).server s = db.server s := hfirst
        rw [hstay] at hns
        simpa using hns ((List.mem_cons.mp hb).resolve_left hnot)
      · simp [hme]
    · intro n hmem
      rcases List.mem_append.mp hmem with hmem | hmem
      · exact ⟨b, hm n hmem⟩
      · exact hn n hmem
    · rw [List.foldl_cons, hrest, hfirst]
      exact (List.foldl_append).symm

theorem unsafeUpdateDbs_visited (inventory : List Discovered) (clock : Bucket → ServerId → ℤ) {db : Db}
    (hw : WellPlaced db) (hc : db.clusterEnabled = false) {s : ServerId} (hs : db.Registered s) :
    ∃ ns, ns ≠ [] ∧ (∀ n ∈ ns, ∃ b, n = clock b s) ∧
      (unsafeUpdateDbs inventory clock db).server s = visited inventory ns (db.server s) := by
  obtain ⟨ns, hne, hn, he⟩ := foldl_updateList inventory clock buckets hw hs
  refine ⟨ns, hne (mem_buckets _), hn, ?_⟩
  unfold unsafeUpdateDbs
  rw [if_neg (by rw [hc]; exact Bool.false_ne_true)]
  exact he

theorem foldl_updateList_fixed {inventory : List Discovered} {clock : Bucket → ServerId → ℤ} {db : Db}
    (h : ∀ s, db.Registered s → ∀ b, updated inventory (clock b s) (db.server s) = db.server s) (bs : List Bucket) :
    bs.foldl (updateList inventory clock) db = db := by
  have hlist : ∀ b (l : List ServerId), (∀ s ∈ l, db.Registered s) → l.foldl (visit inventory (clock b)) db = db := by
    intro b l hl
    induction l with
    | nil => rfl
    | cons s l ih =>
      have hvisit : visit inventory (clock b) db s = db := by
        unfold visit
        by_cases hhost : (db.server s).address.isHost = true
        · rw [if_pos hhost]
          exact unsafeUpdateDbsAux_fixed (h s (hl s (by simp)) b)
        · rw [if_neg hhost]
      rw [List.foldl_cons, hvisit]
      exact ih fun t ht => hl t (List.mem_cons_of_mem s ht)
  induction bs with
  | nil => rfl
  | cons b bs ih =>
    have hb : updateList inventory clock db b = db := hlist b (db.servers b) fun s hs => ⟨b, hs⟩
    rw [List.foldl_cons, hb]
    exact ih

/-- What propagating an inventory at the time `now` is meant to do to a database. Each visit of an update reads
the clock, so that the second one is at any later times. -/
structure Propagated (inventory : List Discovered) (now : ℤ) (db db' : Db) : Prop where
  placed : db.clusterEnabled = false → ∀ s, db.Registered s → ∀ d ∈ inventory, d.describes (db.server s) = true →
    ∀ b, s ∈ db'.servers b ↔ b = ((db.server s).weight, d.role)
  down : db.clusterEnabled = false → ∀ s, db.Registered s → ∀ d ∈ inventory, d.describes (db.server s) = true →
    d.down = true → (db'.server s).sickness.exp = uintMax
  up : db.clusterEnabled = false → ∀ s, db.Registered s → ∀ d ∈ inventory, d.describes (db.server s) = true →
    d.down = false → (db'.server s).sickness.exp ≤ now
  clustered : db.clusterEnabled = true → db' = db
  unmatched : ∀ s, db.Registered s → (∀ d ∈ inventory, d.describes (db.server s) = false) →
    db'.server s = db.server s ∧ ∀ b, s ∈ db'.servers b ↔ s ∈ db.servers b
  again : ∀ clock : Bucket → ServerId → ℤ, (∀ b s, now ≤ clock b s) → unsafeUpdateDbs inventory clock db' = db'

theorem unsafeUpdateDbs_clustered (inventory : List Discovered) (clock : Bucket → ServerId → ℤ) {db : Db}
    (hc : db.clusterEnabled = true) : unsafeUpdateDbs inventory clock db = db := by
  unfold unsafeUpdateDbs
  rw [if_pos hc]

theorem unsafeUpdateDbs_server (inventory : List Discovered) (now : ℤ) {db : Db} (hw : WellPlaced db)
    (hc : db.clusterEnabled = false) {s : ServerId} (hs : db.Registered s) :
    (unsafeUpdateDbs inventory (fun _ _ => now) db).server s = updated inventory now (db.server s) := by
  obtain ⟨ns, hne, hn, he⟩ := unsafeUpdateDbs_visited inventory (fun _ _ => now) hw hc hs
  rw [he]
  apply visited_const inventory hne
  intro n hm
  obtain ⟨b, hb⟩ := hn n hm
  exact hb

theorem visit_spec {db : Db} (hw : WellPlaced db) {s : ServerId} (hs : db.Registered s) (inventory : List Discovered)
    (clock : ServerId → ℤ) : Retains db (visit inventory clock db s) ∧ WellPlaced (visit inventory clock db s) ∧
      ∀ t, (visit inventory clock db s).Registered t → db.Registered t := by
  unfold visit
  by_cases hhost : (db.server s).address.isHost = true
  · rw [if_pos hhost]
    obtain ⟨hr, hw'⟩ := unsafeUpdateDbsAux_spec hw hs inventory (clock s)
    refine ⟨hr, hw', fun t ht => ?_⟩
    unfold unsafeUpdateDbsAux at ht
    cases hf : inventory.find? fun d => d.describes (db.server s) with
    | none =>
      rw [hf] at ht
      exact ht
    | some d =>
      rw [hf] at ht
      obtain ⟨ha, -⟩ := changeRole_spec hw hs d.role
      have ht' := ((changeSickness_only d.down (clock s) s (changeRole d.role s db)).same.registered t).mp ht
      rcases (ha.registered t).mp ht' with ht' | rfl
      · exact ht'
      · exact hs
  · rw [if_neg hhost]
    exact ⟨.refl db, hw, fun _ ht => ht⟩

theorem foldl_visit_registered (inventory : List Discovered) (clock : ServerId → ℤ) {l : List ServerId} {db : Db}
    (hw : WellPlaced db) (hl : ∀ s ∈ l, db.Registered s) {t : ServerId}
    (ht : (l.foldl (visit inventory clock) db).Registered t) : db.Registered t := by
  induction l generalizing db with
  | nil => exact ht
  | cons s l ih =>
    obtain ⟨hr, hw', hback⟩ := visit_spec hw (hl s (by simp)) inventory clock
    apply hback
    exact ih hw' (fun u hu => hr.registered u (hl u (List.mem_cons_of_mem s hu))) ht

theorem foldl_updateList_registered (inventory : List Discovered) (clock : Bucket → ServerId → ℤ) {bs : List Bucket}
    {db : Db} (hw : WellPlaced db) {t : ServerId} (ht : (bs.foldl (updateList inventory clock) db).Registered t) :
    db.Registered t := by
  induction bs generalizing db with
  | nil => exact ht
  | cons b bs ih =>
    have ht' := ih (updateList_spec hw inventory clock b).2 ht
    exact foldl_visit_registered inventory (clock b) hw (fun s hs => ⟨b, hs⟩) ht'

theorem unsafeUpdateDbs_registered (inventory : List Discovered) (clock : Bucket → ServerId → ℤ) {db : Db}
    (hw : WellPlaced db) {s : ServerId} (hs : (unsafeUpdateDbs inventory clock db).Registered s) : db.Registered s := by
  unfold unsafeUpdateDbs at hs
  by_cases hc : db.clusterEnabled = true
  · rw [if_pos hc] at hs
    exact hs
  · rw [if_neg hc] at hs
    exact foldl_updateList_registered inventory clock hw hs

theorem unsafeUpdateDbs_described {inventory : List Discovered} (hd : Distinct inventory) (now : ℤ) {db : Db}
    (hw : WellPlaced db) (hc : db.clusterEnabled = false) {s : ServerId} (hs : db.Registered s) {d : Discovered}
    (hmem : d ∈ inventory) (hv : d.describes (db.server s) = true) :
    (unsafeUpdateDbs inventory (fun _ _ => now) db).server s =
      { db.server s with role := d.role, sickness := reported d.down now (db.server s).sickness } := by
  rw [unsafeUpdateDbs_server inventory now hw hc hs, updated_of_find (find_describes hd hmem hv)]

theorem unsafeUpdateDbs_undescribed {inventory : List Discovered} (now : ℤ) {db : Db} (hw : WellPlaced db)
    {s : ServerId} (hs : db.Registered s) (hnone : ∀ d ∈ inventory, d.describes (db.server s) = false) :
    (unsafeUpdateDbs inventory (fun _ _ => now) db).server s = db.server s := by
  by_cases hc : db.clusterEnabled = true
  · rw [unsafeUpdateDbs_clustered inventory _ hc]
  · rw [unsafeUpdateDbs_server inventory now hw (Bool.eq_false_iff.mpr hc) hs, updated_of_unmatched hnone]

theorem unsafeUpdateDbs_again {inventory : List Discovered} {now : ℤ} {db : Db} (hw : WellPlaced db)
    (h : db.clusterEnabled = false → ∀ s, db.Registered s → ∀ d ∈ inventory, d.describes (db.server s) = true →
      d.down = true → (db.server s).sickness.exp ≤ now ∨ (db.server s).sickness.exp = uintMax)
    {clock : Bucket → ServerId → ℤ} (hlater : ∀ b s, now ≤ clock b s) :
    unsafeUpdateDbs inventory clock (unsafeUpdateDbs inventory (fun _ _ => now) db) =
      unsafeUpdateDbs inventory (fun _ _ => now) db := by
  by_cases hc : db.clusterEnabled = true
  · rw [unsafeUpdateDbs_clustered inventory _ hc, unsafeUpdateDbs_clustered inventory _ hc]
  · rw [Bool.not_eq_true] at hc
    have hc' : (unsafeUpdateDbs inventory (fun _ _ => now) db).clusterEnabled = false := by
      rw [(unsafeUpdateDbs_spec hw inventory fun _ _ => now).1.options]
      exact hc
    rw [unsafeUpdateDbs, if_neg (by rw [hc']; exact Bool.false_ne_true)]
    apply foldl_updateList_fixed
    intro s hs b
    have hs' := unsafeUpdateDbs_registered inventory _ hw hs
    rw [unsafeUpdateDbs_server inventory now hw hc hs']
    exact updated_later (hlater b s) (h hc s hs')

theorem unsafeUpdateDbs_propagated {inventory : List Discovered} (hd : Distinct inventory) (now : ℤ) {db : Db}
    (hw : WellPlaced db) : Propagated inventory now db (unsafeUpdateDbs inventory (fun _ _ => now) db) ↔
      (db.clusterEnabled = false → ∀ s, db.Registered s → ∀ d ∈ inventory, d.describes (db.server s) = true →
        d.down = true → (db.server s).sickness.exp ≤ now ∨ (db.server s).sickness.exp = uintMax) := by
  obtain ⟨hr, hw'⟩ := unsafeUpdateDbs_spec hw inventory fun _ _ => now
  have hplace : ∀ s, db.Registered s → ∀ b, s ∈ (unsafeUpdateDbs inventory (fun _ _ => now) db).servers b ↔
      b = ((unsafeUpdateDbs inventory (fun _ _ => now) db).server s).bucket := by
    intro s hs b
    rw [hw'.placed.mem_iff]
    exact ⟨fun h => h.1.symm, fun h => ⟨h.symm, hr.registered s hs⟩⟩
  constructor
  · intro h hc s hs d hmem hv hdown
    have hexp := h.down hc s hs d hmem hv hdown
    rw [unsafeUpdateDbs_described hd now hw hc hs hmem hv, hdown] at hexp
    exact (reported_down_iff now _).mp hexp
  · intro h
    constructor
    case placed =>
      intro hc s hs d hmem hv b
      rw [hplace s hs, unsafeUpdateDbs_described hd now hw hc hs hmem hv]
      rfl
    case down =>
      intro hc s hs d hmem hv hdown
      rw [unsafeUpdateDbs_described hd now hw hc hs hmem hv, hdown]
      exact (reported_down_iff now _).mpr (h hc s hs d hmem hv hdown)
    case up =>
      intro hc s hs d hmem hv hdown
      rw [unsafeUpdateDbs_described hd now hw hc hs hmem hv, hdown]
      exact reported_up_le now _
    case clustered => exact fun hc => unsafeUpdateDbs_clustered inventory _ hc
    case unmatched =>
      intro s hs hnone
      have hserver := unsafeUpdateDbs_undescribed now hw hs hnone
      refine ⟨hserver, fun b => ?_⟩
      rw [hplace s hs, hserver, hw.placed.mem_iff]
      exact ⟨fun he => ⟨he.symm, hs⟩, fun he => he.1.symm⟩
    case again => exact fun clock hlater => unsafeUpdateDbs_again hw h hlater

/-- An update does to every database what it is meant to, unless some server reported as down was
already flagged as sick for a while. -/
theorem updateDbs_propagated {inventory : List Discovered} (hd : Distinct inventory) (now : ℤ) {dbs : List Db}
    (hdbs : ∀ db ∈ dbs, ∃ options, (registry options).Reachable db) :
    List.Forall₂ (Propagated inventory now) dbs (updateDbs inventory (fun _ _ _ => now) dbs) ↔
      ∀ db ∈ dbs, db.clusterEnabled = false → ∀ s, db.Registered s → ∀ d ∈ inventory,
        d.describes (db.server s) = true → d.down = true →
          (db.server s).sickness.exp ≤ now ∨ (db.server s).sickness.exp = uintMax := by
  unfold updateDbs
  rw [List.forall₂_map_right_iff, List.forall₂_same]
  apply forall₂_congr
  intro db hmem
  obtain ⟨options, hr⟩ := hdbs db hmem
  exact unsafeUpdateDbs_propagated hd now (reachable_wellPlaced hr)

def unreachable : Db :=
  (unsafeAddRedisServer ⟨⟨0, false, none⟩, 0⟩ [] (bytes "10.0.0.1:6379") .tbd
    (newVmodRedisDb ⟨0, 0, 0, false, 1, .unavailable, 60, false, false, 0⟩)).2

def reportedDown : List Discovered := [⟨bytes "10.0.0.1", 6379, .master, true⟩]

theorem unreachable_reachable : ∃ options, (registry options).Reachable unreachable :=
  ⟨_, (System.reachable_init rfl).step (.add _ _ _ _ _)⟩

theorem updateDbs_propagated_unreachable :
    List.Forall₂ (Propagated reportedDown 60) [unreachable] (updateDbs reportedDown (fun _ _ _ => 60) [unreachable]) :=
  (updateDbs_propagated (List.pairwise_singleton _ _) 60
    fun _ hm => List.mem_singleton.mp hm ▸ unreachable_reachable).mpr fun db hm _ s hs _ _ _ _ => by
      obtain rfl := List.mem_singleton.mp hm
      have hall : ∀ s ∈ unreachable.allServers, (unreachable.server s).sickness.exp ≤ 60 := by decide +kernel
      exact Or.inl (hall s ((unreachable.mem_allServers s).mpr hs))

theorem updateDbs_keeps_expiration :
    ¬ List.Forall₂ (Propagated reportedDown 30) [unreachable] (updateDbs reportedDown (fun _ _ _ => 30) [unreachable]) := by
  intro h
  have hp := List.forall₂_same.mp (List.forall₂_map_right_iff.mp h) unreachable (List.mem_singleton_self _)
  have hs : unreachable.Registered 0 := (unreachable.mem_allServers 0).mp (by decide +kernel)
  have hexp := hp.down rfl 0 hs _ (List.mem_singleton_self _) (by decide +kernel) rfl
  revert hexp
  decide +kernel

end VmodRedis.SentinelUpdate
