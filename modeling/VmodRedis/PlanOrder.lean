import VmodRedis.Lib.RoundRobin
import VmodRedis.PlanScans

namespace VmodRedis.Planning

open CStrings Database Connections Registry RoundRobin

def preferred (db : Db) (now : ℤ) (master : Bool) (slot : ℕ) (s : ServerId) : Bool :=
  ownsSlot db slot s && healthy db now s && (!master || (db.server s).role = .master)

def reserve (db : Db) (now : ℤ) (master : Bool) (s : ServerId) : Bool :=
  if master then (db.server s).role = .tbd || ((db.server s).role = .master && !healthy db now s)
  else !healthy db now s

/-- All the servers that a plan may have, in the order in which they are tried. -/
def planOrder (db : Db) (now : ℤ) (master : Bool) (slot : ℕ) : List ServerId :=
  let first := db.allServers.filter (preferred db now master slot)
  if db.clusterEnabled then
    if first = [] then
      db.allServers.filter (healthy db now) ++ db.allServers.filter fun s => !healthy db now s
    else first
  else first ++ db.allServers.filter (reserve db now master)

def listed (db : Db) (now : ℤ) (master : Bool) (slot : ℕ) (round : Round) (b : Bucket) : List ServerId :=
  if listConsidered master b.2 round then
    (db.servers b).filter fun s => serverConsidered db now master slot s round
  else []

def roundOrder (db : Db) (now : ℤ) (master : Bool) (slot : ℕ) (round : Round) : List ServerId :=
  buckets.flatMap (listed db now master slot round)

def ServerScan.take (scan : ServerScan) (servers : List ServerId) : ServerScan :=
  { scan with
    planned := scan.planned ++ servers.take scan.remaining
    remaining := scan.remaining - servers.length }

theorem ServerScan.take_nil (scan : ServerScan) : scan.take [] = scan := by
  simp [ServerScan.take]

theorem ServerScan.take_take (scan : ServerScan) (servers servers' : List ServerId) :
    (scan.take servers).take servers' = scan.take (servers ++ servers') := by
  simp only [ServerScan.take, List.take_append, List.append_assoc, List.length_append, Nat.sub_sub]

theorem ServerScan.take_of_full {scan : ServerScan} (h : scan.remaining = 0) (servers : List ServerId) :
    scan.take servers = scan := by
  cases scan
  cases h
  simp [ServerScan.take]

theorem scanServers_eq {considered : ServerId → Bool} {freeWs : ℕ} {servers : List ServerId} {scan : ServerScan}
    (hr : scan.remaining ≠ 0) (hw : pointerSize ≤ freeWs ∨ servers.filter considered = []) :
    scanServers considered freeWs servers scan = scan.take (servers.filter considered) := by
  induction servers generalizing scan with
  | nil => exact scan.take_nil.symm
  | cons s rest ih =>
    unfold scanServers
    by_cases hs : considered s = true
    · rw [List.filter_cons_of_pos hs] at hw ⊢
      have hroom : pointerSize ≤ freeWs := hw.resolve_right (List.cons_ne_nil s _)
      have hone : { scan with planned := scan.planned ++ [s], remaining := scan.remaining - 1 } = scan.take [s] := by
        rw [ServerScan.take, List.take_of_length_le (by rw [List.length_singleton]; omega), List.length_singleton]
      have hsplit : scan.take (s :: rest.filter considered) = (scan.take [s]).take (rest.filter considered) :=
        (scan.take_take [s] _).symm
      rw [if_pos hs, if_pos hroom, hone, hsplit]
      dsimp only
      split_ifs with hfull
      · exact (ServerScan.take_of_full hfull _).symm
      · exact ih hfull (Or.inl hroom)
    · rw [List.filter_cons_of_neg hs] at hw ⊢
      rw [if_neg hs]
      exact ih hr hw

def turnList (db : Db) (now : ℤ) (master : Bool) (slot : ℕ) (b : Bucket) : Db :=
  let considered s := serverConsidered db now master slot s .first
  { db with servers := Function.update db.servers b (turn considered (db.servers b)) }

section

variable {now : ℤ} {master : Bool} {slot freeWs : ℕ} {round : Round} {scan : ServerScan} {b : Bucket}

theorem listed_of_considered (db : Db) (h : listConsidered master b.2 round = true) :
    listed db now master slot round b = (db.servers b).filter fun s => serverConsidered db now master slot s round := by
  rw [listed, if_pos h]

theorem visitList_of_unlisted (h : ¬ listConsidered master b.2 round = true) :
    visitList now master slot freeWs round scan b = scan := by
  rw [visitList, if_pos (by simp [h])]

theorem visitList_of_full (h : scan.remaining = 0) : visitList now master slot freeWs round scan b = scan := by
  rw [visitList, if_pos (by simp [h])]

theorem ServerScan.take_first (servers : List ServerId) (hr : scan.remaining ≠ 0) :
    (scan.take servers).planned[scan.planned.length]? = servers.head? := by
  obtain ⟨r, hr'⟩ := Nat.exists_eq_succ_of_ne_zero hr
  rw [ServerScan.take, List.getElem?_append_right (le_refl _), Nat.sub_self, hr', ← List.head?_eq_getElem?]
  cases servers <;> rfl

theorem turnList_of_unlisted (db : Db) (hlist : listConsidered master b.2 .first = true)
    (h : listed db now master slot .first b = []) : turnList db now master slot b = db := by
  rw [listed_of_considered db hlist] at h
  rw [turnList, turn_eq_self h, Function.update_eq_self]

theorem visitList_eq_of_open (ho : scan.overflow = false) (hr : scan.remaining ≠ 0)
    (hlist : listConsidered master b.2 round = true)
    (hw : pointerSize ≤ freeWs ∨ listed scan.db now master slot round b = []) :
    visitList now master slot freeWs round scan b = { scan.take (listed scan.db now master slot round b) with
      db := if round = .first then turnList scan.db now master slot b else scan.db } := by
  have hlisted : listed scan.db now master slot round b =
      (scan.db.servers b).filter fun s => serverConsidered scan.db now master slot s round :=
    listed_of_considered scan.db hlist
  rw [hlisted] at hw
  unfold visitList
  rw [if_neg (by simp [ho, hr, hlist])]
  dsimp only
  rw [scanServers_eq hr hw, ← hlisted, ServerScan.take_first _ hr]
  cases round
  case first =>
    rw [if_pos rfl]
    cases hhead : (listed scan.db now master slot .first b).head? with
    | none =>
      rw [turnList_of_unlisted scan.db hlist (List.head?_eq_none_iff.mp hhead)]
      rfl
    | some s =>
      rw [hlisted, List.head?_filter] at hhead
      rw [turnList, turn_of_find hhead]
      rfl
  all_goals
    rfl

theorem visitList_later (ho : scan.overflow = false) (hround : round ≠ .first)
    (hw : pointerSize ≤ freeWs ∨ listed scan.db now master slot round b = []) :
    visitList now master slot freeWs round scan b = scan.take (listed scan.db now master slot round b) := by
  by_cases hlist : listConsidered master b.2 round = true
  · by_cases hr : scan.remaining = 0
    · rw [visitList_of_full hr, ServerScan.take_of_full hr]
    · rw [visitList_eq_of_open ho hr hlist hw, if_neg hround]
      rfl
  · rw [visitList_of_unlisted hlist, listed, if_neg hlist, ServerScan.take_nil]

def firstList (db : Db) (now : ℤ) (master : Bool) (slot : ℕ) (bs : List Bucket) : Option Bucket :=
  bs.find? fun b => listed db now master slot .first b ≠ []

/-- The first round has changed no list but some of those given, each by one turn, and as long as there
was room it has turned the first of them with servers to consider. -/
structure Turned (now : ℤ) (master : Bool) (slot remaining : ℕ) (bs : List Bucket) (db db' : Db) : Prop where
  rotated : Rotated db db'
  others : ∀ b ∉ bs, db'.servers b = db.servers b
  turned : ∀ b, db'.servers b = db.servers b ∨ listConsidered master b.2 .first = true ∧
    db'.servers b = turn (fun s => serverConsidered db now master slot s .first) (db.servers b)
  served : remaining ≠ 0 → ∀ b, firstList db now master slot bs = some b →
    db'.servers b = turn (fun s => serverConsidered db now master slot s .first) (db.servers b)

theorem Turned.turnList (db : Db) (remaining : ℕ) (hlist : listConsidered master b.2 .first = true) :
    Turned now master slot remaining [b] db (turnList db now master slot b) := by
  have hservers : ∀ c, (Planning.turnList db now master slot b).servers c = if c = b then
      turn (fun s => serverConsidered db now master slot s .first) (db.servers b) else db.servers c :=
    fun c => Function.update_apply _ _ _ c
  refine ⟨⟨rfl, rfl, rfl, rfl, fun c => ?_⟩, fun c hc => ?_, fun c => ?_, fun _ c hc => ?_⟩
  · rw [hservers]
    split_ifs with hc
    · rw [hc]
      exact turn_perm
    · rfl
  · rw [hservers, if_neg (List.mem_singleton.not.mp hc)]
  · rw [hservers]
    split_ifs with hc
    · rw [hc]
      exact Or.inr ⟨hlist, rfl⟩
    · exact Or.inl rfl
  · rw [List.mem_singleton.mp (List.mem_of_find?_eq_some hc), hservers, if_pos rfl]

theorem Turned.unlisted (db : Db) (remaining : ℕ) (h : listed db now master slot .first b = [] ∨ remaining = 0) :
    Turned now master slot remaining [b] db db := by
  refine ⟨.refl db, fun _ _ => rfl, fun _ => Or.inl rfl, fun hr c hc => ?_⟩
  have hlisted := List.find?_some hc
  rw [List.mem_singleton.mp (List.mem_of_find?_eq_some hc), decide_eq_true_eq] at hlisted
  exact absurd (h.resolve_right hr) hlisted

theorem Turned.listed_of_not_mem {db db' : Db} {remaining : ℕ} {bs : List Bucket}
    (h : Turned now master slot remaining bs db db') (hb : b ∉ bs) (round : Round) :
    listed db' now master slot round b = listed db now master slot round b := by
  simp only [listed, serverConsidered_rotated h.rotated, h.others b hb]

theorem Turned.listed_later {db db' : Db} {remaining : ℕ} {bs : List Bucket}
    (h : Turned now master slot remaining bs db db')
    (hdisjoint : ∀ s ∈ listed db now master slot .first b, ¬ serverConsidered db now master slot s round = true) :
    listed db' now master slot round b = listed db now master slot round b := by
  simp only [listed, serverConsidered_rotated h.rotated]
  split_ifs
  · rcases h.turned b with he | ⟨hlist, he⟩
    · rw [he]
    · rw [he]
      apply filter_turn_of_disjoint
      intro s hs hfirst
      apply hdisjoint
      rw [listed_of_considered db hlist]
      exact List.mem_filter.mpr ⟨hs, hfirst⟩
  · rfl

theorem Turned.listed_rest {db db' : Db} {remaining : ℕ} {bs : List Bucket}
    (h : Turned now master slot remaining [b] db db') (hb : b ∉ bs) :
    ∀ c ∈ bs, listed db' now master slot .first c = listed db now master slot .first c := by
  intro c hc
  apply h.listed_of_not_mem
  rw [List.mem_singleton]
  rintro rfl
  exact hb hc

theorem Turned.cons {db db' db'' : Db} {remaining : ℕ} {bs : List Bucket}
    (h : Turned now master slot remaining [b] db db')
    (h' : Turned now master slot (remaining - (listed db now master slot .first b).length) bs db' db'') (hb : b ∉ bs) :
    Turned now master slot remaining (b :: bs) db db'' := by
  have hkept : ∀ c, c ≠ b → db'.servers c = db.servers c := fun c hc => h.others c (List.mem_singleton.not.mpr hc)
  refine ⟨h.rotated.trans h'.rotated, fun c hc => ?_, fun c => ?_, fun hr c hc => ?_⟩
  · rw [List.mem_cons, not_or] at hc
    rw [h'.others c hc.2, hkept c hc.1]
  · by_cases hc : c = b
    · rw [h'.others c (hc ▸ hb)]
      exact h.turned c
    · have hturned := h'.turned c
      simp only [serverConsidered_rotated h.rotated, hkept c hc] at hturned
      exact hturned
  · by_cases hlisted : listed db now master slot .first b = []
    · rw [firstList, List.find?_cons_of_neg (by simpa using hlisted)] at hc
      have hmem := List.mem_of_find?_eq_some hc
      have hne : c ≠ b := fun he => hb (he ▸ hmem)
      have hfirst : firstList db' now master slot bs = some c := by
        rw [firstList, ← hc, ← List.head?_filter, ← List.head?_filter]
        congr 1
        apply List.filter_congr
        intro d hd
        rw [h.listed_rest hb d hd]
      have hserved := h'.served (by rw [hlisted]; exact hr) c hfirst
      simp only [serverConsidered_rotated h.rotated, hkept c hne] at hserved
      exact hserved
    · rw [firstList, List.find?_cons_of_pos (by simpa using hlisted), Option.some.injEq] at hc
      rw [← hc, h'.others b hb]
      apply h.served hr
      rw [firstList, List.find?_cons_of_pos (by simpa using hlisted)]

theorem visitList_first (ho : scan.overflow = false)
    (hw : pointerSize ≤ freeWs ∨ listed scan.db now master slot .first b = []) :
    ∃ db, visitList now master slot freeWs .first scan b =
        { scan.take (listed scan.db now master slot .first b) with db := db } ∧
      Turned now master slot scan.remaining [b] scan.db db := by
  by_cases hlist : listConsidered master b.2 .first = true
  · by_cases hr : scan.remaining = 0
    · refine ⟨scan.db, ?_, .unlisted _ _ (Or.inr hr)⟩
      rw [visitList_of_full hr, ServerScan.take_of_full hr]
    · refine ⟨_, visitList_eq_of_open ho hr hlist hw, ?_⟩
      rw [if_pos rfl]
      exact .turnList scan.db _ hlist
  · have hnil : listed scan.db now master slot .first b = [] := by rw [listed, if_neg hlist]
    refine ⟨scan.db, ?_, .unlisted _ _ (Or.inl hnil)⟩
    rw [visitList_of_unlisted hlist, hnil, ServerScan.take_nil]

theorem foldl_later (ho : scan.overflow = false) (hround : round ≠ .first) (bs : List Bucket)
    (hw : pointerSize ≤ freeWs ∨ ∀ b ∈ bs, listed scan.db now master slot round b = []) :
    bs.foldl (visitList now master slot freeWs round) scan =
      scan.take (bs.flatMap (listed scan.db now master slot round)) := by
  induction bs generalizing scan with
  | nil => exact scan.take_nil.symm
  | cons b bs ih =>
    have hhead := visitList_later ho hround (hw.imp_right fun h => h b List.mem_cons_self)
    rw [List.foldl_cons, hhead, ih (show (scan.take _).overflow = false from ho)
      (hw.imp_right fun h c hc => h c (List.mem_cons_of_mem b hc)), ServerScan.take_take, List.flatMap_cons]
    rfl

theorem foldl_first (ho : scan.overflow = false) (bs : List Bucket) (hbs : bs.Nodup)
    (hw : pointerSize ≤ freeWs ∨ ∀ b ∈ bs, listed scan.db now master slot .first b = []) :
    ∃ db, bs.foldl (visitList now master slot freeWs .first) scan =
        { scan.take (bs.flatMap (listed scan.db now master slot .first)) with db := db } ∧
      Turned now master slot scan.remaining bs scan.db db := by
  induction bs generalizing scan with
  | nil =>
    refine ⟨scan.db, by rw [List.flatMap_nil, ServerScan.take_nil]; rfl, .refl _, fun _ _ => rfl, fun _ => Or.inl rfl, ?_⟩
    intro _ b hb
    cases hb
  | cons b bs ih =>
    obtain ⟨hb, hbs⟩ := List.nodup_cons.mp hbs
    obtain ⟨db, hvisit, hturned⟩ := visitList_first ho (hw.imp_right fun h => h b List.mem_cons_self)
    have hlisted := hturned.listed_rest hb
    have ho' : { scan.take (listed scan.db now master slot .first b) with db := db }.overflow = false := ho
    obtain ⟨db', hrest, hturned'⟩ := ih ho' hbs
      (hw.imp_right fun h c hc => (hlisted c hc).trans (h c (List.mem_cons_of_mem b hc)))
    refine ⟨db', ?_, hturned.cons hturned' hb⟩
    rw [List.foldl_cons, hvisit, hrest, List.flatMap_cons, ← ServerScan.take_take]
    simp only [ServerScan.take, List.flatMap_def, List.map_congr_left hlisted]

theorem visitLists_later (ho : scan.overflow = false) (hround : round ≠ .first)
    (hw : pointerSize ≤ freeWs ∨ roundOrder scan.db now master slot round = []) :
    visitLists now master slot freeWs scan round = scan.take (roundOrder scan.db now master slot round) :=
  foldl_later ho hround buckets (hw.imp_right List.flatMap_eq_nil_iff.mp)

theorem visitLists_turned {db db' : Db}
    (hlater : roundOrder db' now master slot round = roundOrder db now master slot round) (hdb : scan.db = db')
    (ho : scan.overflow = false) (hround : round ≠ .first)
    (hw : pointerSize ≤ freeWs ∨ roundOrder db now master slot round = []) :
    visitLists now master slot freeWs scan round = scan.take (roundOrder db now master slot round) := by
  have horder : roundOrder scan.db now master slot round = roundOrder db now master slot round := by rw [hdb, hlater]
  rw [visitLists_later ho hround (hw.imp_right horder.trans), horder]

theorem visitLists_first (scan : ServerScan) (ho : scan.overflow = false)
    (hw : pointerSize ≤ freeWs ∨ roundOrder scan.db now master slot .first = []) :
    ∃ db, visitLists now master slot freeWs scan .first =
        { scan.take (roundOrder scan.db now master slot .first) with db := db } ∧
      Turned now master slot scan.remaining buckets scan.db db :=
  foldl_first ho buckets buckets_nodup (hw.imp_right List.flatMap_eq_nil_iff.mp)

theorem Turned.roundOrder_later {db db' : Db} {remaining : ℕ} (h : Turned now master slot remaining buckets db db')
    (hdisjoint : ∀ b, ∀ s ∈ listed db now master slot .first b, ¬ serverConsidered db now master slot s round = true) :
    roundOrder db' now master slot round = roundOrder db now master slot round := by
  have hlisted : ∀ b ∈ buckets, listed db' now master slot round b = listed db now master slot round b :=
    fun b _ => h.listed_later (hdisjoint b)
  rw [roundOrder, roundOrder, List.flatMap_def, List.flatMap_def, List.map_congr_left hlisted]

theorem listed_eq {db : Db} (hplaced : Buckets.Placed (fun s => (db.server s).bucket) db.servers) (b : Bucket) :
    listed db now master slot round b = (db.servers b).filter fun s =>
      listConsidered master (db.server s).role round && serverConsidered db now master slot s round := by
  have hrole : ∀ s ∈ db.servers b, listConsidered master (db.server s).role round = listConsidered master b.2 round := by
    intro s hs
    rw [← hplaced.key_eq b s hs]
    rfl
  rw [listed]
  split_ifs with hlist
  · apply List.filter_congr
    intro s hs
    rw [hrole s hs, hlist, Bool.true_and]
  · symm
    rw [List.filter_eq_nil_iff]
    intro s hs
    rw [hrole s hs]
    simp [hlist]

theorem roundOrder_eq {db : Db} (hplaced : Buckets.Placed (fun s => (db.server s).bucket) db.servers)
    (wanted : ServerId → Bool)
    (h : ∀ s, (listConsidered master (db.server s).role round && serverConsidered db now master slot s round) =
      wanted s) : roundOrder db now master slot round = db.allServers.filter wanted := by
  have hlisted : listed db now master slot round = fun b => (db.servers b).filter wanted := by
    funext b
    simp only [listed_eq hplaced, h]
  rw [roundOrder, hlisted, Db.allServers, List.filter_flatMap]

theorem considered_first (db : Db) (s : ServerId) : (listConsidered master (db.server s).role .first &&
    serverConsidered db now master slot s .first) = preferred db now master slot s := by
  simp only [listConsidered, serverConsidered, preferred]
  rw [Bool.and_comm]

theorem considered_second {db : Db} (hcluster : db.clusterEnabled = false) (s : ServerId) :
    (listConsidered master (db.server s).role .second && serverConsidered db now master slot s .second) =
      reserve db now master s := by
  cases hrole : (db.server s).role <;> cases master <;>
    simp [listConsidered, serverConsidered, reserve, ownsSlot, hcluster, hrole]

theorem not_second_of_first {db : Db} {s : ServerId} (h : (listConsidered master (db.server s).role .first &&
    serverConsidered db now master slot s .first) = true) : ¬ serverConsidered db now master slot s .second = true := by
  simp only [listConsidered, serverConsidered, Bool.and_eq_true, Bool.or_eq_true] at h ⊢
  obtain ⟨hrole, -, hhealthy⟩ := h
  rintro ⟨-, ⟨hmaster, htbd⟩ | hsick⟩
  · cases hr : (db.server s).role <;> simp_all
  · simp [hhealthy] at hsick

theorem serversOf_standalone {db : Db} {remaining : ℕ} (hcluster : db.clusterEnabled = false)
    (hplaced : Buckets.Placed (fun s => (db.server s).bucket) db.servers)
    (hw : pointerSize ≤ freeWs ∨ planOrder db now master slot = []) :
    ∃ db', serversOf now master slot freeWs remaining db = { (⟨[], remaining, db, false⟩ : ServerScan).take
        (planOrder db now master slot) with db := db' } ∧ Turned now master slot remaining buckets db db' := by
  have hfirst : roundOrder db now master slot .first = db.allServers.filter (preferred db now master slot) :=
    roundOrder_eq hplaced _ (considered_first db)
  have hsecond : roundOrder db now master slot .second = db.allServers.filter (reserve db now master) :=
    roundOrder_eq hplaced _ (considered_second hcluster)
  have horder : planOrder db now master slot =
      roundOrder db now master slot .first ++ roundOrder db now master slot .second := by
    rw [planOrder, hcluster, hfirst, hsecond]
    rfl
  rw [horder, List.append_eq_nil_iff] at hw
  obtain ⟨db', hvisit, hturned⟩ := visitLists_first ⟨[], remaining, db, false⟩ rfl (hw.imp_right And.left)
  have hlater : roundOrder db' now master slot .second = roundOrder db now master slot .second := by
    apply hturned.roundOrder_later
    intro b s hs
    rw [listed_eq hplaced] at hs
    exact not_second_of_first (List.mem_filter.mp hs).2
  refine ⟨db', ?_, hturned⟩
  rw [serversOf, hcluster]
  dsimp only
  rw [if_neg Bool.false_ne_true, List.foldl_cons, hvisit, List.foldl_cons, List.foldl_nil,
    visitLists_turned hlater (by rfl) (by rfl) (by decide) (hw.imp_right And.right), horder, ← ServerScan.take_take]
  rfl

theorem serversOf_clustered {db : Db} {remaining : ℕ} (hcluster : db.clusterEnabled = true)
    (hplaced : Buckets.Placed (fun s => (db.server s).bucket) db.servers) (hr : remaining ≠ 0)
    (hw : pointerSize ≤ freeWs ∨ planOrder db now master slot = []) :
    ∃ db', serversOf now master slot freeWs remaining db = { (⟨[], remaining, db, false⟩ : ServerScan).take
        (planOrder db now master slot) with db := db' } ∧ Turned now master slot remaining buckets db db' := by
  have hfirst : roundOrder db now master slot .first = db.allServers.filter (preferred db now master slot) :=
    roundOrder_eq hplaced _ (considered_first db)
  have hthird : roundOrder db now master slot .third = db.allServers.filter (healthy db now) :=
    roundOrder_eq hplaced _ fun s => rfl
  have hfourth : roundOrder db now master slot .fourth = db.allServers.filter fun s => !healthy db now s :=
    roundOrder_eq hplaced _ fun s => rfl
  have horder : planOrder db now master slot = if roundOrder db now master slot .first = [] then
      roundOrder db now master slot .third ++ roundOrder db now master slot .fourth
      else roundOrder db now master slot .first := by
    rw [planOrder, hcluster, hfirst, hthird, hfourth]
    rfl
  have hwfirst : pointerSize ≤ freeWs ∨ roundOrder db now master slot .first = [] := by
    refine hw.imp_right fun h => ?_
    by_contra hne
    rw [horder, if_neg hne] at h
    exact hne h
  obtain ⟨db', hvisit, hturned⟩ := visitLists_first ⟨[], remaining, db, false⟩ rfl hwfirst
  refine ⟨db', ?_, hturned⟩
  rw [serversOf, hcluster]
  dsimp only
  rw [if_pos rfl, List.foldl_cons, List.foldl_nil, hvisit]
  by_cases hnil : roundOrder db now master slot .first = []
  · rw [if_pos hnil] at horder
    rw [horder, List.append_eq_nil_iff] at hw
    have hlater : ∀ round, roundOrder db' now master slot round = roundOrder db now master slot round := by
      intro round
      apply hturned.roundOrder_later
      intro b s hs
      rw [List.flatMap_eq_nil_iff.mp hnil b (mem_buckets b)] at hs
      exact absurd hs List.not_mem_nil
    rw [hnil, ServerScan.take_nil, if_pos (by rfl), List.foldl_cons,
      visitLists_turned (hlater .third) (by rfl) (by rfl) (by decide) (hw.imp_right And.left), List.foldl_cons,
      List.foldl_nil, visitLists_turned (hlater .fourth) (by rfl) (by rfl) (by decide) (hw.imp_right And.right), horder,
      ← ServerScan.take_take]
    rfl
  · rw [horder, if_neg hnil, if_neg]
    simpa [ServerScan.take] using ⟨hr, hnil⟩

theorem serversOf_eq {db : Db} {remaining : ℕ} (hplaced : Buckets.Placed (fun s => (db.server s).bucket) db.servers)
    (hr : remaining ≠ 0) (hw : pointerSize ≤ freeWs ∨ planOrder db now master slot = []) :
    ∃ db', serversOf now master slot freeWs remaining db = { (⟨[], remaining, db, false⟩ : ServerScan).take
        (planOrder db now master slot) with db := db' } ∧ Turned now master slot remaining buckets db db' := by
  cases hcluster : db.clusterEnabled with
  | false => exact serversOf_standalone hcluster hplaced hw
  | true => exact serversOf_clustered hcluster hplaced hr hw

end

theorem contextsOf_of_shared {db : Db} (hshared : db.sharedConnections = true) (suitable : ContextId → Bool)
    (input : PlanInput) (heap : Heap) (maxSize : ℕ) (task : Task) :
    contextsOf suitable input heap maxSize task db = ⟨[], task.contexts, task.ncontexts, db, false⟩ :=
  if_pos hshared

theorem populateExecutionPlan_eq {input : PlanInput} (heap : Heap) {maxSize : ℕ} {master : Bool} {slot : ℕ} (task : Task)
    {db : Db} (hplaced : Buckets.Placed (fun s => (db.server s).bucket) db.servers)
    (hshared : db.sharedConnections = true) (hsize : 1 ≤ maxSize)
    (hroom : pointerSize * min maxSize (planOrder db input.probe.now master slot).length ≤ input.serversWs) :
    ∃ db', populateExecutionPlan input heap maxSize master slot task db =
        .ok (⟨[], 0, (planOrder db input.probe.now master slot).take maxSize, 0⟩, task, db') ∧
      Turned input.probe.now master slot maxSize buckets db db' := by
  have hw : pointerSize ≤ input.serversWs ∨ planOrder db input.probe.now master slot = [] := by
    cases horder : planOrder db input.probe.now master slot with
    | nil => exact Or.inr rfl
    | cons s rest =>
      left
      refine (Nat.le_mul_of_pos_right pointerSize ?_).trans hroom
      rw [horder, List.length_cons]
      omega
  obtain ⟨db', hservers, hturned⟩ := serversOf_eq hplaced (show maxSize ≠ 0 by omega) hw
  refine ⟨db', ?_, hturned⟩
  rw [populateExecutionPlan, contextsOf_of_shared hshared]
  dsimp only
  rw [if_neg Bool.false_ne_true, List.length_nil, if_neg (by omega), if_pos (by omega), Nat.sub_zero, hservers]
  rw [if_neg]
  · rfl
  · simpa [ServerScan.take, List.length_take] using hroom

section

variable {db : Db} {now : ℤ} {master : Bool} {slot : ℕ}

theorem mem_filter_allServers {wanted : ServerId → Bool} {s : ServerId} :
    s ∈ db.allServers.filter wanted ↔ db.Registered s ∧ wanted s = true := by
  rw [List.mem_filter, Db.mem_allServers]

theorem preferred_eq_nil_iff : db.allServers.filter (preferred db now master slot) = [] ↔
    ¬ ∃ t, db.Registered t ∧ preferred db now master slot t = true := by
  simp only [List.filter_eq_nil_iff, Db.mem_allServers, not_exists, not_and]

theorem preferred_or_reserve (hcluster : db.clusterEnabled = false) (s : ServerId) :
    preferred db now master slot s = true ∨ reserve db now master s = true ↔
      (master = true → (db.server s).role ≠ .slave) := by
  cases hrole : (db.server s).role <;> cases hhealthy : healthy db now s <;> cases master <;>
    simp [preferred, reserve, ownsSlot, hcluster, hrole, hhealthy]

theorem not_reserve_of_preferred {s : ServerId} (h : preferred db now master slot s = true) :
    ¬ reserve db now master s = true := by
  cases hrole : (db.server s).role <;> cases hhealthy : healthy db now s <;> cases master <;>
    simp_all [preferred, reserve]

def Eligible (db : Db) (now : ℤ) (master : Bool) (slot : ℕ) (s : ServerId) : Prop :=
  db.Registered s ∧
    if db.clusterEnabled then
      (∃ t, db.Registered t ∧ preferred db now master slot t = true) → preferred db now master slot s = true
    else master = true → (db.server s).role ≠ .slave

theorem mem_planOrder (s : ServerId) : s ∈ planOrder db now master slot ↔ Eligible db now master slot s := by
  unfold planOrder Eligible
  cases hcluster : db.clusterEnabled with
  | false =>
    simp only [Bool.false_eq_true, ↓reduceIte]
    rw [List.mem_append, mem_filter_allServers, mem_filter_allServers, ← and_or_left, preferred_or_reserve hcluster]
  | true =>
    simp only [↓reduceIte]
    split_ifs with hnil
    · have hnone := preferred_eq_nil_iff.mp hnil
      rw [List.mem_append, mem_filter_allServers, mem_filter_allServers, ← and_or_left]
      cases healthy db now s <;> simp [hnone]
    · have hsome := not_not.mp (preferred_eq_nil_iff.not.mp hnil)
      rw [mem_filter_allServers]
      exact and_congr_right fun _ => ⟨fun h _ => h, fun h => h hsome⟩

theorem planOrder_nodup (hplaced : Buckets.Placed (fun s => (db.server s).bucket) db.servers) :
    (planOrder db now master slot).Nodup := by
  have hall : db.allServers.Nodup := hplaced.flatMap_nodup buckets_nodup
  have happend : ∀ p q : ServerId → Bool, (∀ s, p s = true → ¬ q s = true) →
      (db.allServers.filter p ++ db.allServers.filter q).Nodup := by
    intro p q hpq
    refine List.nodup_append'.mpr ⟨hall.filter p, hall.filter q, ?_⟩
    intro s hs hs'
    exact hpq s (List.mem_filter.mp hs).2 (List.mem_filter.mp hs').2
  unfold planOrder
  dsimp only
  split_ifs
  · exact happend _ _ fun s hs => by simp [hs]
  · exact hall.filter _
  · exact happend _ _ fun s => not_reserve_of_preferred

end

/-- A plan is the beginning of one duplicate-free order of the eligible servers. -/
theorem populateExecutionPlan_order (input : PlanInput) (heap : Heap) (maxSize : ℕ) (master : Bool) (slot : ℕ)
    (task : Task) (db : Db) (hplaced : Buckets.Placed (fun s => (db.server s).bucket) db.servers)
    (hshared : db.sharedConnections = true) (hsize : 1 ≤ maxSize)
    (hroom : pointerSize * min maxSize (planOrder db input.probe.now master slot).length ≤ input.serversWs) :
    (planOrder db input.probe.now master slot).Nodup ∧
      ∃ plan db', populateExecutionPlan input heap maxSize master slot task db = .ok (plan, task, db') ∧
        plan.contexts = [] ∧ plan.servers = (planOrder db input.probe.now master slot).take maxSize ∧
        (plan.servers.length < maxSize → ∀ s, s ∈ plan.servers ↔ Eligible db input.probe.now master slot s) ∧
        (db.clusterEnabled = false → master = true → ∀ s ∈ plan.servers, (db.server s).role ≠ .slave) := by
  obtain ⟨db', hplan, -⟩ := populateExecutionPlan_eq heap task hplaced hshared hsize hroom
  refine ⟨planOrder_nodup hplaced, _, db', hplan, rfl, rfl, ?_, ?_⟩
  · intro hshort s
    dsimp only at hshort ⊢
    rw [List.length_take] at hshort
    rw [List.take_of_length_le (by omega), mem_planOrder]
  · intro hcluster hmaster s hs
    have heligible := (mem_planOrder s).mp (List.mem_of_mem_take hs)
    have hrole := heligible.2
    rw [hcluster, if_neg Bool.false_ne_true] at hrole
    exact hrole hmaster

def addServers (db : Db) (servers : List (Bytes × Role)) : Db :=
  servers.foldl (fun db server => (unsafeAddRedisServer ⟨⟨0, false, none⟩, 0⟩ [] server.1 server.2 db).2) db

theorem addServers_wellPlaced (servers : List (Bytes × Role)) {db : Db} (h : WellPlaced db) :
    WellPlaced (addServers db servers) := by
  induction servers generalizing db with
  | nil => exact h
  | cons server servers ih => exact ih (unsafeAddRedisServer_wellPlaced h _ _ _ _)

def replicated : Db :=
  addServers (newVmodRedisDb ⟨0, 0, 0, true, 1, .off, 0, false, false, 0⟩)
    [(bytes "10.0.0.1:6379", .master), (bytes "10.0.0.2:6379", .slave), (bytes "10.0.0.3:6379", .slave)]

theorem replicated_placed : Buckets.Placed (fun s => (replicated.server s).bucket) replicated.servers :=
  (addServers_wellPlaced _ (newVmodRedisDb_wellPlaced _)).placed

def roomy : PlanInput := ⟨true, ⟨0, fun _ => 0, fun _ => false⟩, 0, 16⟩

theorem replicated_order : planOrder replicated roomy.probe.now false 0 = [1, 2, 0] := by decide +kernel

theorem replicated_room : pointerSize * min 2 (planOrder replicated roomy.probe.now false 0).length ≤
    roomy.serversWs := by
  rw [replicated_order]
  decide

theorem populateExecutionPlan_order_replicated :
    ∃ plan db', populateExecutionPlan roomy (fun _ => ⟨0, 0, false, 0, 0⟩) 2 false 0 ⟨0, []⟩ replicated =
      .ok (plan, ⟨0, []⟩, db') ∧ plan.servers = (planOrder replicated roomy.probe.now false 0).take 2 := by
  obtain ⟨-, plan, db', hplan, -, hservers, -⟩ := populateExecutionPlan_order roomy (fun _ => ⟨0, 0, false, 0, 0⟩) 2 false
    0 ⟨0, []⟩ replicated replicated_placed (by decide +kernel) (by decide) replicated_room
  exact ⟨plan, db', hplan, hservers⟩

end VmodRedis.Planning
