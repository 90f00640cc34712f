import VmodRedis.Planning

namespace VmodRedis.Planning

open CStrings Database Connections Registry

/-- Validity checks do nothing but count the contexts that they reject. -/
structure CountsOnly (db db' : Db) : Prop where
  same : SameRegistry db db'
  server : db'.server = db.server

namespace CountsOnly

variable {db db' db'' : Db}

theorem refl (db : Db) : CountsOnly db db := ⟨.refl db, rfl⟩

theorem trans (h : CountsOnly db db') (h' : CountsOnly db' db'') : CountsOnly db db'' :=
  ⟨h.same.trans h'.same, h'.server.trans h.server⟩

theorem check (p : Probe) (heap : Heap) (db : Db) (c : ContextId) :
    CountsOnly db (isValidRedisContext p heap db c).2 := by
  refine ⟨isValidRedisContext_same p heap db c, ?_⟩
  unfold isValidRedisContext
  cases rejection p heap db c <;> rfl

theorem accepted (h : CountsOnly db db') (p : Probe) (heap : Heap) (c : ContextId) :
    Accepted p heap db' c ↔ Accepted p heap db c := by
  have httl : db'.connectionTtl = db.connectionTtl := congrArg Options.connectionTtl h.same.options
  have hsick : db'.sicknessTtl = db.sicknessTtl := congrArg Options.sicknessTtl h.same.options
  simp only [Accepted, rejection, httl, hsick, h.server]

end CountsOnly

def usable (suitable : ContextId → Bool) (p : Probe) (heap : Heap) (db : Db) (contexts : List ContextId) :
    List ContextId :=
  contexts.filter fun c => suitable c && decide (Accepted p heap db c)

theorem usable_counts {db db' : Db} (h : CountsOnly db db') (suitable : ContextId → Bool) (p : Probe)
    (heap : Heap) (contexts : List ContextId) :
    usable suitable p heap db' contexts = usable suitable p heap db contexts := by
  simp only [usable, h.accepted]

/-- Of the contexts scanned, only suitable ones that the validity check rejects are dropped. -/
structure Kept (suitable : ContextId → Bool) (p : Probe) (heap : Heap) (db : Db)
    (contexts kept : List ContextId) : Prop where
  sublist : kept.Sublist contexts
  dropped : ∀ c ∈ contexts, c ∉ kept → suitable c = true ∧ ¬ Accepted p heap db c

section

variable {suitable : ContextId → Bool} {p : Probe} {heap : Heap} {db db' : Db}
  {contexts kept : List ContextId} {c : ContextId}

theorem Kept.all (contexts : List ContextId) : Kept suitable p heap db contexts contexts :=
  ⟨.refl _, fun _ hc hn => absurd hc hn⟩

theorem Kept.keep (h : Kept suitable p heap db contexts kept) :
    Kept suitable p heap db (c :: contexts) (c :: kept) where
  sublist := h.sublist.cons_cons c
  dropped d hd hn := by
    simp only [List.mem_cons, not_or] at hd hn
    exact h.dropped d (hd.resolve_left hn.1) hn.2

theorem Kept.drop (h : Kept suitable p heap db contexts kept) (hs : suitable c = true)
    (ha : ¬ Accepted p heap db c) : Kept suitable p heap db (c :: contexts) kept where
  sublist := h.sublist.cons c
  dropped d hd hn := by
    rcases List.mem_cons.mp hd with rfl | hd
    · exact ⟨hs, ha⟩
    · exact h.dropped d hd hn

theorem Kept.counts (hc : CountsOnly db db') (h : Kept suitable p heap db' contexts kept) :
    Kept suitable p heap db contexts kept :=
  ⟨h.sublist, fun c hm hn => by rw [← hc.accepted]; exact h.dropped c hm hn⟩

end

structure Scanned (suitable : ContextId → Bool) (p : Probe) (heap : Heap) (maxSize freeWs : ℕ)
    (contexts : List ContextId) (scan r : ContextScan) : Prop where
  counts : CountsOnly scan.db r.db
  kept : ∃ kept, r.kept = scan.kept ++ kept ∧ Kept suitable p heap scan.db contexts kept ∧
    r.ncontexts = scan.ncontexts - (contexts.length - kept.length)
  planned : r.planned = scan.planned ++
    if freeWs < pointerSize then []
    else if maxSize = 0 then usable suitable p heap scan.db contexts
    else (usable suitable p heap scan.db contexts).take (maxSize - scan.planned.length)
  overflow : r.overflow = true ↔ freeWs < pointerSize ∧ usable suitable p heap scan.db contexts ≠ []

section

variable {suitable : ContextId → Bool} {p : Probe} {heap : Heap} {maxSize freeWs : ℕ} {contexts : List ContextId}
  {scan r : ContextScan} {c : ContextId}

theorem usable_cons_of_accepted {db : Db} (hs : suitable c = true) (ha : Accepted p heap db c) :
    usable suitable p heap db (c :: contexts) = c :: usable suitable p heap db contexts := by
  simp [usable, hs, ha]

theorem usable_cons_of_rejected {db : Db} (h : suitable c = true → ¬ Accepted p heap db c) :
    usable suitable p heap db (c :: contexts) = usable suitable p heap db contexts := by
  unfold usable
  apply List.filter_cons_of_neg
  simp only [Bool.and_eq_true, decide_eq_true_eq, not_and]
  exact h

theorem Scanned.nil (ho : scan.overflow = false) : Scanned suitable p heap maxSize freeWs [] scan scan := by
  refine ⟨.refl _, ⟨[], by simp, .all [], by simp⟩, ?_, ?_⟩
  · simp [usable]
  · simp [usable, ho]

theorem Scanned.skip (hs : suitable c ≠ true)
    (h : Scanned suitable p heap maxSize freeWs contexts { scan with kept := scan.kept ++ [c] } r) :
    Scanned suitable p heap maxSize freeWs (c :: contexts) scan r := by
  have huse : usable suitable p heap scan.db (c :: contexts) = usable suitable p heap scan.db contexts :=
    usable_cons_of_rejected fun hc => absurd hc hs
  obtain ⟨hcounts, ⟨kept, hkept, hdropped, hn⟩, hplanned, hover⟩ := h
  refine ⟨hcounts, ⟨c :: kept, ?_, hdropped.keep, ?_⟩, ?_, ?_⟩
  · rw [hkept, List.append_assoc, List.singleton_append]
  · rw [hn, List.length_cons, List.length_cons, Nat.add_sub_add_right]
  · rw [hplanned, huse]
  · rw [hover, huse]

theorem Scanned.drop (hs : suitable c = true) (ha : ¬ Accepted p heap scan.db c)
    (h : Scanned suitable p heap maxSize freeWs contexts
      { scan with ncontexts := scan.ncontexts - 1, db := (isValidRedisContext p heap scan.db c).2 } r) :
    Scanned suitable p heap maxSize freeWs (c :: contexts) scan r := by
  have hcheck := CountsOnly.check p heap scan.db c
  have huse : usable suitable p heap scan.db (c :: contexts) = usable suitable p heap scan.db contexts :=
    usable_cons_of_rejected fun _ => ha
  obtain ⟨hcounts, ⟨kept, hkept, hdropped, hn⟩, hplanned, hover⟩ := h
  rw [usable_counts hcheck] at hplanned hover
  refine ⟨hcheck.trans hcounts, ⟨kept, hkept, (hdropped.counts hcheck).drop hs ha, ?_⟩, ?_, ?_⟩
  · have hle := hdropped.sublist.length_le
    dsimp only at hn
    rw [hn, List.length_cons]
    omega
  · rw [hplanned, huse]
  · rw [hover, huse]

theorem Scanned.starved (hs : suitable c = true) (ha : Accepted p heap scan.db c) (hws : ¬ pointerSize ≤ freeWs) :
    Scanned suitable p heap maxSize freeWs (c :: contexts) scan { scan with
      kept := scan.kept ++ c :: contexts, db := (isValidRedisContext p heap scan.db c).2, overflow := true } := by
  refine ⟨.check p heap scan.db c, ⟨c :: contexts, rfl, .all _, by simp⟩, ?_, ?_⟩
  · rw [if_pos (not_le.mp hws), List.append_nil]
  · simp [usable_cons_of_accepted hs ha, not_le.mp hws]

theorem Scanned.full (hs : suitable c = true) (ha : Accepted p heap scan.db c) (hws : pointerSize ≤ freeWs)
    (ho : scan.overflow = false) (hfull : (scan.planned ++ [c]).length = maxSize) :
    Scanned suitable p heap maxSize freeWs (c :: contexts) scan { scan with
      planned := scan.planned ++ [c], kept := scan.kept ++ [c] ++ contexts
      db := (isValidRedisContext p heap scan.db c).2 } := by
  rw [List.length_append, List.length_singleton] at hfull
  have hm : maxSize - scan.planned.length = 1 := by omega
  have hm0 : maxSize ≠ 0 := by omega
  refine ⟨.check p heap scan.db c, ⟨c :: contexts, by simp, .all _, by simp⟩, ?_, ?_⟩
  · rw [if_neg (not_lt.mpr hws), if_neg hm0, hm, usable_cons_of_accepted hs ha, List.take_succ_cons, List.take_zero]
  · simp [ho, not_lt.mpr hws]

theorem Scanned.plan (hs : suitable c = true) (ha : Accepted p heap scan.db c) (hws : pointerSize ≤ freeWs)
    (hn : maxSize ≠ 0 → scan.planned.length < maxSize)
    (h : Scanned suitable p heap maxSize freeWs contexts { scan with
      planned := scan.planned ++ [c], kept := scan.kept ++ [c]
      db := (isValidRedisContext p heap scan.db c).2 } r) :
    Scanned suitable p heap maxSize freeWs (c :: contexts) scan r := by
  have hcheck := CountsOnly.check p heap scan.db c
  obtain ⟨hcounts, ⟨kept, hkept, hdropped, hnumber⟩, hplanned, hover⟩ := h
  rw [usable_counts hcheck] at hplanned hover
  refine ⟨hcheck.trans hcounts, ⟨c :: kept, ?_, (hdropped.counts hcheck).keep, ?_⟩, ?_, ?_⟩
  · rw [hkept, List.append_assoc, List.singleton_append]
  · rw [hnumber, List.length_cons, List.length_cons, Nat.add_sub_add_right]
  · rw [hplanned, if_neg (not_lt.mpr hws), if_neg (not_lt.mpr hws), usable_cons_of_accepted hs ha, List.append_assoc,
      List.length_append, List.length_singleton]
    congr 1
    split_ifs with hm
    · rfl
    · have hlt := hn hm
      rw [show maxSize - scan.planned.length = maxSize - (scan.planned.length + 1) + 1 by omega, List.take_succ_cons]
      rfl
  · rw [hover]
    simp [not_lt.mpr hws]

end

theorem scanContexts_spec (suitable : ContextId → Bool) (p : Probe) (heap : Heap) (maxSize freeWs : ℕ)
    (contexts : List ContextId) (scan : ContextScan) (ho : scan.overflow = false)
    (hn : maxSize ≠ 0 → scan.planned.length < maxSize) :
    Scanned suitable p heap maxSize freeWs contexts scan
      (scanContexts suitable p heap maxSize freeWs contexts scan) := by
  induction contexts generalizing scan with
  | nil => exact .nil ho
  | cons c contexts ih =>
    have hvalid := isValidRedisContext_iff p heap scan.db c
    unfold scanContexts
    dsimp only
    split_ifs with hs hv hws hfull
    · exact .full hs (hvalid.mp hv) hws ho hfull
    · apply Scanned.plan hs (hvalid.mp hv) hws hn
      refine ih _ ho fun hm => ?_
      have hlt := hn hm
      rw [List.length_append, List.length_singleton] at hfull ⊢
      omega
    · exact .starved hs (hvalid.mp hv) hws
    · apply Scanned.drop hs (hvalid.not.mp hv)
      exact ih _ ho hn
    · apply Scanned.skip hs
      exact ih _ ho hn

structure Rotated (db db' : Db) : Prop where
  options : db'.toOptions = db.toOptions
  server : db'.server = db.server
  nextServer : db'.nextServer = db.nextServer
  stats : db'.stats = db.stats
  servers : ∀ b, (db'.servers b).Perm (db.servers b)

namespace Rotated

variable {db db' db'' : Db}

theorem refl (db : Db) : Rotated db db := ⟨rfl, rfl, rfl, rfl, fun _ => .refl _⟩

theorem trans (h : Rotated db db') (h' : Rotated db' db'') : Rotated db db'' where
  options := h'.options.trans h.options
  server := h'.server.trans h.server
  nextServer := h'.nextServer.trans h.nextServer
  stats := h'.stats.trans h.stats
  servers b := (h'.servers b).trans (h.servers b)

theorem moveToTail {b : Bucket} {s : ServerId} (hs : s ∈ db.servers b) : Rotated db { db with
    servers := Function.update db.servers b (Buckets.moveToTail s (db.servers b)) } := by
  refine ⟨rfl, rfl, rfl, rfl, fun c => ?_⟩
  by_cases hc : c = b
  · subst hc
    simpa using Buckets.moveToTail_perm hs
  · simp [hc]

theorem registered (h : Rotated db db') (s : ServerId) : db'.Registered s ↔ db.Registered s :=
  exists_congr fun b => (h.servers b).mem_iff

theorem wellPlaced (h : Rotated db db') (hw : WellPlaced db) : WellPlaced db' := by
  constructor
  case placed =>
    rw [h.server]
    exact hw.placed.perm h.servers
  case allocated =>
    intro s hs
    rw [h.nextServer]
    exact hw.allocated s ((h.registered s).mp hs)
  case raw_injective =>
    intro s t hs ht
    rw [h.server]
    exact hw.raw_injective s t ((h.registered s).mp hs) ((h.registered t).mp ht)
  case raw_cstr =>
    intro s hs
    rw [h.server]
    exact hw.raw_cstr s ((h.registered s).mp hs)
  case total =>
    rw [h.stats, hw.total]
    exact (List.Perm.flatMap_left buckets fun b _ => h.servers b).length_eq.symm
  case hosts =>
    intro hc s hs
    rw [h.server]
    exact hw.hosts (by rw [← hc, h.options]) s ((h.registered s).mp hs)

theorem retains (h : Rotated db db') : Retains db db' :=
  ⟨h.options, fun s => (h.registered s).mpr, fun _ _ => by rw [h.server], fun _ _ => by rw [h.server],
    fun _ _ => by rw [h.server]⟩

end Rotated

structure Chosen (P : ServerId → Prop) (freeWs : ℕ) (scan r : ServerScan) : Prop where
  rotated : Rotated scan.db r.db
  added : ∃ added, r.planned = scan.planned ++ added ∧ (∀ s ∈ added, P s) ∧
    r.remaining + added.length = scan.remaining
  starved : freeWs < pointerSize → r.planned = scan.planned
  fits : pointerSize ≤ freeWs → r.overflow = scan.overflow
  found : pointerSize ≤ freeWs → scan.overflow = false → scan.remaining ≠ 0 → (∃ s, P s) → r.planned ≠ []

namespace Chosen

variable {P Q : ServerId → Prop} {freeWs : ℕ} {scan scan' scan'' : ServerScan}

theorem none (h : ∀ s, ¬ P s) (freeWs : ℕ) (scan : ServerScan) : Chosen P freeWs scan scan where
  rotated := .refl _
  added := ⟨[], by simp, by simp, by simp⟩
  starved _ := rfl
  fits _ := rfl
  found _ _ _ hP := absurd hP (not_exists.mpr h)

theorem stopped (h : scan.overflow = true ∨ scan.remaining = 0) : Chosen P freeWs scan scan where
  rotated := .refl _
  added := ⟨[], by simp, by simp, by simp⟩
  starved _ := rfl
  fits _ := rfl
  found _ ho hr _ := by
    rcases h with h | h
    · exact absurd (ho.symm.trans h) (by simp)
    · exact absurd h hr

theorem mono (h : Chosen P freeWs scan scan') (hPQ : ∀ s, P s ↔ Q s) : Chosen Q freeWs scan scan' where
  rotated := h.rotated
  added := by
    obtain ⟨added, ha, hP, hr⟩ := h.added
    exact ⟨added, ha, fun s hs => (hPQ s).mp (hP s hs), hr⟩
  starved := h.starved
  fits := h.fits
  found hw ho hr hQ := h.found hw ho hr ((exists_congr hPQ).mpr hQ)

theorem weaken (h : Chosen P freeWs scan scan') (hPQ : ∀ s, P s → Q s)
    (hne : pointerSize ≤ freeWs → scan'.planned ≠ []) : Chosen Q freeWs scan scan' where
  rotated := h.rotated
  added := by
    obtain ⟨added, ha, hP, hr⟩ := h.added
    exact ⟨added, ha, fun s hs => hPQ s (hP s hs), hr⟩
  starved := h.starved
  fits := h.fits
  found hw _ _ _ := hne hw

theorem rotate (h : Chosen P freeWs scan scan') {db : Db} (hr : Rotated scan'.db db) :
    Chosen P freeWs scan { scan' with db := db } :=
  ⟨h.rotated.trans hr, h.added, h.starved, h.fits, h.found⟩

theorem trans (h : Chosen P freeWs scan scan') (h' : Chosen Q freeWs scan' scan'') :
    Chosen (fun s => P s ∨ Q s) freeWs scan scan'' := by
  obtain ⟨added, ha, hP, hr⟩ := h.added
  obtain ⟨added', ha', hQ, hr'⟩ := h'.added
  constructor
  case rotated => exact h.rotated.trans h'.rotated
  case added =>
    refine ⟨added ++ added', by rw [ha', ha, List.append_assoc], ?_, ?_⟩
    · intro s hs
      exact (List.mem_append.mp hs).imp (hP s) (hQ s)
    · rw [List.length_append]
      omega
  case starved => exact fun hw => (h'.starved hw).trans (h.starved hw)
  case fits => exact fun hw => (h'.fits hw).trans (h.fits hw)
  case found =>
    intro hw ho hrem hPQ
    by_cases hfound : scan'.planned = []
    · have hnone : ¬ ∃ s, P s := fun he => h.found hw ho hrem he hfound
      obtain ⟨s, hs⟩ := hPQ
      have hadded : added = [] := (List.append_eq_nil_iff.mp (ha.symm.trans hfound)).2
      subst hadded
      refine h'.found hw ((h.fits hw).trans ho) ?_ ⟨s, hs.resolve_left fun hp => hnone ⟨s, hp⟩⟩
      rw [List.length_nil, Nat.add_zero] at hr
      rwa [hr]
    · rw [ha']
      intro he
      exact hfound (List.append_eq_nil_iff.mp he).1

end Chosen

theorem scanServers_spec (considered : ServerId → Bool) (freeWs : ℕ) (servers : List ServerId)
    (scan : ServerScan) (hr : scan.remaining ≠ 0) :
    (scanServers considered freeWs servers scan).db = scan.db ∧
      Chosen (fun s => s ∈ servers ∧ considered s = true) freeWs scan
        (scanServers considered freeWs servers scan) := by
  induction servers generalizing scan with
  | nil => exact ⟨rfl, .none (by simp) _ _⟩
  | cons t servers ih =>
    by_cases ht : considered t = true
    · by_cases hws : pointerSize ≤ freeWs
      · let next : ServerScan := { scan with planned := scan.planned ++ [t], remaining := scan.remaining - 1 }
        have hnext : Chosen (fun s => s = t) freeWs scan next := by
          refine ⟨.refl _, ⟨[t], rfl, by simp, ?_⟩, fun hlt => absurd hws (not_le.mpr hlt), fun _ => rfl,
            fun _ _ _ _ => by simp [next]⟩
          simp only [next, List.length_singleton]
          omega
        have hsplit : ∀ s, s = t ∨ (s ∈ servers ∧ considered s = true) ↔
            s ∈ t :: servers ∧ considered s = true := by
          intro s
          rw [List.mem_cons, or_and_right]
          exact or_congr_left (iff_self_and.mpr fun he => he ▸ ht)
        by_cases hfull : scan.remaining - 1 = 0
        · have he : scanServers considered freeWs (t :: servers) scan = next := by
            simp only [scanServers]
            rw [if_pos ht, if_pos hws, if_pos hfull]
          rw [he]
          exact ⟨rfl, (hnext.trans (.stopped (Or.inr hfull))).mono hsplit⟩
        · have he : scanServers considered freeWs (t :: servers) scan =
              scanServers considered freeWs servers next := by
            simp only [scanServers]
            rw [if_pos ht, if_pos hws, if_neg hfull]
          rw [he]
          obtain ⟨hdb, hrest⟩ := ih next hfull
          exact ⟨hdb, (hnext.trans hrest).mono hsplit⟩
      · have he : scanServers considered freeWs (t :: servers) scan = { scan with overflow := true } := by
          simp only [scanServers]
          rw [if_pos ht, if_neg hws]
        rw [he]
        exact ⟨rfl, .refl _, ⟨[], by simp, by simp, by simp⟩, fun _ => rfl, fun hw => absurd hw hws,
          fun hw => absurd hw hws⟩
    · have he : scanServers considered freeWs (t :: servers) scan =
          scanServers considered freeWs servers scan := by
        simp only [scanServers]
        rw [if_neg ht]
      rw [he]
      refine ⟨(ih scan hr).1, (ih scan hr).2.mono fun s => ?_⟩
      constructor
      · exact fun hs => ⟨List.mem_cons_of_mem t hs.1, hs.2⟩
      · rintro ⟨hs, hc⟩
        refine ⟨(List.mem_cons.mp hs).resolve_left ?_, hc⟩
        rintro rfl
        exact ht hc

def InList (db : Db) (now : ℤ) (master : Bool) (slot : ℕ) (round : Round) (b : Bucket) (s : ServerId) : Prop :=
  s ∈ db.servers b ∧ listConsidered master b.2 round = true ∧
    serverConsidered db now master slot s round = true

def Candidate (db : Db) (now : ℤ) (master : Bool) (slot : ℕ) (round : Round) (s : ServerId) : Prop :=
  ∃ b, InList db now master slot round b s

theorem serverConsidered_rotated {db db' : Db} (h : Rotated db db') (now : ℤ) (master : Bool) (slot : ℕ)
    (s : ServerId) (round : Round) :
    serverConsidered db' now master slot s round = serverConsidered db now master slot s round := by
  have hcluster : db'.clusterEnabled = db.clusterEnabled := congrArg Options.clusterEnabled h.options
  cases round <;> simp only [serverConsidered, ownsSlot, healthy, h.server, hcluster]

theorem inList_rotated {db db' : Db} (h : Rotated db db') (now : ℤ) (master : Bool) (slot : ℕ)
    (round : Round) (b : Bucket) (s : ServerId) :
    InList db' now master slot round b s ↔ InList db now master slot round b s := by
  simp only [InList, (h.servers b).mem_iff, serverConsidered_rotated h]

theorem visitList_spec (now : ℤ) (master : Bool) (slot freeWs : ℕ) (round : Round) (scan : ServerScan)
    (b : Bucket) : Chosen (InList scan.db now master slot round b) freeWs scan
      (visitList now master slot freeWs round scan b) := by
  unfold visitList
  by_cases hstop : scan.overflow = true ∨ scan.remaining = 0
  · rw [if_pos (by rcases hstop with h | h <;> simp [h])]
    exact .stopped hstop
  · rw [not_or] at hstop
    by_cases hlist : listConsidered master b.2 round = true
    · rw [if_neg (by simp [hstop.1, hstop.2, hlist])]
      obtain ⟨hdb, hscan⟩ := scanServers_spec
        (fun s => serverConsidered scan.db now master slot s round) freeWs (scan.db.servers b) scan hstop.2
      have hP : ∀ s, s ∈ scan.db.servers b ∧ serverConsidered scan.db now master slot s round = true ↔
          InList scan.db now master slot round b s := fun s => by simp [InList, hlist]
      dsimp only
      split
      · next _ s hs =>
        refine (hscan.mono hP).rotate ?_
        obtain ⟨added, ha, hall, -⟩ := hscan.added
        rw [ha, List.getElem?_append_right (le_refl _), Nat.sub_self] at hs
        rw [hdb]
        exact .moveToTail (hall s (List.mem_of_getElem? hs)).1
      · exact hscan.mono hP
    · rw [if_pos (by simp [hlist])]
      exact .none (fun s hs => hlist hs.2.1) _ _

theorem foldl_chosen {α : Type} {visit : ServerScan → α → ServerScan} {P : Db → α → ServerId → Prop}
    {freeWs : ℕ} (hvisit : ∀ scan a, Chosen (P scan.db a) freeWs scan (visit scan a))
    (hP : ∀ db db' a s, Rotated db db' → (P db' a s ↔ P db a s)) (l : List α) (scan : ServerScan) :
    Chosen (fun s => ∃ a ∈ l, P scan.db a s) freeWs scan (l.foldl visit scan) := by
  induction l generalizing scan with
  | nil => exact .none (by simp) _ _
  | cons a l ih =>
    refine ((hvisit scan a).trans (ih (visit scan a))).mono fun s => ?_
    rw [List.exists_mem_cons_iff]
    refine or_congr_right (exists_congr fun c => and_congr_right fun _ => ?_)
    exact hP _ _ c s (hvisit scan a).rotated

theorem visitLists_spec (now : ℤ) (master : Bool) (slot freeWs : ℕ) (scan : ServerScan) (round : Round) :
    Chosen (Candidate scan.db now master slot round) freeWs scan
      (visitLists now master slot freeWs scan round) := by
  refine (foldl_chosen (P := fun db b => InList db now master slot round b)
    (visitList_spec now master slot freeWs round) ?_ buckets scan).mono fun s => ?_
  · exact fun db db' b s h => inList_rotated h now master slot round b s
  · simp only [mem_buckets, true_and]
    rfl

def rounds (clusterEnabled : Bool) : List Round :=
  if clusterEnabled then [.first, .third, .fourth] else [.first, .second]

def Selectable (db : Db) (now : ℤ) (master : Bool) (slot : ℕ) (s : ServerId) : Prop :=
  ∃ round ∈ rounds db.clusterEnabled, Candidate db now master slot round s

theorem selectable_counts {db db' : Db} (h : CountsOnly db db') (now : ℤ) (master : Bool) (slot : ℕ) (s : ServerId) :
    Selectable db' now master slot s ↔ Selectable db now master slot s := by
  have hcluster : db'.clusterEnabled = db.clusterEnabled := congrArg Options.clusterEnabled h.same.options
  have hconsidered : ∀ round, serverConsidered db' now master slot s round = serverConsidered db now master slot s round :=
    fun round => by cases round <;> simp only [serverConsidered, ownsSlot, healthy, h.server, hcluster]
  simp only [Selectable, Candidate, InList, hconsidered, h.same.servers, hcluster]

theorem serversOf_spec (now : ℤ) (master : Bool) (slot freeWs remaining : ℕ) (db : Db) :
    Chosen (Selectable db now master slot) freeWs ⟨[], remaining, db, false⟩
      (serversOf now master slot freeWs remaining db) := by
  have hvisits : ∀ (rs : List Round) (scan : ServerScan),
      Chosen (fun s => ∃ round ∈ rs, Candidate scan.db now master slot round s) freeWs scan
        (rs.foldl (visitLists now master slot freeWs) scan) := by
    refine foldl_chosen (P := fun db round => Candidate db now master slot round)
      (visitLists_spec now master slot freeWs) ?_
    exact fun db db' round s h => exists_congr fun b => inList_rotated h now master slot round b s
  unfold serversOf Selectable rounds
  dsimp only
  cases hcluster : db.clusterEnabled with
  | false => exact hvisits [.first, .second] ⟨[], remaining, db, false⟩
  | true =>
    have hfirst := hvisits [.first] ⟨[], remaining, db, false⟩
    rw [if_pos rfl, if_pos rfl]
    split_ifs with hmore
    · refine (hfirst.trans (hvisits [.third, .fourth] _)).mono fun s => ?_
      simp only [List.mem_cons, List.not_mem_nil, or_false, exists_eq_or_imp, exists_eq_left]
      refine or_congr_right (or_congr ?_ ?_) <;>
        exact exists_congr fun b => inList_rotated hfirst.rotated now master slot _ b s
    · refine hfirst.weaken ?_ ?_
      · rintro s ⟨round, hround, hs⟩
        exact ⟨round, by simp_all, hs⟩
      · intro hw he
        apply hmore
        rw [he, hfirst.fits hw]
        rfl

def plannable (suitable : ContextId → Bool) (input : PlanInput) (heap : Heap) (maxSize : ℕ) (task : Task)
    (db : Db) : List ContextId :=
  if db.sharedConnections ∨ input.contextsWs < pointerSize then []
  else if maxSize = 0 then usable suitable input.probe heap db task.contexts
  else (usable suitable input.probe heap db task.contexts).take maxSize

def Overflows (suitable : ContextId → Bool) (input : PlanInput) (heap : Heap) (task : Task) (db : Db) : Prop :=
  db.sharedConnections = false ∧ input.contextsWs < pointerSize ∧
    usable suitable input.probe heap db task.contexts ≠ []

structure ContextsPlanned (suitable : ContextId → Bool) (input : PlanInput) (heap : Heap) (maxSize : ℕ)
    (task : Task) (db : Db) (contexts : List ContextId) (task' : Task) (db' : Db) : Prop where
  counts : CountsOnly db db'
  contexts : contexts = plannable suitable input heap maxSize task db
  kept : ∃ kept, task'.contexts.Perm kept ∧ Kept suitable input.probe heap db task.contexts kept ∧
    task'.ncontexts = task.ncontexts - (task.contexts.length - kept.length)

theorem contextsOf_spec (suitable : ContextId → Bool) (input : PlanInput) (heap : Heap) (maxSize : ℕ)
    (task : Task) (db : Db) :
    ContextsPlanned suitable input heap maxSize task db
        (contextsOf suitable input heap maxSize task db).planned
        ⟨(contextsOf suitable input heap maxSize task db).ncontexts,
          (contextsOf suitable input heap maxSize task db).kept⟩
        (contextsOf suitable input heap maxSize task db).db ∧
      ((contextsOf suitable input heap maxSize task db).overflow = true ↔
        Overflows suitable input heap task db) := by
  unfold contextsOf Overflows
  cases hshared : db.sharedConnections with
  | true => exact ⟨⟨.refl db, by simp [plannable, hshared], _, .refl _, .all _, by simp⟩, by simp⟩
  | false =>
    rw [if_neg (by simp)]
    obtain ⟨h1, ⟨kept, h2, h3, h4⟩, h5, h6⟩ := scanContexts_spec suitable input.probe heap maxSize
      input.contextsWs task.contexts ⟨[], [], task.ncontexts, db, false⟩ rfl (fun h => Nat.pos_of_ne_zero h)
    refine ⟨⟨h1, ?_, kept, .of_eq h2, h3, h4⟩, h6.trans (by simp)⟩
    rw [h5]
    simp [plannable, hshared]

theorem plannable_subset {suitable : ContextId → Bool} {input : PlanInput} {heap : Heap} {maxSize : ℕ}
    {task : Task} {db : Db} {c : ContextId} (hc : c ∈ plannable suitable input heap maxSize task db) :
    c ∈ usable suitable input.probe heap db task.contexts := by
  unfold plannable at hc
  split_ifs at hc
  · exact absurd hc List.not_mem_nil
  · exact hc
  · exact List.mem_of_mem_take hc

theorem ContextsPlanned.usable {suitable : ContextId → Bool} {input : PlanInput} {heap : Heap} {maxSize : ℕ}
    {task task' : Task} {db db' : Db} {contexts : List ContextId}
    (h : ContextsPlanned suitable input heap maxSize task db contexts task' db') {c : ContextId} (hc : c ∈ contexts) :
    c ∈ task.contexts ∧ suitable c = true ∧ Accepted input.probe heap db c := by
  rw [h.contexts] at hc
  have hmem := List.mem_filter.mp (plannable_subset hc)
  rw [Bool.and_eq_true, decide_eq_true_eq] at hmem
  exact hmem

theorem ContextsPlanned.mem {suitable : ContextId → Bool} {input : PlanInput} {heap : Heap} {maxSize : ℕ}
    {task task' : Task} {db db' : Db} {contexts : List ContextId}
    (h : ContextsPlanned suitable input heap maxSize task db contexts task' db') {c : ContextId} (hc : c ∈ contexts) :
    c ∈ task.contexts ∧ suitable c = true :=
  ⟨(h.usable hc).1, (h.usable hc).2.1⟩

theorem ContextsPlanned.subset {suitable : ContextId → Bool} {input : PlanInput} {heap : Heap} {maxSize : ℕ}
    {task task' : Task} {db db' : Db} {contexts : List ContextId}
    (h : ContextsPlanned suitable input heap maxSize task db contexts task' db') {c : ContextId}
    (hc : c ∈ task'.contexts) : c ∈ task.contexts := by
  obtain ⟨kept, hperm, hkept, -⟩ := h.kept
  exact hkept.sublist.subset (hperm.mem_iff.mp hc)

theorem ContextsPlanned.kept_mem {suitable : ContextId → Bool} {input : PlanInput} {heap : Heap}
    {maxSize : ℕ} {task task' : Task} {db db' : Db} {contexts : List ContextId}
    (h : ContextsPlanned suitable input heap maxSize task db contexts task' db') {c : ContextId}
    (hc : c ∈ contexts) : c ∈ task'.contexts := by
  obtain ⟨kept, hperm, hkept, -⟩ := h.kept
  obtain ⟨hmem, -, haccepted⟩ := h.usable hc
  rw [hperm.mem_iff]
  by_contra hn
  exact (hkept.dropped c hmem hn).2 haccepted

theorem ContextsPlanned.moved {suitable : ContextId → Bool} {input : PlanInput} {heap : Heap} {maxSize n : ℕ}
    {task : Task} {db db' : Db} {contexts held : List ContextId} :
    ContextsPlanned suitable input heap maxSize task db contexts ⟨n, held⟩ db' →
      ContextsPlanned suitable input heap maxSize task db contexts
        ⟨n, match contexts with
          | [] => held
          | c :: _ => Buckets.moveToTail c held⟩ db' := by
  intro h
  obtain ⟨kept, hperm, hkept, hn⟩ := h.kept
  refine ⟨h.counts, h.contexts, kept, ?_, hkept, hn⟩
  cases contexts with
  | nil => exact hperm
  | cons c rest => exact (Buckets.moveToTail_perm (h.kept_mem List.mem_cons_self)).trans hperm

theorem populateSimpleExecutionPlan_spec {input : PlanInput} {heap : Heap} {maxSize : ℕ} {s : ServerId}
    {task task' : Task} {db db' : Db} {plan : Plan}
    (h : populateSimpleExecutionPlan input heap maxSize s task db = .ok (plan, task', db')) :
    ContextsPlanned (suitableForServer db heap s) input heap maxSize task db plan.contexts task' db' ∧
      plan.nextContext = 0 ∧ plan.nextServer = 0 ∧
      (¬ Overflows (suitableForServer db heap s) input heap task db ∧ pointerSize ≤ input.serversWs ∧
          plan.servers = [s] ∨
        (Overflows (suitableForServer db heap s) input heap task db ∨ input.serversWs < pointerSize) ∧
          plan.servers = []) := by
  obtain ⟨hplanned, hover⟩ := contextsOf_spec (suitableForServer db heap s) input heap maxSize task db
  unfold populateSimpleExecutionPlan at h
  dsimp only at h
  rw [← hover]
  split_ifs at h with ho hw hs <;> cases h
  · exact ⟨hplanned, rfl, rfl, Or.inr ⟨Or.inl ho, rfl⟩⟩
  · exact ⟨hplanned, rfl, rfl, Or.inl ⟨ho, hs, rfl⟩⟩
  · exact ⟨hplanned, rfl, rfl, Or.inr ⟨Or.inr (not_le.mp hs), rfl⟩⟩

structure ServersPlanned (input : PlanInput) (master : Bool) (slot : ℕ) (db : Db) (servers : List ServerId)
    (db' : Db) : Prop where
  rotated : Rotated db db'
  selectable : ∀ s ∈ servers, Selectable db input.probe.now master slot s
  starved : input.serversWs < pointerSize → servers = []
  found : pointerSize ≤ input.serversWs → (∃ s, Selectable db input.probe.now master slot s) → servers ≠ []

theorem populateExecutionPlan_spec {input : PlanInput} {heap : Heap} {maxSize : ℕ} {master : Bool}
    {slot : ℕ} {task task' : Task} {db db' : Db} {plan : Plan}
    (h : populateExecutionPlan input heap maxSize master slot task db = .ok (plan, task', db')) :
    ∃ dbc, ContextsPlanned (suitableForCommand db heap master slot) input heap maxSize task db
        plan.contexts task' dbc ∧
      plan.nextContext = 0 ∧ plan.nextServer = 0 ∧
      ((Overflows (suitableForCommand db heap master slot) input heap task db ∨
            maxSize ≤ plan.contexts.length) ∧ plan.servers = [] ∧ db' = dbc ∨
        ¬ Overflows (suitableForCommand db heap master slot) input heap task db ∧
          plan.contexts.length < maxSize ∧ ServersPlanned input master slot dbc plan.servers db') := by
  obtain ⟨hplanned, hover⟩ := contextsOf_spec (suitableForCommand db heap master slot) input heap maxSize task db
  obtain ⟨scan, hscan⟩ : ∃ r, r = contextsOf (suitableForCommand db heap master slot) input heap maxSize task db :=
    ⟨_, rfl⟩
  unfold populateExecutionPlan at h
  rw [← hscan] at h hplanned hover
  dsimp only at h
  refine ⟨scan.db, ?_⟩
  have hmoved := hplanned.moved
  split_ifs at h with ho hw hlt hs <;> cases h
  · exact ⟨hplanned, rfl, rfl, Or.inl ⟨Or.inl (hover.mp ho), rfl, rfl⟩⟩
  · have hservers := serversOf_spec input.probe.now master slot input.serversWs
      (maxSize - scan.planned.length) scan.db
    obtain ⟨added, ha, hsel, -⟩ := hservers.added
    refine ⟨hmoved, rfl, rfl, Or.inr ⟨fun he => ho (hover.mpr he), hlt, hservers.rotated, ?_, hservers.starved,
      fun hroom => hservers.found hroom rfl (Nat.sub_ne_zero_of_lt hlt)⟩⟩
    rw [List.nil_append] at ha
    change ∀ s ∈ (serversOf _ _ _ _ _ _).planned, _
    rw [ha]
    exact hsel
  · exact ⟨hmoved, rfl, rfl, Or.inl ⟨Or.inr (not_lt.mp hlt), rfl, rfl⟩⟩

theorem planExecution_cases {input : PlanInput} {heap : Heap} {maxSize : ℕ} {server : Option ServerId}
    {master : Bool} {slot : ℕ} {task task' : Task} {db db' : Db} {plan : Option Plan}
    (h : planExecution input heap maxSize server master slot task db = .ok (plan, task', db')) :
    (input.allocated = false ∧ plan = none ∧ task' = task ∧ db' = db) ∨
      (input.allocated = true ∧ ∃ p, plan = some p ∧
        ((∃ s, server = some s ∧
            populateSimpleExecutionPlan input heap maxSize s task db = .ok (p, task', db')) ∨
          (server = none ∧
            populateExecutionPlan input heap maxSize master slot task db = .ok (p, task', db')))) := by
  unfold planExecution at h
  split_ifs at h with ha
  · refine Or.inr ⟨ha, ?_⟩
    cases server with
    | some s =>
      dsimp only at h
      cases hp : populateSimpleExecutionPlan input heap maxSize s task db with
      | error f => rw [hp] at h; cases h
      | ok r => rw [hp] at h; cases h; exact ⟨_, rfl, Or.inl ⟨s, rfl, hp⟩⟩
    | none =>
      dsimp only at h
      cases hp : populateExecutionPlan input heap maxSize master slot task db with
      | error f => rw [hp] at h; cases h
      | ok r => rw [hp] at h; cases h; exact ⟨_, rfl, Or.inr ⟨rfl, rfl⟩⟩
  · cases h
    exact Or.inl ⟨Bool.not_eq_true _ ▸ ha, rfl, rfl, rfl⟩

theorem planExecution_keeps {input : PlanInput} {heap : Heap} {size : ℕ} {server : Option ServerId} {master : Bool}
    {slot : ℕ} {task task' : Task} {db db' : Db} {plan : Option Plan}
    (h : planExecution input heap size server master slot task db = .ok (plan, task', db')) :
    db'.toOptions = db.toOptions ∧ db'.server = db.server ∧ task'.contexts.Subperm task.contexts := by
  obtain ⟨-, rfl, rfl, rfl⟩ | ⟨-, p, rfl, ⟨s, -, hp⟩ | ⟨-, hp⟩⟩ := planExecution_cases h
  · exact ⟨rfl, rfl, .refl _⟩
  · obtain ⟨hplanned, -⟩ := populateSimpleExecutionPlan_spec hp
    obtain ⟨kept, hperm, hkept, -⟩ := hplanned.kept
    exact ⟨hplanned.counts.same.options, hplanned.counts.server, kept, hperm.symm, hkept.sublist⟩
  · obtain ⟨dbc, hplanned, -, -, hservers⟩ := populateExecutionPlan_spec hp
    obtain ⟨kept, hperm, hkept, -⟩ := hplanned.kept
    have hsub : task'.contexts.Subperm task.contexts := ⟨kept, hperm.symm, hkept.sublist⟩
    obtain ⟨-, -, rfl⟩ | ⟨-, -, hrotated, -⟩ := hservers
    · exact ⟨hplanned.counts.same.options, hplanned.counts.server, hsub⟩
    · exact ⟨hrotated.options.trans hplanned.counts.same.options, hrotated.server.trans hplanned.counts.server, hsub⟩

section

variable {suitable : ContextId → Bool} {heap : Heap} {maxSize : ℕ}

theorem scanContexts_planned_subset (p : Probe) (freeWs : ℕ) (contexts : List ContextId) (scan : ContextScan) :
    scan.planned ⊆ (scanContexts suitable p heap maxSize freeWs contexts scan).planned := by
  induction contexts generalizing scan with
  | nil => exact List.Subset.refl _
  | cons c rest ih =>
    unfold scanContexts
    dsimp only
    split_ifs
    · exact List.subset_append_left _ _
    · apply List.Subset.trans (List.subset_append_left scan.planned [c])
      exact ih ⟨scan.planned ++ [c], scan.kept ++ [c], scan.ncontexts, (isValidRedisContext p heap scan.db c).2,
        scan.overflow⟩
    · exact List.Subset.refl _
    · exact ih { scan with ncontexts := scan.ncontexts - 1, db := (isValidRedisContext p heap scan.db c).2 }
    · exact ih { scan with kept := scan.kept ++ [c] }

theorem scanContexts_complete (p : Probe) (freeWs : ℕ) (contexts : List ContextId) (scan : ContextScan)
    (ho : (scanContexts suitable p heap maxSize freeWs contexts scan).overflow = false)
    (hn : maxSize = 0 ∨ (scanContexts suitable p heap maxSize freeWs contexts scan).planned.length < maxSize)
    {c : ContextId} (hc : c ∈ (scanContexts suitable p heap maxSize freeWs contexts scan).kept)
    (hs : suitable c = true) :
    c ∈ scan.kept ∨ c ∈ (scanContexts suitable p heap maxSize freeWs contexts scan).planned := by
  induction contexts generalizing scan with
  | nil => exact Or.inl hc
  | cons d rest ih =>
    unfold scanContexts at ho hn hc ⊢
    by_cases hd : suitable d = true
    · rw [if_pos hd] at ho hn hc ⊢
      dsimp only at ho hn hc ⊢
      by_cases hvalid : (isValidRedisContext p heap scan.db d).1 = true
      · rw [if_pos hvalid] at ho hn hc ⊢
        by_cases hfits : pointerSize ≤ freeWs
        · rw [if_pos hfits] at ho hn hc ⊢
          by_cases hfull : (scan.planned ++ [d]).length = maxSize
          · rw [if_pos hfull] at hn
            rw [List.length_append, List.length_singleton] at hfull
            rcases hn with hn | hn
            · omega
            · change (scan.planned ++ [d]).length < maxSize at hn
              rw [List.length_append, List.length_singleton] at hn
              omega
          · rw [if_neg hfull] at ho hn hc ⊢
            rcases ih _ ho hn hc with hmem | hmem
            · rcases List.mem_append.mp hmem with hmem | hmem
              · exact Or.inl hmem
              · right
                apply scanContexts_planned_subset p freeWs rest
                exact List.mem_append_right _ hmem
            · exact Or.inr hmem
        · rw [if_neg hfits] at ho
          cases ho
      · rw [if_neg hvalid] at ho hn hc ⊢
        exact ih _ ho hn hc
    · rw [if_neg hd] at ho hn hc ⊢
      rcases ih _ ho hn hc with hmem | hmem
      · rcases List.mem_append.mp hmem with hmem | hmem
        · exact Or.inl hmem
        · rw [List.mem_singleton.mp hmem] at hs
          exact absurd hs hd
      · exact Or.inr hmem

theorem contextsOf_complete {input : PlanInput} {task : Task} {db : Db} (hprivate : db.sharedConnections = false)
    (ho : (contextsOf suitable input heap maxSize task db).overflow = false)
    (hn : maxSize = 0 ∨ (contextsOf suitable input heap maxSize task db).planned.length < maxSize) {c : ContextId}
    (hc : c ∈ (contextsOf suitable input heap maxSize task db).kept) (hs : suitable c = true) :
    c ∈ (contextsOf suitable input heap maxSize task db).planned := by
  have hshared : ¬ db.sharedConnections = true := by
    rw [hprivate]
    exact Bool.false_ne_true
  unfold contextsOf at ho hn hc ⊢
  rw [if_neg hshared] at ho hn hc ⊢
  rcases scanContexts_complete input.probe input.contextsWs task.contexts _ ho hn hc hs with hmem | hmem
  · exact absurd hmem List.not_mem_nil
  · exact hmem

theorem populateSimpleExecutionPlan_complete {input : PlanInput} {s : ServerId} {task task' : Task} {db db' : Db}
    {plan : Plan} (h : populateSimpleExecutionPlan input heap maxSize s task db = .ok (plan, task', db'))
    (hprivate : db.sharedConnections = false) (hn : maxSize = 0 ∨ plan.contexts.length < maxSize)
    (hservers : plan.servers ≠ []) {c : ContextId} (hc : c ∈ task'.contexts)
    (hs : suitableForServer db heap s c = true) : c ∈ plan.contexts := by
  unfold populateSimpleExecutionPlan at h
  dsimp only at h
  split_ifs at h with ho hw hroom <;> cases h
  · exact absurd rfl hservers
  · exact contextsOf_complete hprivate (Bool.not_eq_true _ ▸ ho) hn hc hs
  · exact absurd rfl hservers

theorem populateExecutionPlan_complete {input : PlanInput} {master : Bool} {slot : ℕ} {task task' : Task}
    {db db' : Db} {plan : Plan} (h : populateExecutionPlan input heap maxSize master slot task db = .ok (plan, task', db'))
    (hprivate : db.sharedConnections = false) (hservers : plan.servers ≠ []) {c : ContextId} (hc : c ∈ task'.contexts)
    (hs : suitableForCommand db heap master slot c = true) : c ∈ plan.contexts := by
  obtain ⟨hplanned, -⟩ := contextsOf_spec (suitableForCommand db heap master slot) input heap maxSize task db
  unfold populateExecutionPlan at h
  dsimp only at h
  split_ifs at h with ho hw hlt hroom <;> cases h
  · exact absurd rfl hservers
  · have hkept : c ∈ (contextsOf (suitableForCommand db heap master slot) input heap maxSize task db).kept := by
      dsimp only at hc
      split at hc
      · exact hc
      · next d rest hd =>
        have hmem : d ∈ (contextsOf (suitableForCommand db heap master slot) input heap maxSize task db).planned := by
          rw [hd]
          exact List.mem_cons_self
        exact (Buckets.moveToTail_perm (hplanned.kept_mem hmem)).mem_iff.mp hc
    exact contextsOf_complete hprivate (Bool.not_eq_true _ ▸ ho) (Or.inr hlt) hkept hs
  · exact absurd rfl hservers

end

end VmodRedis.Planning
