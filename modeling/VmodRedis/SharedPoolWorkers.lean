import VmodRedis.Lib.Monitor
import VmodRedis.SharedPool

namespace VmodRedis.SharedPool

open Database Connections TransitionSystem

/-- Where a worker is: `now` is the clock that it read when it entered the lock function. -/
inductive Worker where
  | idle
  | waiting (s : ServerId) (now : ℤ)
  | signalled (s : ServerId) (now : ℤ)
  | holding (c : ContextId)

variable {ι : Type} [DecidableEq ι]

structure State (ι : Type) where
  db : Db
  heap : Heap
  workers : ι → Worker

def pool (db : Db) (s : ServerId) : Pool := (db.server s).pool

def Fresh (db : Db) (c : ContextId) : Prop := ∀ s, c ∉ (pool db s).free ++ (pool db s).busy

inductive Signal (s : ServerId) (ws : ι → Worker) : (ι → Worker) → Prop
  | wake (v : ι) (now : ℤ) (h : ws v = .waiting s now) : Signal s ws (Function.update ws v (.signalled s now))
  | none (h : ∀ v now, ws v ≠ .waiting s now) : Signal s ws ws

inductive Entered (s : ServerId) (now : ℤ) (w : ι) (ws : ι → Worker) : Locked → (ι → Worker) → Prop
  | context (c : ContextId) : Entered s now w ws (.context c) (Function.update ws w (.holding c))
  | waiting : Entered s now w ws .waiting (Function.update ws w (.waiting s now))
  | failed (ws' : ι → Worker) (h : Signal s (Function.update ws w .idle) ws') : Entered s now w ws .failed ws'

/-- The sections of the workers of one database, in any order. A waiting worker may also resume
without a signal, as POSIX allows. The last step stands for the sections of any other function:
they leave the pools alone. -/
inductive Step : State ι → State ι → Prop
  | lock (st : State ι) (w : ι) (s : ServerId) (input : LockInput) (ws' : ι → Worker)
      (hw : st.workers w = .idle) (hf : Fresh st.db input.created)
      (he : Entered s input.probe.now w st.workers (lockSection input s st.heap st.db).1 ws') :
      Step st ⟨(lockSection input s st.heap st.db).2.2, (lockSection input s st.heap st.db).2.1, ws'⟩
  | resume (st : State ι) (w : ι) (s : ServerId) (input : LockInput) (ws' : ι → Worker)
      (hw : st.workers w = .signalled s input.probe.now ∨ st.workers w = .waiting s input.probe.now)
      (hf : Fresh st.db input.created)
      (he : Entered s input.probe.now w st.workers
        (lockSection input s st.heap (countBlocked st.db)).1 ws') :
      Step st ⟨(lockSection input s st.heap (countBlocked st.db)).2.2,
        (lockSection input s st.heap (countBlocked st.db)).2.1, ws'⟩
  | execute (st : State ι) (w : ι) (c : ContextId) (err : Bool) (hw : st.workers w = .holding c) :
      Step st { st with heap := Function.update st.heap c { st.heap c with err := err } }
  | unlock (st : State ι) (w : ι) (c : ContextId) (ws' : ι → Worker) (hw : st.workers w = .holding c)
      (hs : Signal (st.heap c).server (Function.update st.workers w .idle) ws') :
      Step st ⟨unlockSharedRedisContext c st.heap st.db, st.heap, ws'⟩
  | other (st : State ι) (db : Db) (ho : db.toOptions = st.db.toOptions)
      (hp : ∀ s, pool db s = pool st.db s) : Step st { st with db := db }

def workers (ι : Type) [DecidableEq ι] (limit : ℕ) : System (State ι) where
  init st := st.db.maxConnections = limit ∧ (∀ s, pool st.db s = .empty) ∧ ∀ w, st.workers w = .idle
  step := Step

structure Inv (st : State ι) : Prop where
  ok : ∀ s, Pool.Ok st.db.maxConnections (pool st.db s)
  owner : ∀ s, ∀ c ∈ (pool st.db s).free ++ (pool st.db s).busy, (st.heap c).server = s
  busy : ∀ s c, c ∈ (pool st.db s).busy ↔ (st.heap c).server = s ∧ ∃ w, st.workers w = .holding c
  once : ∀ w w' c, st.workers w = .holding c → st.workers w' = .holding c → w = w'

theorem Signal.holding {s : ServerId} {ws ws' : ι → Worker} (h : Signal s ws ws') (v : ι) (c : ContextId) :
    ws' v = .holding c ↔ ws v = .holding c := by
  cases h with
  | wake u now hu =>
    by_cases hv : v = u
    · subst hv
      simp [hu]
    · rw [Function.update_of_ne hv]
  | none _ => rfl

theorem holding_update {ws : ι → Worker} {w : ι} {a : Worker} (hw : ∀ c, ws w ≠ .holding c)
    (ha : ∀ c, a ≠ .holding c) (v : ι) (c : ContextId) :
    Function.update ws w a v = .holding c ↔ ws v = .holding c := by
  by_cases hv : v = w
  · subst hv
    simp [hw c, ha c]
  · rw [Function.update_of_ne hv]

theorem Entered.holding {s : ServerId} {now : ℤ} {w : ι} {ws ws' : ι → Worker} {locked : Locked}
    (h : Entered s now w ws locked ws') (hw : ∀ c, ws w ≠ .holding c) (v : ι) (c : ContextId) :
    ws' v = .holding c ↔ ws v = .holding c ∨ (locked = .context c ∧ v = w) := by
  cases h with
  | context d =>
    by_cases hv : v = w
    · subst hv
      simp [hw c]
    · simp [hv]
  | waiting =>
    rw [holding_update hw (by simp)]
    simp
  | failed _ hs =>
    rw [hs.holding, holding_update hw (by simp)]
    simp

omit [DecidableEq ι] in
theorem Inv.init {st : State ι} (hp : ∀ s, pool st.db s = .empty) (hw : ∀ w, st.workers w = .idle) :
    Inv st where
  ok s := by
    rw [hp]
    exact ⟨rfl, Nat.zero_le _, List.nodup_nil⟩
  owner s c hc := by simp [hp, Pool.empty] at hc
  busy s c := by simp [hp, hw, Pool.empty]
  once w w' c h := by simp [hw] at h

omit [DecidableEq ι] in
theorem Inv.unheld {st : State ι} (h : Inv st) {c : ContextId}
    (hc : Fresh st.db c ∨ ∃ s, c ∈ (pool st.db s).free) (w : ι) : st.workers w ≠ .holding c := by
  intro hw
  have hb := (h.busy (st.heap c).server c).mpr ⟨rfl, w, hw⟩
  rcases hc with hc | ⟨s, hc⟩
  · exact hc _ (List.mem_append_right _ hb)
  · rw [h.owner s c (List.mem_append_left _ hc)] at hb
    exact (h.ok s).free_not_busy c hc hb

theorem Outcome.context_source {input : LockInput} {s : ServerId} {db : Db} {heap heap' : Heap}
    {p p' : Pool} {c : ContextId} (h : Outcome input s db heap p (.context c) heap' p') :
    c ∈ p.free ∨ c = input.created := by
  cases h with
  | reuse c dropped rest hfree => exact Or.inl (by simp [hfree])
  | create hroom => exact Or.inr rfl

theorem Outcome.mem {input : LockInput} {s : ServerId} {db : Db} {heap heap' : Heap} {p p' : Pool}
    {locked : Locked} (h : Outcome input s db heap p locked heap' p') {c : ContextId}
    (hc : c ∈ p'.free ++ p'.busy) : c ∈ p.free ++ p.busy ∨ locked = .context c := by
  cases h with
  | reuse d dropped rest hfree =>
    simp only [List.mem_append, List.mem_singleton] at hc
    rcases hc with hc | hc | rfl
    · exact Or.inl (List.mem_append_left _ (by simp [hfree, hc]))
    · exact Or.inl (List.mem_append_right _ hc)
    · exact Or.inr rfl
  | create hroom =>
    simp only [List.nil_append, List.mem_append, List.mem_singleton] at hc
    rcases hc with hc | rfl
    · exact Or.inl (List.mem_append_right _ hc)
    · exact Or.inr rfl
  | wait hfull => exact Or.inl (List.mem_append_right _ (by simpa using hc))
  | fail hroom => exact Or.inl (List.mem_append_right _ (by simpa using hc))

theorem Outcome.mem_busy {input : LockInput} {s : ServerId} {db : Db} {heap heap' : Heap} {p p' : Pool}
    {locked : Locked} (h : Outcome input s db heap p locked heap' p') (c : ContextId) :
    c ∈ p'.busy ↔ c ∈ p.busy ∨ locked = .context c := by
  cases h <;> simp [eq_comm]

theorem Outcome.heap_of_ne {input : LockInput} {s : ServerId} {db : Db} {heap heap' : Heap} {p p' : Pool}
    {locked : Locked} (h : Outcome input s db heap p locked heap' p') {c : ContextId}
    (hc : c ≠ input.created) : heap' c = heap c := by
  cases h with
  | create hroom => exact Function.update_of_ne hc _ _
  | _ => rfl

theorem Outcome.context_server {input : LockInput} {s : ServerId} {db : Db} {heap heap' : Heap}
    {p p' : Pool} {c : ContextId} (h : Outcome input s db heap p (.context c) heap' p')
    (howner : ∀ d ∈ p.free, (heap d).server = s) : (heap' c).server = s := by
  cases h with
  | reuse c dropped rest hfree => exact howner c (by simp [hfree])
  | create hroom => simp [newRedisContext]

section

variable {st : State ι} {s t : ServerId} {input : LockInput} {locked : Locked} {heap' : Heap} {p' : Pool} {w : ι}
  {c : ContextId}

omit [DecidableEq ι] in
theorem Outcome.heap_member (h : Outcome input s st.db st.heap (pool st.db s) locked heap' p')
    (hf : Fresh st.db input.created) (hc : c ∈ (pool st.db t).free ++ (pool st.db t).busy) :
    heap' c = st.heap c := by
  apply h.heap_of_ne
  rintro rfl
  exact hf t hc

omit [DecidableEq ι] in
theorem Inv.heap_held (h : Inv st) (hout : Outcome input s st.db st.heap (pool st.db s) locked heap' p')
    (hf : Fresh st.db input.created) (hw : st.workers w = .holding c) : heap' c = st.heap c := by
  apply hout.heap_member hf
  exact List.mem_append_right _ ((h.busy _ c).mpr ⟨rfl, w, hw⟩)

omit [DecidableEq ι] in
theorem Inv.busy_held (h : Inv st) (hout : Outcome input s st.db st.heap (pool st.db s) locked heap' p')
    (hf : Fresh st.db input.created) (t : ServerId) (c : ContextId) :
    c ∈ (pool st.db t).busy ↔ (heap' c).server = t ∧ ∃ v, st.workers v = .holding c := by
  rw [h.busy]
  constructor
  · rintro ⟨hs, v, hv⟩
    exact ⟨by rw [h.heap_held hout hf hv]; exact hs, v, hv⟩
  · rintro ⟨hs, v, hv⟩
    exact ⟨by rw [← h.heap_held hout hf hv]; exact hs, v, hv⟩

omit [DecidableEq ι] in
theorem Inv.context_unheld (h : Inv st) (hout : Outcome input s st.db st.heap (pool st.db s) (.context c) heap' p')
    (hf : Fresh st.db input.created) (w : ι) : st.workers w ≠ .holding c := by
  apply h.unheld
  rcases hout.context_source with hc | rfl
  · exact Or.inr ⟨s, hc⟩
  · exact Or.inl hf

omit [DecidableEq ι] in
theorem Inv.context_server (h : Inv st) (hout : Outcome input s st.db st.heap (pool st.db s) (.context c) heap' p') :
    (heap' c).server = s :=
  hout.context_server fun d hd => h.owner s d (List.mem_append_left _ hd)

end

theorem Inv.enter {st : State ι} (h : Inv st) {w : ι} {s : ServerId} {input : LockInput} {now : ℤ}
    {ws' : ι → Worker} (hw : ∀ c, st.workers w ≠ .holding c) (hf : Fresh st.db input.created)
    (he : Entered s now w st.workers (lockSection input s st.heap st.db).1 ws') :
    Inv ⟨(lockSection input s st.heap st.db).2.2, (lockSection input s st.heap st.db).2.1, ws'⟩ := by
  obtain ⟨hsame, hothers, hout⟩ := lockSection_spec input s st.heap st.db (h.ok s)
  obtain ⟨⟨locked, heap', db'⟩, hr⟩ : ∃ r, r = lockSection input s st.heap st.db := ⟨_, rfl⟩
  rw [← hr] at hsame hothers hout he ⊢
  dsimp only at hsame hothers hout he ⊢
  have hhold := he.holding hw
  have hpool : ∀ t, t ≠ s → pool db' t = pool st.db t := fun t ht => congrArg Server.pool (hothers t ht)
  constructor
  case ok =>
    intro t
    have hmax : db'.maxConnections = st.db.maxConnections := congrArg Options.maxConnections hsame.options
    change Pool.Ok db'.maxConnections (pool db' t)
    rw [hmax]
    by_cases ht : t = s
    · subst ht
      exact hout.ok (h.ok t) (hf t)
    · rw [hpool t ht]
      exact h.ok t
  case owner =>
    intro t c hc
    change (heap' c).server = t
    by_cases ht : t = s
    · subst ht
      rcases hout.mem hc with hc | rfl
      · rw [hout.heap_member hf hc]
        exact h.owner t c hc
      · exact h.context_server hout
    · change c ∈ (pool db' t).free ++ (pool db' t).busy at hc
      rw [hpool t ht] at hc
      rw [hout.heap_member hf hc]
      exact h.owner t c hc
  case busy =>
    intro t c
    change c ∈ (pool db' t).busy ↔ (heap' c).server = t ∧ ∃ v, ws' v = .holding c
    simp only [hhold]
    by_cases ht : t = s
    · subst ht
      change c ∈ ((db'.server t).pool).busy ↔ _
      rw [hout.mem_busy]
      change c ∈ (pool st.db t).busy ∨ _ ↔ _
      rw [h.busy_held hout hf]
      constructor
      · rintro (⟨hs, v, hv⟩ | rfl)
        · exact ⟨hs, v, Or.inl hv⟩
        · exact ⟨h.context_server hout, w, Or.inr ⟨rfl, rfl⟩⟩
      · rintro ⟨hs, v, hv | ⟨hc, -⟩⟩
        · exact Or.inl ⟨hs, v, hv⟩
        · exact Or.inr hc
    · rw [hpool t ht, h.busy_held hout hf]
      constructor
      · rintro ⟨hs, v, hv⟩
        exact ⟨hs, v, Or.inl hv⟩
      · rintro ⟨hs, v, hv | ⟨rfl, -⟩⟩
        · exact ⟨hs, v, hv⟩
        · exact absurd (hs.symm.trans (h.context_server hout)) ht
  case once =>
    intro v v' c hv hv'
    rcases (hhold v c).mp hv with hv | ⟨rfl, rfl⟩ <;> rcases (hhold v' c).mp hv' with hv' | ⟨hc', rfl⟩
    · exact h.once v v' c hv hv'
    · subst hc'
      exact absurd hv (h.context_unheld hout hf v)
    · exact absurd hv' (h.context_unheld hout hf v')
    · rfl

theorem Pool.Ok.release {limit : ℕ} {p : Pool} {c : ContextId} (h : Pool.Ok limit p) (hc : c ∈ p.busy) :
    Pool.Ok limit { p with busy := p.busy.erase c, free := p.free ++ [c] } := by
  have hpos := List.length_pos_of_mem hc
  have hn := h.ncontexts
  refine ⟨?_, h.limit, ?_⟩
  · simp only [List.length_append, List.length_singleton, List.length_erase_of_mem hc]
    omega
  · refine h.nodup.perm ?_
    rw [List.append_assoc]
    exact ((List.perm_cons_erase hc).append_left p.free)

theorem pool_unlock (c : ContextId) (heap : Heap) (db : Db) (t : ServerId) :
    pool (unlockSharedRedisContext c heap db) t =
      if t = (heap c).server then
        { pool db t with busy := (pool db t).busy.erase c, free := (pool db t).free ++ [c] }
      else pool db t := by
  unfold unlockSharedRedisContext pool
  split_ifs with ht
  · rw [← ht, setPool_pool]
  · rw [setPool_of_ne _ _ ht]

theorem Inv.unlock {st : State ι} (h : Inv st) {w : ι} {c : ContextId} {ws' : ι → Worker}
    (hw : st.workers w = .holding c)
    (hs : Signal (st.heap c).server (Function.update st.workers w .idle) ws') :
    Inv ⟨unlockSharedRedisContext c st.heap st.db, st.heap, ws'⟩ := by
  have hc : c ∈ (pool st.db (st.heap c).server).busy := (h.busy _ c).mpr ⟨rfl, w, hw⟩
  have hhold : ∀ v d, ws' v = .holding d ↔ st.workers v = .holding d ∧ d ≠ c := by
    intro v d
    rw [hs.holding]
    by_cases hv : v = w
    · subst hv
      simp [hw, eq_comm]
    · rw [Function.update_of_ne hv]
      constructor
      · intro hd
        refine ⟨hd, ?_⟩
        rintro rfl
        exact hv (h.once v w d hd hw)
      · exact And.left
  constructor
  case ok =>
    intro t
    change Pool.Ok st.db.maxConnections (pool (unlockSharedRedisContext c st.heap st.db) t)
    rw [pool_unlock]
    split_ifs with ht
    · exact (h.ok t).release (ht ▸ hc)
    · exact h.ok t
  case owner =>
    intro t d hd
    change d ∈ (pool (unlockSharedRedisContext c st.heap st.db) t).free ++
      (pool (unlockSharedRedisContext c st.heap st.db) t).busy at hd
    rw [pool_unlock] at hd
    split_ifs at hd with ht
    · simp only [List.mem_append, List.mem_singleton] at hd
      rcases hd with (hd | rfl) | hd
      · exact h.owner t d (List.mem_append_left _ hd)
      · exact ht.symm
      · exact h.owner t d (List.mem_append_right _ (List.mem_of_mem_erase hd))
    · exact h.owner t d hd
  case busy =>
    intro t d
    change d ∈ (pool (unlockSharedRedisContext c st.heap st.db) t).busy ↔
      (st.heap d).server = t ∧ ∃ v, ws' v = .holding d
    simp only [hhold, exists_and_right]
    rw [pool_unlock]
    split_ifs with ht
    · change d ∈ (pool st.db t).busy.erase c ↔ _
      rw [((h.ok t).nodup.of_append_right).mem_erase_iff, h.busy]
      tauto
    · rw [h.busy]
      constructor
      · rintro ⟨hd, v, hv⟩
        exact ⟨hd, ⟨v, hv⟩, fun he => ht (by rw [← hd, he])⟩
      · rintro ⟨hd, hv, -⟩
        exact ⟨hd, hv⟩
  case once =>
    intro v v' d hv hv'
    exact h.once v v' d ((hhold v d).mp hv).1 ((hhold v' d).mp hv').1

theorem Inv.step {st st' : State ι} (h : Inv st) (hs : Step st st') : Inv st' := by
  cases hs with
  | lock w s input ws' hw hf he => exact h.enter (by simp [hw]) hf he
  | resume w s input ws' hw hf he =>
    have hb : Inv { st with db := countBlocked st.db } := ⟨h.ok, h.owner, h.busy, h.once⟩
    exact hb.enter (w := w) (by rcases hw with hw | hw <;> simp [hw]) hf he
  | execute w c err hw =>
    have hserver : ∀ d, (Function.update st.heap c { st.heap c with err := err } d).server =
        (st.heap d).server := by
      intro d
      by_cases hd : d = c
      · subst hd
        simp
      · simp [hd]
    exact ⟨h.ok, fun s d hd => (hserver d).trans (h.owner s d hd),
      fun s d => by rw [hserver]; exact h.busy s d, h.once⟩
  | unlock w c ws' hw hs => exact h.unlock hw hs
  | other db ho hp =>
    have hmax : db.maxConnections = st.db.maxConnections := congrArg Options.maxConnections ho
    exact ⟨fun s => by change Pool.Ok db.maxConnections (pool db s); rw [hmax, hp]; exact h.ok s,
      fun s c hc => by change c ∈ (pool db s).free ++ (pool db s).busy at hc; rw [hp] at hc; exact h.owner s c hc,
      fun s c => by change c ∈ (pool db s).busy ↔ _; rw [hp]; exact h.busy s c, h.once⟩

theorem reachable_inv {limit : ℕ} {st : State ι} (h : (workers ι limit).Reachable st) : Inv st := by
  refine System.invariant (P := Inv) ?_ ?_ h
  · rintro st ⟨-, hp, hw⟩
    exact Inv.init hp hw
  · intro st st' _ hi hs
    exact hi.step hs

theorem lockSection_maxConnections (input : LockInput) (s : ServerId) {heap : Heap} {db : Db}
    (h : Pool.Ok db.maxConnections (pool db s)) :
    (lockSection input s heap db).2.2.maxConnections = db.maxConnections :=
  congrArg Options.maxConnections (lockSection_spec input s heap db h).1.options

theorem Inv.step_maxConnections {st st' : State ι} (h : Inv st) (hs : Step st st') :
    st'.db.maxConnections = st.db.maxConnections := by
  cases hs with
  | lock w s input ws' hw hf he => exact lockSection_maxConnections input s (h.ok s)
  | resume w s input ws' hw hf he =>
    exact (lockSection_maxConnections input s (h.ok s) : (lockSection input s st.heap (countBlocked st.db)).2.2.maxConnections = _)
  | execute w c err hw => rfl
  | unlock w c ws' hw hs => rfl
  | other db ho hp => exact congrArg Options.maxConnections ho

theorem reachable_maxConnections {limit : ℕ} {st : State ι} (h : (workers ι limit).Reachable st) :
    st.db.maxConnections = limit := by
  refine System.invariant (P := fun st => st.db.maxConnections = limit) ?_ ?_ h
  · exact fun st hst => hst.1
  · intro st st' hr hl hs
    exact ((reachable_inv hr).step_maxConnections hs).trans hl

/-- The contexts of every pool are counted, within the limit and without duplicates, and the busy
ones are those that the workers hold, each held by one worker. -/
theorem pools_accounted {limit : ℕ} {st : State ι} (h : (workers ι limit).Reachable st) (s : ServerId) :
    (pool st.db s).ncontexts = (pool st.db s).free.length + (pool st.db s).busy.length ∧
      (pool st.db s).ncontexts ≤ limit ∧
      (pool st.db s).free.Nodup ∧ (pool st.db s).busy.Nodup ∧
      (pool st.db s).free.Disjoint (pool st.db s).busy ∧
      (∀ c, c ∈ (pool st.db s).busy ↔ (st.heap c).server = s ∧ ∃ w, st.workers w = .holding c) ∧
      ∀ c w w', st.workers w = .holding c → st.workers w' = .holding c → w = w' := by
  have hi := reachable_inv h
  have hok := hi.ok s
  have hmax := reachable_maxConnections h
  exact ⟨hok.ncontexts, hmax ▸ hok.limit, hok.nodup.of_append_left, hok.nodup.of_append_right,
    List.disjoint_of_nodup_append hok.nodup, hi.busy s, fun c w w' hw hw' => hi.once w w' c hw hw'⟩

def quiet : State Bool :=
  ⟨newVmodRedisDb ⟨0, 0, 0, true, 1, .off, 0, false, false, 0⟩, fun _ => ⟨0, 0, false, 0, 0⟩, fun _ => .idle⟩

def connecting : LockInput := ⟨⟨0, fun _ => 0, fun _ => false⟩, true, 0⟩

def taken : State Bool :=
  ⟨(lockSection connecting 0 quiet.heap quiet.db).2.2, (lockSection connecting 0 quiet.heap quiet.db).2.1,
    Function.update quiet.workers true (.holding 0)⟩

def contended : State Bool :=
  ⟨(lockSection { connecting with created := 1 } 0 taken.heap taken.db).2.2,
    (lockSection { connecting with created := 1 } 0 taken.heap taken.db).2.1,
    Function.update taken.workers false (.waiting 0 0)⟩

theorem contended_reachable : (workers Bool 1).Reachable contended := by
  have hq : (workers Bool 1).Reachable quiet := System.reachable_init ⟨rfl, fun _ => rfl, fun _ => rfl⟩
  have ht : (workers Bool 1).Reachable taken :=
    hq.step (.lock quiet true 0 connecting _ rfl (fun _ => List.not_mem_nil) (.context 0))
  refine ht.step (.lock taken false 0 { connecting with created := 1 } _ rfl (fun s => ?_) .waiting)
  by_cases hs : s = 0
  · subst hs
    decide
  · have hp : pool taken.db s = .empty := by
      change (taken.db.server s).pool = .empty
      rw [show taken.db = (newRcontext 0 false true 0 quiet.db).setPool 0 ⟨1, [], [0]⟩ from rfl,
        setPool_of_ne _ _ hs]
      rfl
    rw [hp]
    exact List.not_mem_nil

theorem pools_accounted_contended :
    (pool contended.db 0).ncontexts = (pool contended.db 0).free.length + (pool contended.db 0).busy.length ∧
      (pool contended.db 0).ncontexts ≤ 1 :=
  ⟨(pools_accounted contended_reachable 0).1, (pools_accounted contended_reachable 0).2.1⟩

end VmodRedis.SharedPool
