import VmodRedis.ArrayReplies
import VmodRedis.Lib.Memory

namespace VmodRedis.WorkspaceCopies

open CStrings Replies Database TaskCommands Memory

/-- The workspace of a request: its memory, and what its allocator knows. -/
structure Workspace (σ : Type) where
  memory : ℕ → UInt8
  allocator : σ

/-- `WS_Copy` asserts that its length is no negative number but -1. -/
inductive Abort where
  | length (n : ℤ)

inductive StatsFormat where
  | json
  | prometheus

structure StatsCall where
  format : StatsFormat
  namePrefix : Bytes
  defaultLabels : Bool
  extraLabels : Bytes

def member (name value : Bytes) : Bytes := 34 :: (name ++ bytes "\": " ++ value)

def object (members : List Bytes) : Bytes := 123 :: (List.intercalate [44] members ++ [125])

def counter (name : String) (n : ℕ) : Bytes := member (bytes name) (decimal n)

def statsJson (st : Stats) : Bytes :=
  object [
    member (bytes "servers") (object [
      counter "total" st.serversTotal,
      counter "failed" st.serversFailed]),
    member (bytes "connections") (object [
      counter "total" st.connectionsTotal,
      counter "failed" st.connectionsFailed,
      member (bytes "dropped") (object [
        counter "error" st.dropped.error,
        counter "hung_up" st.dropped.hungUp,
        counter "overflow" st.dropped.overflow,
        counter "ttl" st.dropped.ttl,
        counter "version" st.dropped.version,
        counter "sick" st.dropped.sick])]),
    member (bytes "workers") (object [
      counter "blocked" st.workersBlocked]),
    member (bytes "commands") (object [
      counter "total" st.commandsTotal,
      counter "failed" st.commandsFailed,
      counter "retried" st.commandsRetried,
      counter "error" st.commandsError,
      counter "noscript" st.commandsNoscript]),
    member (bytes "cluster") (object [
      member (bytes "discoveries") (object [
        counter "total" st.discoveriesTotal,
        counter "failed" st.discoveriesFailed]),
      member (bytes "replies") (object [
        counter "moved" st.repliesMoved,
        counter "ask" st.repliesAsk])])]

section

variable (call : StatsCall) (name : Bytes)

def statsPrefix : Bytes := if cstr call.namePrefix ≠ [] then cstr call.namePrefix else bytes "vmod_redis_"

def statsLabels : Bytes :=
  cstr call.extraLabels ++ (if cstr call.extraLabels ≠ [] ∧ call.defaultLabels then [44] else []) ++
    (if call.defaultLabels then bytes "name=\"" ++ cstr name ++ [34] else [])

def metricType (key : String) : Bytes := bytes "# TYPE " ++ statsPrefix call ++ bytes key ++ bytes " counter\n"

def metricSample (key : String) (labels : Bytes) (n : ℕ) : Bytes :=
  statsPrefix call ++ bytes key ++ [123] ++ labels ++ bytes "\x7d " ++ decimal n ++ [10]

def metric (key : String) (n : ℕ) : Bytes :=
  metricType call key ++ metricSample call key (statsLabels call name) n

def droppedSample (reason : String) (n : ℕ) : Bytes :=
  metricSample call "connections_dropped"
    (statsLabels call name ++ (if statsLabels call name ≠ [] then [44] else []) ++ bytes "reason=\"" ++ bytes reason ++ [34]) n

def statsPrometheus (st : Stats) : Bytes :=
  metric call name "servers_total" st.serversTotal ++
  metric call name "servers_failed" st.serversFailed ++
  metric call name "connections_total" st.connectionsTotal ++
  metric call name "connections_failed" st.connectionsFailed ++
  metricType call "connections_dropped" ++
  droppedSample call name "error" st.dropped.error ++
  droppedSample call name "hung_up" st.dropped.hungUp ++
  droppedSample call name "overflow" st.dropped.overflow ++
  droppedSample call name "ttl" st.dropped.ttl ++
  droppedSample call name "version" st.dropped.version ++
  droppedSample call name "sick" st.dropped.sick ++
  metric call name "workers_blocked" st.workersBlocked ++
  metric call name "commands_total" st.commandsTotal ++
  metric call name "commands_failed" st.commandsFailed ++
  metric call name "commands_retried" st.commandsRetried ++
  metric call name "commands_error" st.commandsError ++
  metric call name "commands_noscript" st.commandsNoscript ++
  metric call name "cluster_discoveries_total" st.discoveriesTotal ++
  metric call name "cluster_discoveries_failed" st.discoveriesFailed ++
  metric call name "cluster_replies_moved" st.repliesMoved ++
  metric call name "cluster_replies_ask" st.repliesAsk

def statsText (st : Stats) : Bytes :=
  match call.format with
  | .json => statsJson st
  | .prometheus => statsPrometheus call name st

end

section

variable {σ : Type} (alloc : σ → ℕ → Option ℕ × σ)

def place (s : Bytes) (ws : Workspace σ) : Option ℕ × Workspace σ :=
  match alloc ws.allocator s.length with
  | (some p, a) => (some p, ⟨write p s ws.memory, a⟩)
  | (none, a) => (none, ⟨ws.memory, a⟩)

def toInt (n : ℕ) : ℤ := Int.bmod n (2 ^ 32)

def wsCopy (buffer : Bytes) (n : ℕ) (ws : Workspace σ) : Except Abort (Option ℕ × Workspace σ) :=
  if toInt n = -1 then .ok (place alloc (cstr buffer ++ [0]) ws)
  else if toInt n < 0 then .error (.length (toInt n))
  else .ok (place alloc (buffer.take (toInt n).toNat) ws)

def wsPrintf (text : Bytes) (ws : Workspace σ) : Option ℕ × Workspace σ := place alloc (text ++ [0]) ws

def copyReplyStr (ws : Workspace σ) (r : Reply) : Except Abort (Option ℕ × Workspace σ) :=
  wsCopy alloc (replyStr r ++ [0]) ((replyStr r).length + 1) ws

def getReplyIn (ws : Workspace σ) (r : Reply) : Except Abort (Option ℕ × Workspace σ) :=
  match replyType r with
  | .error | .status | .string | .verb | .double => copyReplyStr alloc ws r
  | .integer | .bool => .ok (wsPrintf alloc (signedDecimal (replyInteger r)) ws)
  | _ => .ok (none, ws)

def statsWorkspace (call : StatsCall) (name : Bytes) (ws : Workspace σ) : Option ℕ × Workspace σ :=
  match call.format with
  | .json => (some 0, ws)
  | .prometheus => wsPrintf alloc (statsLabels call name) ws

/-- `vmod_db_stats` when it does not stream: the text is copied without the byte that follows it. -/
def vmodDbStats (call : StatsCall) (name : Bytes) (st : Stats) (ws : Workspace σ) :
    Except Abort (Option ℕ × Workspace σ) :=
  match statsWorkspace alloc call name ws with
  | (none, ws) => .ok (none, ws)
  | (some _, ws) => wsCopy alloc (statsText call name st ++ [0]) (statsText call name st).length ws

end

inductive Producer where
  | reply
  | errorReply
  | statusReply
  | stringReply
  | arrayReplyValue (index : ℤ)
  | stats (call : StatsCall)

section

variable {σ : Type} (alloc : σ → ℕ → Option ℕ × σ) (db : DbId) (s : Session Reply) (name : Bytes) (st : Stats)

def produce (ws : Workspace σ) : Producer → Except Abort (Option ℕ × Workspace σ)
  | .reply => access db s (fun _ => true) (getReplyIn alloc ws) (.ok (none, ws))
  | .errorReply => access db s (replyType · = .error) (copyReplyStr alloc ws) (.ok (none, ws))
  | .statusReply => access db s (replyType · = .status) (copyReplyStr alloc ws) (.ok (none, ws))
  | .stringReply => access db s isStringReply (copyReplyStr alloc ws) (.ok (none, ws))
  | .arrayReplyValue index =>
    access db s isArrayReply (fun r => (elementAt index r).elim (.ok (none, ws)) (getReplyIn alloc ws)) (.ok (none, ws))
  | .stats call => vmodDbStats alloc call name st ws

def source : Producer → Option Bytes
  | .reply => vmodDbGetReply db s true
  | .errorReply => vmodDbGetErrorReply db s true
  | .statusReply => vmodDbGetStatusReply db s true
  | .stringReply => vmodDbGetStringReply db s true
  | .arrayReplyValue index => vmodDbGetArrayReplyValue db s index true
  | .stats call => some (statsText call name st)

/-- The C string at the pointer is the text, whatever the workspace held before. -/
def Delivers (ws : Workspace σ) (producer : Producer) : Prop :=
  ∀ p ws', produce alloc db s name st ws producer = .ok (some p, ws') →
    ∃ text, source db s name st producer = some text ∧ StringAt 0 ws'.memory p (cstr text)

end

section

variable {σ : Type} (alloc : σ → ℕ → Option ℕ × σ)

/-- Where a copy of `n` bytes ends before the C string does, the memory already holds the rest of the string. -/
def Completed (text : Bytes) (n : ℕ) (ws : Workspace σ) : Prop :=
  ∀ k : ℕ, toInt n = k → k ≤ (cstr text).length → ∀ p a, alloc ws.allocator k = (some p, a) →
    StringAt 0 ws.memory (p + k) ((cstr text).drop k)

def copiedText (r : Reply) : Option Bytes :=
  match replyType r with
  | .error | .status | .string | .verb | .double => some (replyStr r)
  | _ => none

def copiedReply (db : DbId) (s : Session Reply) : Producer → Option Bytes
  | .reply => access db s (fun _ => true) copiedText none
  | .errorReply => access db s (replyType · = .error) (fun r => some (replyStr r)) none
  | .statusReply => access db s (replyType · = .status) (fun r => some (replyStr r)) none
  | .stringReply => access db s isStringReply (fun r => some (replyStr r)) none
  | .arrayReplyValue index => access db s isArrayReply (fun r => (elementAt index r).bind copiedText) none
  | .stats _ => none

structure Fits (db : DbId) (s : Session Reply) (name : Bytes) (st : Stats) (ws : Workspace σ) (producer : Producer) : Prop where
  reply : ∀ text, copiedReply db s producer = some text → Completed alloc text (text.length + 1) ws
  stats : ∀ call, producer = .stats call → ∀ labels ws', statsWorkspace alloc call name ws = (some labels, ws') →
    Completed alloc (statsText call name st) (statsText call name st).length ws'

end

theorem toInt_le {n k : ℕ} (h : toInt n = k) : k ≤ n := by
  unfold toInt at h
  rw [Int.bmod_def] at h
  split at h <;> omega

theorem toInt_of_lt {n : ℕ} (h : n < 2 ^ 31) : toInt n = n := by
  unfold toInt
  rw [Int.bmod_def]
  split <;> omega

theorem cstr_terminated (text : Bytes) : ∃ t, text ++ [0] = cstr text ++ 0 :: t := by
  induction text with
  | nil => exact ⟨[], rfl⟩
  | cons c text ih =>
    by_cases hc : c = 0
    · subst hc
      exact ⟨text ++ [0], rfl⟩
    · obtain ⟨t, ht⟩ := ih
      exact ⟨t, by rw [cstr_cons_of_ne hc, List.cons_append, ht, List.cons_append]⟩

section

variable {σ : Type} {alloc : σ → ℕ → Option ℕ × σ} {ws ws' : Workspace σ} {p : ℕ}

theorem place_eq {b : Bytes} (h : place alloc b ws = (some p, ws')) :
    (∃ a, alloc ws.allocator b.length = (some p, a)) ∧ ws'.memory = write p b ws.memory := by
  unfold place at h
  split at h
  · next q a ha =>
    rw [Prod.mk.injEq, Option.some.injEq] at h
    obtain ⟨rfl, rfl⟩ := h
    exact ⟨⟨a, ha⟩, rfl⟩
  · cases h

theorem place_terminated {text : Bytes} (hzero : 0 ∉ text) (t : Bytes) (h : place alloc (text ++ 0 :: t) ws = (some p, ws')) :
    StringAt 0 ws'.memory p text := by
  rw [(place_eq h).2]
  exact stringAt_write hzero t

theorem place_of_alloc (b : Bytes) {a : σ} (h : alloc ws.allocator b.length = (some p, a)) :
    place alloc b ws = (some p, ⟨write p b ws.memory, a⟩) := by
  unfold place
  rw [h]

theorem place_prefix (alloc : σ → ℕ → Option ℕ × σ) (ws : Workspace σ) {text t b : Bytes} {k : ℕ} (hzero : 0 ∉ text)
    (hb : b = text ++ 0 :: t) (hk : k ≤ b.length) :
    (∀ p ws', place alloc (b.take k) ws = (some p, ws') → StringAt 0 ws'.memory p text) ↔
      (k ≤ text.length → ∀ p a, alloc ws.allocator k = (some p, a) → StringAt 0 ws.memory (p + k) (text.drop k)) := by
  have hlength : (b.take k).length = k := by
    rw [List.length_take]
    omega
  by_cases hle : k ≤ text.length
  · have htake : b.take k = text.take k := by rw [hb, List.take_append_of_le_length hle]
    rw [forall_prop_of_true hle]
    constructor
    · intro h p a ha
      have hstring := h p _ (place_of_alloc (b.take k) (by rw [hlength]; exact ha))
      rw [htake] at hstring
      exact (stringAt_write_take hzero hle).mp hstring
    · intro h p ws' hplace
      obtain ⟨⟨a, ha⟩, hmemory⟩ := place_eq hplace
      rw [hlength] at ha
      rw [hmemory, htake]
      exact (stringAt_write_take hzero hle).mpr (h p a ha)
  · obtain ⟨j, hj⟩ : ∃ j, k = text.length + (j + 1) := ⟨k - text.length - 1, by omega⟩
    have htake : b.take k = text ++ 0 :: t.take j := by
      rw [hb, hj, List.take_length_add_append, List.take_succ_cons]
    refine iff_of_true (fun p ws' hplace => ?_) fun h => absurd h hle
    rw [htake] at hplace
    exact place_terminated hzero _ hplace

theorem wsCopy_iff (alloc : σ → ℕ → Option ℕ × σ) (ws : Workspace σ) (text : Bytes) {n : ℕ} (hn : n ≤ text.length + 1) :
    (∀ p ws', wsCopy alloc (text ++ [0]) n ws = .ok (some p, ws') → StringAt 0 ws'.memory p (cstr text)) ↔
      Completed alloc text n ws := by
  have hzero := zero_not_mem_cstr text
  obtain ⟨t, ht⟩ := cstr_terminated text
  unfold wsCopy Completed
  by_cases hwhole : toInt n = -1
  · rw [if_pos hwhole, hwhole, ht, cstr_append_of_not_mem hzero]
    refine iff_of_true (fun p ws' h => ?_) fun k hk => absurd hk (by omega)
    have hnil : cstr (0 :: t) = [] := rfl
    rw [hnil, List.append_nil] at h
    exact place_terminated hzero [] (Except.ok.inj h)
  rw [if_neg hwhole]
  by_cases hneg : toInt n < 0
  · rw [if_pos hneg]
    exact iff_of_true (fun p ws' h => nomatch h) fun k hk => absurd hk (by omega)
  rw [if_neg hneg]
  obtain ⟨k, hk⟩ : ∃ k : ℕ, toInt n = k := ⟨(toInt n).toNat, by omega⟩
  have hle := toInt_le hk
  rw [hk, Int.toNat_natCast]
  have hprefix := place_prefix alloc ws hzero ht (show k ≤ (text ++ [0]).length by simp; omega)
  simp only [Except.ok.injEq, Int.natCast_inj, forall_eq']
  exact hprefix

def Returns (result : Except Abort (Option ℕ × Workspace σ)) (text : Option Bytes) : Prop :=
  ∀ p ws', result = .ok (some p, ws') → ∃ t, text = some t ∧ StringAt 0 ws'.memory p (cstr t)

theorem returns_none (text : Option Bytes) : Returns (.ok (none, ws)) text := by
  intro p ws' h
  cases h

theorem copyReplyStr_returns (r : Reply) :
    Returns (copyReplyStr alloc ws r) (copyStr true r) ↔ Completed alloc (replyStr r) ((replyStr r).length + 1) ws := by
  rw [← wsCopy_iff alloc ws (replyStr r) le_rfl]
  constructor
  · intro h p ws' hcopy
    obtain ⟨t, ht, hstring⟩ := h p ws' hcopy
    rwa [Option.some.inj ht]
  · exact fun h p ws' hcopy => ⟨_, rfl, h p ws' hcopy⟩

theorem zero_not_mem_signedDecimal (n : ℤ) : 0 ∉ signedDecimal n := by
  unfold signedDecimal
  split_ifs
  · rw [List.mem_cons, not_or]
    exact ⟨by decide, zero_not_mem_decimal _⟩
  · exact zero_not_mem_decimal _

theorem wsPrintf_returns {text : Bytes} (hzero : 0 ∉ text) : Returns (.ok (wsPrintf alloc text ws)) (some text) := by
  intro p ws' h
  refine ⟨text, rfl, ?_⟩
  rw [cstr_of_not_mem hzero]
  exact place_terminated hzero [] (Except.ok.inj h)

theorem getReplyIn_returns (r : Reply) : Returns (getReplyIn alloc ws r) (getReply true r) ↔
    ∀ text, copiedText r = some text → Completed alloc text (text.length + 1) ws := by
  unfold getReplyIn getReply copiedText
  cases replyType r
  case error | status | string | verb | double =>
    simp only [Option.some.injEq, forall_eq', if_true]
    exact copyReplyStr_returns r
  case integer | bool => exact iff_of_true (wsPrintf_returns (zero_not_mem_signedDecimal _)) nofun
  all_goals exact iff_of_true (returns_none _) nofun

theorem access_returns {db : DbId} {s : Session Reply} (condition : Reply → Bool)
    {value : Reply → Except Abort (Option ℕ × Workspace σ)} {text copied : Reply → Option Bytes}
    (h : ∀ r, Returns (value r) (text r) ↔ ∀ t, copied r = some t → Completed alloc t (t.length + 1) ws) :
    Returns (access db s condition value (.ok (none, ws))) (access db s condition text none) ↔
      ∀ t, access db s condition copied none = some t → Completed alloc t (t.length + 1) ws := by
  rw [access_eq, access_eq, access_eq]
  cases held db s with
  | none => exact iff_of_true (returns_none _) nofun
  | some r =>
    rw [Option.elim_some, Option.elim_some, Option.elim_some]
    by_cases hc : condition r = true
    · rw [if_pos hc, if_pos hc, if_pos hc]
      exact h r
    · rw [if_neg hc, if_neg hc, if_neg hc]
      exact iff_of_true (returns_none _) nofun

theorem vmodDbStats_returns (call : StatsCall) (name : Bytes) (st : Stats) :
    Returns (vmodDbStats alloc call name st ws) (some (statsText call name st)) ↔
      ∀ labels ws', statsWorkspace alloc call name ws = (some labels, ws') →
        Completed alloc (statsText call name st) (statsText call name st).length ws' := by
  unfold vmodDbStats
  obtain ⟨labels, ws₁⟩ := statsWorkspace alloc call name ws
  cases labels with
  | none => exact iff_of_true (returns_none _) nofun
  | some labels =>
    have hcopy := wsCopy_iff alloc ws₁ (statsText call name st) (Nat.le_succ _)
    dsimp only
    constructor
    · rintro h labels' ws' he
      obtain ⟨-, rfl⟩ := Prod.mk.inj he
      refine hcopy.mp fun p ws' hp => ?_
      obtain ⟨t, ht, hstring⟩ := h p ws' hp
      rwa [Option.some.inj ht]
    · exact fun h p ws' hp => ⟨_, rfl, hcopy.mpr (h labels ws₁ rfl) p ws' hp⟩

end

/-- What a method returns is the text as a C string, whatever the workspace held before, if and only if every byte
of that string that the method does not copy happens to be there already. -/
theorem delivers_iff {σ : Type} (alloc : σ → ℕ → Option ℕ × σ) (db : DbId) (s : Session Reply) (name : Bytes)
    (st : Stats) (ws : Workspace σ) (producer : Producer) :
    Delivers alloc db s name st ws producer ↔ Fits alloc db s name st ws producer := by
  have hreply : ∀ (condition : Reply → Bool), Returns (access db s condition (copyReplyStr alloc ws) (.ok (none, ws)))
      (access db s condition (copyStr true) none) ↔
        ∀ t, access db s condition (fun r => some (replyStr r)) none = some t →
          Completed alloc t (t.length + 1) ws := by
    intro condition
    apply access_returns
    intro r
    rw [copyReplyStr_returns]
    simp only [Option.some.injEq, forall_eq']
  have hfits : ∀ {q : Prop}, (∀ call, producer ≠ .stats call) →
      (q ↔ ∀ text, copiedReply db s producer = some text → Completed alloc text (text.length + 1) ws) →
        (q ↔ Fits alloc db s name st ws producer) := by
    intro q hne h
    rw [h]
    exact ⟨fun h => ⟨h, fun call he => absurd he (hne call)⟩, fun h => h.reply⟩
  cases producer with
  | reply => exact hfits nofun (access_returns _ getReplyIn_returns)
  | errorReply => exact hfits nofun (hreply _)
  | statusReply => exact hfits nofun (hreply _)
  | stringReply => exact hfits nofun (hreply _)
  | arrayReplyValue index =>
    refine hfits nofun (access_returns _ fun r => ?_)
    cases elementAt index r with
    | none => exact iff_of_true (returns_none _) nofun
    | some e => exact getReplyIn_returns e
  | stats call =>
    constructor
    · intro h
      refine ⟨nofun, fun call' he => ?_⟩
      obtain rfl := Producer.stats.inj he
      exact (vmodDbStats_returns call name st).mp h
    · exact fun h => (vmodDbStats_returns call name st).mpr (h.stats call rfl)

section

variable {σ : Type} {alloc : σ → ℕ → Option ℕ × σ} {ws : Workspace σ} {text : Bytes}

theorem completed_length_iff (hzero : 0 ∉ text) (h : text.length < 2 ^ 31) : Completed alloc text text.length ws ↔
    ∀ p a, alloc ws.allocator text.length = (some p, a) → ws.memory (p + text.length) = 0 := by
  unfold Completed
  rw [toInt_of_lt h, cstr_of_not_mem hzero]
  constructor
  · intro hall p a ha
    have hstring := hall text.length rfl le_rfl p a ha
    rw [List.drop_length] at hstring
    exact hstring
  · intro hall k hk _ p a ha
    obtain rfl : text.length = k := by exact_mod_cast hk
    rw [List.drop_length]
    exact hall p a ha

end

theorem zero_not_mem_member {key value : Bytes} : 0 ∉ member key value ↔ 0 ∉ key ∧ 0 ∉ value := by
  have hcolon : 0 ∉ bytes "\": " := by decide
  simp [member, hcolon]

theorem zero_not_mem_object {members : List Bytes} : 0 ∉ object members ↔ ∀ m ∈ members, 0 ∉ m := by
  have hcommas : 0 ∉ [44].intercalate members ↔ ∀ m ∈ members, 0 ∉ m := by
    induction members with
    | nil => simp
    | cons m members ih =>
      rw [List.forall_mem_cons, ← ih]
      cases members with
      | nil => simp
      | cons m' members =>
        rw [List.intercalate_cons_cons, List.mem_append, List.mem_append, not_or, not_or]
        simp
  rw [← hcommas]
  simp [object]

theorem zero_not_mem_counter {key : String} {n : ℕ} : 0 ∉ counter key n ↔ 0 ∉ bytes key := by
  rw [counter, zero_not_mem_member]
  exact and_iff_left (zero_not_mem_decimal n)

theorem zero_not_mem_statsJson (st : Stats) : 0 ∉ statsJson st := by
  unfold statsJson
  simp only [zero_not_mem_object, zero_not_mem_member, zero_not_mem_counter, List.forall_mem_cons, List.not_mem_nil,
    false_imp_iff, implies_true, and_true]
  refine ⟨?_, ?_, ?_, ?_, ?_⟩ <;> decide

section

variable (call : StatsCall) (name : Bytes)

theorem zero_not_mem_statsPrefix : 0 ∉ statsPrefix call := by
  unfold statsPrefix
  split_ifs
  · exact zero_not_mem_cstr _
  · decide

theorem zero_not_mem_statsLabels : 0 ∉ statsLabels call name := by
  have hname : 0 ∉ bytes "name=\"" := by decide
  unfold statsLabels
  rw [List.mem_append, List.mem_append, not_or, not_or]
  refine ⟨⟨zero_not_mem_cstr _, ?_⟩, ?_⟩
  · split_ifs <;> decide
  · split_ifs
    · simp [hname, zero_not_mem_cstr]
    · exact List.not_mem_nil

theorem zero_not_mem_metricSample {key : String} (hkey : 0 ∉ bytes key) {labels : Bytes} (hlabels : 0 ∉ labels)
    (n : ℕ) : 0 ∉ metricSample call key labels n := by
  have hclose : 0 ∉ bytes "\x7d " := by decide
  simp [metricSample, zero_not_mem_statsPrefix, hkey, hlabels, hclose, zero_not_mem_decimal]

theorem zero_not_mem_metricType {key : String} (hkey : 0 ∉ bytes key) : 0 ∉ metricType call key := by
  have htype : 0 ∉ bytes "# TYPE " ∧ 0 ∉ bytes " counter\n" := by decide
  simp [metricType, zero_not_mem_statsPrefix, hkey, htype]

theorem zero_not_mem_metric {key : String} (hkey : 0 ∉ bytes key) (n : ℕ) : 0 ∉ metric call name key n := by
  unfold metric
  rw [List.mem_append, not_or]
  exact ⟨zero_not_mem_metricType call hkey,
    zero_not_mem_metricSample call hkey (zero_not_mem_statsLabels call name) n⟩

theorem zero_not_mem_droppedSample {reason : String} (hreason : 0 ∉ bytes reason) (n : ℕ) :
    0 ∉ droppedSample call name reason n := by
  apply zero_not_mem_metricSample call (by decide)
  have hopen : 0 ∉ bytes "reason=\"" := by decide
  simp [zero_not_mem_statsLabels, hreason, hopen]

theorem zero_not_mem_statsPrometheus (st : Stats) : 0 ∉ statsPrometheus call name st := by
  have hmetric : ∀ {key : String}, 0 ∉ bytes key → ∀ n, 0 ∉ metric call name key n := zero_not_mem_metric call name
  have hdropped : ∀ {reason : String}, 0 ∉ bytes reason → ∀ n, 0 ∉ droppedSample call name reason n :=
    zero_not_mem_droppedSample call name
  have htype : 0 ∉ metricType call "connections_dropped" := zero_not_mem_metricType call (by decide)
  unfold statsPrometheus
  simp only [List.mem_append, not_or]
  simp (disch := decide) only [hmetric, hdropped, htype, not_false_eq_true, and_self]

theorem zero_not_mem_statsText (st : Stats) : 0 ∉ statsText call name st := by
  unfold statsText
  cases call.format with
  | json => exact zero_not_mem_statsJson st
  | prometheus => exact zero_not_mem_statsPrometheus call name st

end

theorem stats_delivers_iff {σ : Type} (alloc : σ → ℕ → Option ℕ × σ) (db : DbId) (s : Session Reply) (name : Bytes)
    (st : Stats) (ws : Workspace σ) (call : StatsCall) (h : (statsText call name st).length < 2 ^ 31) :
    Delivers alloc db s name st ws (.stats call) ↔
      ∀ labels ws', statsWorkspace alloc call name ws = (some labels, ws') →
        ∀ p a, alloc ws'.allocator (statsText call name st).length = (some p, a) →
          ws'.memory (p + (statsText call name st).length) = 0 := by
  apply (vmodDbStats_returns call name st).trans
  apply forall₃_congr
  intro labels ws' _
  exact completed_length_iff (zero_not_mem_statsText call name st) h

def bump (next n : ℕ) : Option ℕ × ℕ := (some next, next + n)

theorem stats_unterminated :
    ¬ Delivers bump 0 (holding .nil) (bytes "db") .zero ⟨fun _ => 1, 0⟩ (.stats ⟨.json, [], true, []⟩) := by
  intro h
  have hlength : (statsText ⟨.json, [], true, []⟩ (bytes "db") .zero).length < 2 ^ 31 := by decide +kernel
  have hzero := (stats_delivers_iff bump 0 (holding .nil) (bytes "db") .zero ⟨fun _ => 1, 0⟩ ⟨.json, [], true, []⟩
    hlength).mp h 0 _ rfl 0 _ rfl
  exact absurd hzero (by decide)

end VmodRedis.WorkspaceCopies
