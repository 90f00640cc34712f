import Mathlib.Data.List.DropRight
import VmodRedis.Lib.JsonTree
import VmodRedis.WorkspaceCopies

namespace VmodRedis.StatsViews

open CStrings Database WorkspaceCopies Json

def counters (st : Stats) : List (Bytes × ℕ) := [
  (bytes "servers.total", st.serversTotal),
  (bytes "servers.failed", st.serversFailed),
  (bytes "connections.total", st.connectionsTotal),
  (bytes "connections.failed", st.connectionsFailed),
  (bytes "connections.dropped.error", st.dropped.error),
  (bytes "connections.dropped.hung_up", st.dropped.hungUp),
  (bytes "connections.dropped.overflow", st.dropped.overflow),
  (bytes "connections.dropped.ttl", st.dropped.ttl),
  (bytes "connections.dropped.version", st.dropped.version),
  (bytes "connections.dropped.sick", st.dropped.sick),
  (bytes "workers.blocked", st.workersBlocked),
  (bytes "commands.total", st.commandsTotal),
  (bytes "commands.failed", st.commandsFailed),
  (bytes "commands.retried", st.commandsRetried),
  (bytes "commands.error", st.commandsError),
  (bytes "commands.noscript", st.commandsNoscript),
  (bytes "cluster.discoveries.total", st.discoveriesTotal),
  (bytes "cluster.discoveries.failed", st.discoveriesFailed),
  (bytes "cluster.replies.moved", st.repliesMoved),
  (bytes "cluster.replies.ask", st.repliesAsk)]

def toVclInt (n : ℕ) : ℤ := Int.bmod n (2 ^ 64)

def vmodDbCounter (name : Bytes) (st : Stats) : ℤ :=
  match (counters st).find? fun c => strcmp name c.1 with
  | some c => toVclInt c.2
  | none => 0

def pair (key key' : String) (n n' : ℕ) : Members :=
  .cons (bytes key) (.leaf n) (.cons (bytes key') (.leaf n') .nil)

def droppedTree (d : Dropped) : Members :=
  .cons (bytes "error") (.leaf d.error) (.cons (bytes "hung_up") (.leaf d.hungUp)
    (.cons (bytes "overflow") (.leaf d.overflow) (.cons (bytes "ttl") (.leaf d.ttl)
      (pair "version" "sick" d.version d.sick))))

def commandsTree (st : Stats) : Members :=
  .cons (bytes "total") (.leaf st.commandsTotal) (.cons (bytes "failed") (.leaf st.commandsFailed)
    (.cons (bytes "retried") (.leaf st.commandsRetried) (pair "error" "noscript" st.commandsError st.commandsNoscript)))

def statsTree (st : Stats) : Members :=
  .cons (bytes "servers") (.node (pair "total" "failed" st.serversTotal st.serversFailed))
    (.cons (bytes "connections") (.node (.cons (bytes "total") (.leaf st.connectionsTotal)
        (.cons (bytes "failed") (.leaf st.connectionsFailed) (.cons (bytes "dropped") (.node (droppedTree st.dropped)) .nil))))
      (.cons (bytes "workers") (.node (.cons (bytes "blocked") (.leaf st.workersBlocked) .nil))
        (.cons (bytes "commands") (.node (commandsTree st))
          (.cons (bytes "cluster") (.node (.cons (bytes "discoveries")
              (.node (pair "total" "failed" st.discoveriesTotal st.discoveriesFailed))
              (.cons (bytes "replies") (.node (pair "moved" "ask" st.repliesMoved st.repliesAsk)) .nil))) .nil))))

theorem decimal_head {n : ℕ} (h : (decimal n).head? = some 48) : n = 0 := by
  induction n using Nat.strong_induction_on with
  | _ n ih =>
    by_cases hlt : n < 10
    · rw [decimal_of_lt hlt, List.head?_cons, Option.some.injEq] at h
      have hdigit := digitChar_toNat hlt
      rw [h] at hdigit
      have hzero : (48 : UInt8).toNat = 48 := rfl
      omega
    · have hle := Nat.not_lt.mp hlt
      rw [decimal_of_le hle, List.head?_append_of_ne_nil _ (isDigits_decimal _).1] at h
      have := ih (n / 10) (by omega) h
      omega

theorem writes_decimal : Writes decimal digitsValue where
  digits n := isDigits_decimal n
  value := digitsValue_decimal
  number n := by
    refine ⟨[], by simp, decimal n, [], [], isDigits_decimal n, fun h => ?_, Or.inl rfl, Or.inl rfl, by simp⟩
    rw [decimal_head h]
    rfl

theorem member_text (key value : Bytes) : member key value = quoted key ++ 58 :: 32 :: value := by
  have hcolon : bytes "\": " = [34, 58, 32] := by decide
  simp [member, quoted, hcolon]

theorem statsJson_text (st : Stats) : statsJson st = (Item.node (statsTree st)).text decimal := by
  simp only [statsJson, counter, member_text, object, statsTree, droppedTree, commandsTree, pair, Item.text, Members.text]
  simp [List.intercalate_cons_cons]

theorem counters_named (st : Stats) : counters st = (statsTree st).named 46 := rfl

theorem statsTree_keyed (st : Stats) : (statsTree st).Keyed fun key => Plain key ∧ 46 ∉ key := by
  simp only [statsTree, droppedTree, commandsTree, pair, Members.Keyed, Item.Keyed, Members.keys]
  and_intros <;> decide +kernel

theorem zero_not_mem_counters (st : Stats) : ∀ c ∈ counters st, 0 ∉ c.1 := by
  have hnames : ∀ name ∈ (counters .zero).map Prod.fst, 0 ∉ name := by decide +kernel
  have hsame : (counters st).map Prod.fst = (counters .zero).map Prod.fst := rfl
  intro c hc
  apply hnames
  rw [← hsame]
  exact List.mem_map_of_mem hc

theorem find_eq_lookup {name : Bytes} (hname : 0 ∉ name) {l : List (Bytes × ℕ)} (hl : ∀ c ∈ l, 0 ∉ c.1) :
    (l.find? fun c => strcmp name c.1).map Prod.snd = l.lookup name := by
  induction l with
  | nil => rfl
  | cons c l ih =>
    obtain ⟨hc, hl⟩ := List.forall_mem_cons.mp hl
    rw [List.lookup_cons, ← ih hl, List.find?_cons, strcmp, cstr_of_not_mem hname, cstr_of_not_mem hc]
    cases name == c.1 <;> rfl

theorem vmodDbCounter_eq (st : Stats) {name : Bytes} (hname : 0 ∉ name) :
    vmodDbCounter name st = ((counters st).lookup name).elim 0 toVclInt := by
  rw [← find_eq_lookup hname (zero_not_mem_counters st), vmodDbCounter]
  generalize (counters st).find? (fun c => strcmp name c.1) = found
  cases found with
  | none => rfl
  | some c => rw [Option.map_some, Option.elim_some]

section

variable (call : StatsCall) (name : Bytes)

def metrics : List (Bytes × Option Bytes) := [
  (bytes "servers_total", none),
  (bytes "servers_failed", none),
  (bytes "connections_total", none),
  (bytes "connections_failed", none),
  (bytes "connections_dropped", some (bytes "error")),
  (bytes "connections_dropped", some (bytes "hung_up")),
  (bytes "connections_dropped", some (bytes "overflow")),
  (bytes "connections_dropped", some (bytes "ttl")),
  (bytes "connections_dropped", some (bytes "version")),
  (bytes "connections_dropped", some (bytes "sick")),
  (bytes "workers_blocked", none),
  (bytes "commands_total", none),
  (bytes "commands_failed", none),
  (bytes "commands_retried", none),
  (bytes "commands_error", none),
  (bytes "commands_noscript", none),
  (bytes "cluster_discoveries_total", none),
  (bytes "cluster_discoveries_failed", none),
  (bytes "cluster_replies_moved", none),
  (bytes "cluster_replies_ask", none)]

def metricLabels : Option Bytes → Bytes
  | none => statsLabels call name
  | some reason =>
    statsLabels call name ++ (if statsLabels call name ≠ [] then [44] else []) ++ bytes "reason=\"" ++ reason ++ [34]

def series (metric : Bytes × Option Bytes) : Bytes :=
  statsPrefix call ++ (metric.1 ++ 123 :: (metricLabels call name metric.2 ++ [125]))

end

def readSample (line : Bytes) : Bytes × ℕ :=
  ((line.rdropWhile (· ≠ 32)).dropLast, digitsValue (line.rtakeWhile (· ≠ 32)))

def samples (text : Bytes) : List (Bytes × ℕ) :=
  ((text.splitOn 10).filter fun line => line ≠ [] ∧ line.head? ≠ some 35).map readSample

theorem samples_line {line : Bytes} (hline : 10 ∉ line) (rest : Bytes) :
    samples (line ++ 10 :: rest) =
      (if line ≠ [] ∧ line.head? ≠ some 35 then [readSample line] else []) ++ samples rest := by
  rw [samples, List.splitOn_append_cons_self_of_not_mem hline, List.filter_cons]
  by_cases h : line ≠ [] ∧ line.head? ≠ some 35
  · rw [if_pos (decide_eq_true h), if_pos h]
    rfl
  · rw [if_neg (by rw [decide_eq_false h]; exact Bool.false_ne_true), if_neg h]
    rfl

/-- The texts in the arguments keep to one line, and the prefix does not look like a comment. -/
structure Tidy (call : StatsCall) (name : Bytes) : Prop where
  namePrefix : 10 ∉ statsPrefix call ∧ (statsPrefix call).head? ≠ some 35
  labels : 10 ∉ statsLabels call name

theorem statsPrefix_ne_nil (call : StatsCall) : statsPrefix call ≠ [] := by
  unfold statsPrefix
  split_ifs with h
  · exact h
  · decide

theorem readSample_append {value : Bytes} (hvalue : 32 ∉ value) (s : Bytes) :
    readSample (s ++ 32 :: value) = (s, digitsValue value) := by
  have hall : ∀ c ∈ value.reverse, decide (c ≠ 32) = true := by
    intro c hc
    exact decide_eq_true fun he => hvalue (he ▸ List.mem_reverse.mp hc)
  have hreverse : (s ++ 32 :: value).reverse = value.reverse ++ 32 :: s.reverse := by simp
  unfold readSample List.rdropWhile List.rtakeWhile
  rw [hreverse, List.dropWhile_append_of_pos hall, List.takeWhile_append_of_pos hall,
    List.dropWhile_cons_of_neg (by simp), List.takeWhile_cons_of_neg (by simp)]
  simp

section

variable {call : StatsCall} {name : Bytes}

theorem samples_metricType (h : Tidy call name) {key : String} (hkey : 10 ∉ bytes key) (rest : Bytes) :
    samples (metricType call key ++ rest) = samples rest := by
  have htype : metricType call key ++ rest =
      (bytes "# TYPE " ++ (statsPrefix call ++ (bytes key ++ bytes " counter"))) ++ 10 :: rest := by
    have hend : bytes " counter\n" = bytes " counter" ++ [10] := by decide
    simp [metricType, hend]
  have hline : 10 ∉ bytes "# TYPE " ++ (statsPrefix call ++ (bytes key ++ bytes " counter")) := by
    have hwords : 10 ∉ bytes "# TYPE " ∧ 10 ∉ bytes " counter" := by decide
    simp [hwords, h.namePrefix.1, hkey]
  have hcomment : (bytes "# TYPE " ++ (statsPrefix call ++ (bytes key ++ bytes " counter"))).head? = some 35 := rfl
  rw [htype, samples_line hline, if_neg fun hsample => hsample.2 hcomment, List.nil_append]

theorem samples_metricSample (h : Tidy call name) {key : String} (hkey : 10 ∉ bytes key) {labels : Bytes}
    (hlabels : 10 ∉ labels) (n : ℕ) (rest : Bytes) : samples (metricSample call key labels n ++ rest) =
      (statsPrefix call ++ (bytes key ++ 123 :: (labels ++ [125])), n) :: samples rest := by
  have hsample : metricSample call key labels n ++ rest =
      (statsPrefix call ++ (bytes key ++ 123 :: (labels ++ [125])) ++ 32 :: decimal n) ++ 10 :: rest := by
    have hclose : bytes "\x7d " = [125, 32] := by decide
    simp [metricSample, hclose]
  have hdigits : ∀ c, isdigit c = false → c ∉ decimal n := fun c hc => (isDigits_decimal n).not_mem hc
  have hline : 10 ∉ statsPrefix call ++ (bytes key ++ 123 :: (labels ++ [125])) ++ 32 :: decimal n := by
    simp [h.namePrefix.1, hkey, hlabels, hdigits 10 rfl]
  have hnonempty : statsPrefix call ++ (bytes key ++ 123 :: (labels ++ [125])) ++ 32 :: decimal n ≠ [] := by simp
  have hhead : (statsPrefix call ++ (bytes key ++ 123 :: (labels ++ [125])) ++ 32 :: decimal n).head? ≠ some 35 := by
    have hprefix := h.namePrefix.2
    have hne : statsPrefix call ≠ [] := statsPrefix_ne_nil call
    rw [List.append_assoc, List.head?_append_of_ne_nil _ hne]
    exact hprefix
  rw [hsample, samples_line hline, if_pos ⟨hnonempty, hhead⟩, readSample_append (hdigits 32 rfl), digitsValue_decimal]
  rfl

theorem samples_metric (h : Tidy call name) {key : String} (hkey : 10 ∉ bytes key) (n : ℕ) (rest : Bytes) :
    samples (metric call name key n ++ rest) = (series call name (bytes key, none), n) :: samples rest := by
  rw [metric, List.append_assoc, samples_metricType h hkey, samples_metricSample h hkey h.labels]
  rfl

theorem samples_droppedSample (h : Tidy call name) {reason : String} (hreason : 10 ∉ bytes reason) (n : ℕ)
    (rest : Bytes) : samples (droppedSample call name reason n ++ rest) =
      (series call name (bytes "connections_dropped", some (bytes reason)), n) :: samples rest := by
  have hlabels : 10 ∉ metricLabels call name (some (bytes reason)) := by
    have hopen : 10 ∉ bytes "reason=\"" := by decide
    unfold metricLabels
    split_ifs <;> simp [h.labels, hopen, hreason]
  exact samples_metricSample h (by decide) hlabels n rest

theorem samples_statsPrometheus (h : Tidy call name) (st : Stats) : samples (statsPrometheus call name st) =
    (metrics.map (series call name)).zip ((counters st).map Prod.snd) := by
  have hmetric : ∀ {key : String}, 10 ∉ bytes key → ∀ n rest, samples (metric call name key n ++ rest) =
      (series call name (bytes key, none), n) :: samples rest := fun hkey n rest => samples_metric h hkey n rest
  have hdropped : ∀ {reason : String}, 10 ∉ bytes reason → ∀ n rest, samples (droppedSample call name reason n ++ rest) =
      (series call name (bytes "connections_dropped", some (bytes reason)), n) :: samples rest :=
    fun hreason n rest => samples_droppedSample h hreason n rest
  have htype : ∀ rest, samples (metricType call "connections_dropped" ++ rest) = samples rest :=
    samples_metricType h (by decide)
  have hlast := @hmetric "cluster_replies_ask" (by decide) st.repliesAsk []
  rw [List.append_nil] at hlast
  unfold statsPrometheus
  simp only [List.append_assoc]
  simp (disch := decide) only [hmetric, hdropped, htype, hlast]
  rfl

theorem metricLabels_injective {r r' : Option Bytes} (h : metricLabels call name r = metricLabels call name r') : r = r' := by
  have hlonger : ∀ reason, metricLabels call name none ≠ metricLabels call name (some reason) := by
    intro reason he
    have hlength := congrArg List.length he
    simp only [metricLabels, List.length_append, List.length_singleton] at hlength
    omega
  cases r with
  | none =>
    cases r' with
    | none => rfl
    | some reason => exact absurd h (hlonger reason)
  | some reason =>
    cases r' with
    | none => exact absurd h.symm (hlonger reason)
    | some reason' => simpa [metricLabels] using h

theorem series_nodup (call : StatsCall) (name : Bytes) : (metrics.map (series call name)).Nodup := by
  have hopen : ∀ m ∈ metrics, 123 ∉ m.1 := by decide
  refine List.Nodup.map_on (fun m hm m' hm' h => ?_) (by decide +kernel)
  obtain ⟨hname, hlabels⟩ := append_sep_inj (hopen m hm) (hopen m' hm') (List.append_cancel_left h)
  exact Prod.ext hname (metricLabels_injective (List.append_cancel_right hlabels))

end

def dotted (metric : Bytes × Option Bytes) : Bytes :=
  metric.1.map (fun c => if c = 95 then 46 else c) ++ metric.2.elim [] (46 :: ·)

/-- The three views agree: the JSON dump is well formed and reads back as the tree in which `vmod_db_counter` looks up
the path that its argument spells, and the Prometheus dump has one sample for each counter, in the same order. -/
theorem stats_views (st : Stats) :
    Value (statsJson st) ∧
      readItem digitsValue (statsJson st).length (statsJson st) = some (.node (statsTree st), []) ∧
      (∀ name, 0 ∉ name → ∃ key path, (∀ k ∈ key :: path, 46 ∉ k) ∧ name = joined 46 key path ∧
        vmodDbCounter name st = ((statsTree st).find key path).elim 0 toVclInt) ∧
      (counters st).map Prod.fst = metrics.map dotted ∧
      ∀ call name, (metrics.map (series call name)).Nodup ∧ (Tidy call name → samples (statsPrometheus call name st) =
        (metrics.map (series call name)).zip ((counters st).map Prod.snd)) := by
  have hkeyed := statsTree_keyed st
  have hplain : (Item.node (statsTree st)).Keyed Plain := ⟨List.cons_ne_nil _ _, hkeyed.mono fun _ h => h.1⟩
  have hnames : (counters .zero).map Prod.fst = metrics.map dotted := by decide +kernel
  refine ⟨?_, ?_, fun name hname => ?_, hnames, fun call name => ⟨series_nodup call name, fun h => ?_⟩⟩
  · rw [statsJson_text]
    exact Item.text_derives writes_decimal hplain
  · have hread : readItem digitsValue (statsJson st).length ((Item.node (statsTree st)).text decimal ++ []) =
        some (.node (statsTree st), []) := readItem_text writes_decimal hplain (by simp) (by rw [statsJson_text])
    rwa [List.append_nil, ← statsJson_text] at hread
  · obtain ⟨key, path, hfree, rfl⟩ := exists_joined 46 name
    obtain ⟨hkey, hpath⟩ := List.forall_mem_cons.mp hfree
    refine ⟨key, path, hfree, rfl, ?_⟩
    rw [vmodDbCounter_eq st hname, counters_named, Members.named_lookup hkey hpath (hkeyed.mono fun _ h => h.2)]
  · exact samples_statsPrometheus h st

def plainCall : StatsCall := ⟨.prometheus, [], true, []⟩

def sampleStats : Stats := ⟨1, 2, 3, 4, ⟨5, 6, 7, 8, 9, 10⟩, 11, 12, 13, 14, 15, 16, 17, 18, 19, 20⟩

theorem stats_views_sample : samples (statsPrometheus plainCall (bytes "db") sampleStats) =
    (metrics.map (series plainCall (bytes "db"))).zip (List.range' 1 20) :=
  ((stats_views sampleStats).2.2.2.2 plainCall (bytes "db")).2 ⟨⟨by decide, by decide⟩, by decide⟩

end VmodRedis.StatsViews
