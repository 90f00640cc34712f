import VmodRedis.SentinelLoop

namespace VmodRedis.SentinelInventory

open CStrings Replies Database SentinelUpdate SentinelLoop TransitionSystem

/-- What a Sentinel thread does to its inventory: it stores the replies to its discovery commands and the
notifications that it receives, and it says when the next discovery is due. -/
inductive Receipt : State → State → Prop
  | discovery (clock : ℕ → ℤ) (reply : Reply) (st : State) : Receipt st (parseSentinelDiscovery clock reply st).2
  | notification (clock : ℕ → ℤ) (reply : Reply) (st : State) : Receipt st (parseSentinelNotification clock reply st)
  | schedule (next : ℤ) (st : State) : Receipt st { st with nextDiscovery := next }

def receipts : System State where
  init st := st = ⟨0, 0, []⟩
  step := Receipt

theorem parseAnswer_receipts (answer : Option Answer) (st : State) :
    Relation.ReflTransGen Receipt st (parseAnswer answer st).2 := by
  cases answer with
  | none => exact .refl
  | some answer => exact .single (.discovery answer.clock answer.reply st)

theorem discoverSentinel_receipts (answers : SentinelAnswers) (st : State) :
    Relation.ReflTransGen Receipt st (discoverSentinel answers st) := by
  have hslaves : ∀ (l : List ℕ) (st : State),
      Relation.ReflTransGen Receipt st (l.foldl (fun st i => (parseAnswer (answers.slaves i) st).2) st) := by
    intro l
    induction l with
    | nil => exact fun _ => .refl
    | cons i l ih => exact fun st => (parseAnswer_receipts (answers.slaves i) st).trans (ih _)
  exact (parseAnswer_receipts answers.masters st).trans (hslaves _ _)

theorem discoverServers_receipts (answers : List SentinelAnswers) (st : State) :
    Relation.ReflTransGen Receipt st (discoverServers answers st) := by
  unfold discoverServers
  induction answers generalizing st with
  | nil => exact .refl
  | cons a answers ih => exact (discoverSentinel_receipts a st).trans (ih _)

def loopReceipts (period : ℕ) : Refinement (loop period) receipts where
  abs r := r.state
  init r h := h.2.2.2.1
  step r r' _ hs := by
    cases hs with
    | discovered now answers hp =>
      exact (discoverServers_receipts answers r.state).tail (.schedule (now + period) _)
    | notify now discovered clock reply hp => exact .single (.notification clock reply r.state)
    | _ => exact .refl

theorem loop_receipts {period : ℕ} {r : Run} (h : (loop period).Reachable r) : receipts.Reachable r.state :=
  (loopReceipts period).reachable h

theorem Receipt.distinct {st st' : State} (hs : Receipt st st') (h : Distinct st.servers) : Distinct st'.servers := by
  cases hs with
  | discovery clock reply => exact storeInstances_distinct clock _ h
  | notification clock reply => exact parseSentinelNotification_distinct h clock reply
  | schedule next => exact h

theorem receipts_distinct {st : State} (h : receipts.Reachable st) : Distinct st.servers := by
  refine System.invariant (P := fun st => Distinct st.servers) ?_ ?_ h
  · rintro st rfl
    exact .nil
  · exact fun st st' _ hd hs => hs.distinct hd

inductive Amends (l : List Discovered) : List Discovered → Prop
  | added (d : Discovered) : Amends l (l ++ [d])
  | changed (before after : List Discovered) (d : Discovered) (role : Role) (down : Bool)
      (hl : l = before ++ d :: after) (h : d.role ≠ role ∨ d.down ≠ down) :
      Amends l (before ++ { d with role := role, down := down } :: after)

def status (host : Bytes) (port : ℕ) (l : List Discovered) : Option (Role × Bool) :=
  (l.find? (Discovered.isAt host port)).map fun d => (d.role, d.down)

def elsewhere (addresses : List (Bytes × ℕ)) (l : List Discovered) : List Discovered :=
  l.filter fun d => addresses.all fun a => !Discovered.isAt a.1 a.2 d

def Publishes (reply : Reply) (event payload : Bytes) : Prop :=
  ∃ kind channel, arrayOrPush reply = some [.string kind, channel, .string event, .string payload] ∧
    strcmp kind (bytes "pmessage") = true

def switchMaster : Bytes := bytes "+switch-master"

def Affects (payload : Bytes) (host : Bytes) (port : ℕ) (role : Role) : Prop :=
  ∃ kind name portText rest, strtok payload = kind :: name :: host :: portText :: rest ∧
    instanceRole kind = some role ∧ atoi portText = port

def Switches (payload : Bytes) (old new : Bytes × ℕ) : Prop :=
  ∃ name oldPort newPort rest, strtok payload = name :: old.1 :: oldPort :: new.1 :: newPort :: rest ∧
    atoi oldPort = old.2 ∧ atoi newPort = new.2

def Differ (a b : Bytes × ℕ) : Prop := cstr a.1 ≠ cstr b.1 ∨ a.2 ≠ b.2

theorem Amends.ne {l l' : List Discovered} (h : Amends l l') : l' ≠ l := by
  cases h with
  | added d => simp
  | changed before after d role down hl h =>
    rintro rfl
    have he : d = { d with role := role, down := down } := by simpa using hl.symm
    rcases h with h | h
    · exact h (congrArg Discovered.role he)
    · exact h (congrArg Discovered.down he)

theorem storeServer_cases (host : Bytes) (port : ℕ) (role : Role) (down : Option Bool) (l : List Discovered) :
    (storeServer host port role down l).2 = true ∧ Amends l (storeServer host port role down l).1 ∨
      (storeServer host port role down l).2 = false ∧ (storeServer host port role down l).1 = l := by
  induction l with
  | nil => exact Or.inl ⟨rfl, .added _⟩
  | cons d l ih =>
    by_cases hat : Discovered.isAt host port d = true
    · unfold storeServer
      rw [if_pos hat]
      by_cases hc : d.role ≠ role ∨ down.any (· ≠ d.down) = true
      · rw [if_pos hc]
        refine Or.inl ⟨rfl, .changed [] l d role (down.getD d.down) rfl ?_⟩
        refine hc.imp_right fun hd => ?_
        cases down with
        | none => cases hd
        | some b =>
          have hb : b ≠ d.down := by simpa using hd
          exact hb.symm
      · rw [if_neg hc]
        exact Or.inr ⟨rfl, rfl⟩
    · rw [storeServer_of_not_isAt host port role down l hat]
      rcases ih with ⟨hc, ha⟩ | ⟨hc, he⟩
      · refine Or.inl ⟨hc, ?_⟩
        revert ha
        generalize (storeServer host port role down l).1 = l'
        intro ha
        cases ha with
        | added e => exact .added e
        | changed before after e role down hl h => exact .changed (d :: before) after e role down (by rw [hl]; rfl) h
      · exact Or.inr ⟨hc, congrArg (List.cons d) he⟩

theorem storeSentinelReply_cases (now : ℤ) (host : Bytes) (port : ℕ) (role : Role) (down : Option Bool) (st : State) :
    (Amends st.servers (storeSentinelReply now host port role down st).servers ∧
        (storeSentinelReply now host port role down st).lastChange = now) ∨
      (¬ Amends st.servers (storeSentinelReply now host port role down st).servers ∧
        storeSentinelReply now host port role down st = st) := by
  unfold storeSentinelReply
  rcases storeServer_cases host port role down st.servers with ⟨hc, ha⟩ | ⟨hc, he⟩
  · exact Or.inl ⟨ha, if_pos hc⟩
  · refine Or.inr ⟨fun ha => ha.ne he, ?_⟩
    dsimp only
    rw [he, if_neg (by rw [hc]; exact Bool.false_ne_true)]

theorem storeServer_status (host : Bytes) (port : ℕ) (role : Role) (down : Option Bool) (l : List Discovered) :
    status host port (storeServer host port role down l).1 =
      some (role, down.getD ((status host port l).any Prod.snd)) := by
  unfold status
  rw [storeServer_find, Option.any_map]

theorem storeServer_settled {host : Bytes} {port : ℕ} {role : Role} {down : Option Bool} {l : List Discovered} {b : Bool}
    (h : status host port l = some (role, b)) (hb : down.getD b = b) :
    storeServer host port role down l = (l, false) := by
  unfold status at h
  induction l with
  | nil => cases h
  | cons d l ih =>
    by_cases hat : Discovered.isAt host port d = true
    · rw [List.find?_cons_of_pos hat] at h
      obtain ⟨rfl, rfl⟩ : d.role = role ∧ d.down = b := by simpa using h
      unfold storeServer
      rw [if_pos hat, if_neg]
      rw [not_or]
      refine ⟨not_not.mpr rfl, ?_⟩
      cases down with
      | none => exact Bool.false_ne_true
      | some b' => simpa using hb
    · rw [List.find?_cons_of_neg hat] at h
      rw [storeServer_of_not_isAt host port role down l hat, ih h]

theorem storeServer_filter {host : Bytes} {port : ℕ} {p : Discovered → Bool}
    (hp : ∀ d, Discovered.isAt host port d = true → ¬ p d = true) (role : Role) (down : Option Bool)
    (l : List Discovered) : (storeServer host port role down l).1.filter p = l.filter p := by
  induction l with
  | nil => exact List.filter_cons_of_neg (hp _ (isAt_new host port role (down.getD false)))
  | cons d l ih =>
    by_cases hat : Discovered.isAt host port d = true
    · have hat' : Discovered.isAt host port (Discovered.changed role down d) = true := hat
      rw [storeServer_eq host port role down d l hat, List.filter_cons_of_neg (hp _ hat'),
        List.filter_cons_of_neg (hp _ hat)]
    · rw [storeServer_of_not_isAt host port role down l hat]
      by_cases hd : p d = true
      · rw [List.filter_cons_of_pos hd, List.filter_cons_of_pos hd, ih]
      · rw [List.filter_cons_of_neg hd, List.filter_cons_of_neg hd, ih]

theorem storeServer_elsewhere {address : Bytes × ℕ} {addresses : List (Bytes × ℕ)} (h : address ∈ addresses)
    (role : Role) (down : Option Bool) (l : List Discovered) :
    elsewhere addresses (storeServer address.1 address.2 role down l).1 = elsewhere addresses l := by
  apply storeServer_filter
  intro d hd hall
  have hnot := List.all_eq_true.mp hall address h
  rw [hd] at hnot
  exact Bool.false_ne_true hnot

theorem Differ.not_isAt {a b : Bytes × ℕ} (h : Differ a b) {d : Discovered}
    (hd : Discovered.isAt a.1 a.2 d = true) : Discovered.isAt b.1 b.2 d = false := by
  rw [Bool.eq_false_iff]
  intro hd'
  simp only [Discovered.isAt, Bool.and_eq_true, decide_eq_true_eq, strcmp_iff] at hd hd'
  rcases h with h | h
  · exact h (hd.2.symm.trans hd'.2)
  · exact h (hd.1.symm.trans hd'.1)

theorem Differ.symm {a b : Bytes × ℕ} (h : Differ a b) : Differ b a := h.imp Ne.symm Ne.symm

theorem storeServer_status_of_differ {a b : Bytes × ℕ} (h : Differ a b) (role : Role) (down : Option Bool)
    (l : List Discovered) : status b.1 b.2 (storeServer a.1 a.2 role down l).1 = status b.1 b.2 l := by
  have hfind : ∀ l : List Discovered, l.find? (Discovered.isAt b.1 b.2) =
      (elsewhere [a] l).find? (Discovered.isAt b.1 b.2) := by
    intro l
    unfold elsewhere
    rw [List.find?_filter]
    congr 1
    funext d
    cases hd : Discovered.isAt b.1 b.2 d with
    | false => simp
    | true => simp [h.symm.not_isAt hd]
  unfold status
  rw [hfind, storeServer_elsewhere (List.mem_singleton_self a), ← hfind]

theorem storeSentinelReply_servers (now : ℤ) (host : Bytes) (port : ℕ) (role : Role) (down : Option Bool) (st : State) :
    (storeSentinelReply now host port role down st).servers = (storeServer host port role down st.servers).1 := rfl

theorem storeSentinelReply_settled {host : Bytes} {port : ℕ} {role : Role} {down : Option Bool} {st : State} {b : Bool}
    (h : status host port st.servers = some (role, b)) (hb : down.getD b = b) (now : ℤ) :
    storeSentinelReply now host port role down st = st := by
  unfold storeSentinelReply
  rw [storeServer_settled h hb]
  rfl

theorem Publishes.parse {reply : Reply} {event payload : Bytes} (h : Publishes reply event payload) (clock : ℕ → ℤ)
    (st : State) : parseSentinelNotification clock reply st =
      if isDownEvent event then parseDownEvent (clock 0) event payload st
      else if strcmp event (bytes "+switch-master") then parseSwitchMaster clock payload st
      else st := by
  obtain ⟨kind, channel, hreply, hkind⟩ := h
  unfold parseSentinelNotification
  simp only [hreply]
  exact if_pos hkind

theorem parse_of_unpublished {reply : Reply} (h : ∀ event payload, ¬ Publishes reply event payload) (clock : ℕ → ℤ)
    (st : State) : parseSentinelNotification clock reply st = st := by
  unfold parseSentinelNotification
  split
  · next kind channel event payload hreply =>
    exact if_neg fun hkind => h event payload ⟨kind, channel, hreply, hkind⟩
  · rfl

theorem isDownEvent_iff (event : Bytes) : isDownEvent event = true ↔ ∃ t : Transition, cstr event = t.event := by
  constructor
  · intro h
    simp only [isDownEvent, Bool.or_eq_true, strcmp_iff] at h
    rcases h with ((h | h) | h) | h
    · exact ⟨⟨true, .subjective⟩, h⟩
    · exact ⟨⟨false, .subjective⟩, h⟩
    · exact ⟨⟨true, .objective⟩, h⟩
    · exact ⟨⟨false, .objective⟩, h⟩
  · rintro ⟨t, h⟩
    exact (t.event_spec h).1

theorem isDownEvent_switchMaster {event : Bytes} (h : cstr event = switchMaster) : isDownEvent event = false := by
  simp only [isDownEvent, strcmp, h]
  decide

theorem Publishes.down {reply : Reply} {event payload : Bytes} (h : Publishes reply event payload)
    (hdown : isDownEvent event = true) (clock : ℕ → ℤ) (st : State) :
    parseSentinelNotification clock reply st = parseDownEvent (clock 0) event payload st := by
  rw [h.parse, if_pos hdown]

theorem Publishes.switch {reply : Reply} {event payload : Bytes} (h : Publishes reply event payload)
    (hevent : cstr event = switchMaster) (clock : ℕ → ℤ) (st : State) :
    parseSentinelNotification clock reply st = parseSwitchMaster clock payload st := by
  rw [h.parse, if_neg (by rw [isDownEvent_switchMaster hevent]; exact Bool.false_ne_true),
    if_pos ((strcmp_iff _ _).mpr hevent)]

theorem Affects.parse {payload host : Bytes} {port : ℕ} {role : Role} (h : Affects payload host port role) (now : ℤ)
    (event : Bytes) (st : State) : parseDownEvent now event payload st =
      storeSentinelReply now host port role (some (event.head? = some 43)) st := by
  obtain ⟨kind, name, portText, rest, htokens, hkind, rfl⟩ := h
  unfold parseDownEvent
  simp only [htokens, hkind]

theorem Switches.parse {payload : Bytes} {old new : Bytes × ℕ} (h : Switches payload old new) (clock : ℕ → ℤ)
    (st : State) : parseSwitchMaster clock payload st =
      storeSentinelReply (clock 1) new.1 new.2 .master (some false)
        (storeSentinelReply (clock 0) old.1 old.2 .slave none st) := by
  obtain ⟨name, oldPort, newPort, rest, htokens, hold, hnew⟩ := h
  unfold parseSwitchMaster
  simp only [htokens, hold, hnew]

theorem parseDownEvent_cases (now : ℤ) (event payload : Bytes) (st : State) :
    parseDownEvent now event payload st = st ∨ ∃ host port role, Affects payload host port role := by
  unfold parseDownEvent
  split
  · next kind name host portText rest htokens =>
    split
    · next role hkind => exact Or.inr ⟨host, _, role, kind, name, portText, rest, htokens, hkind, rfl⟩
    · exact Or.inl rfl
  · exact Or.inl rfl

theorem parseSwitchMaster_cases (clock : ℕ → ℤ) (payload : Bytes) (st : State) :
    parseSwitchMaster clock payload st = st ∨ ∃ old new, Switches payload old new := by
  unfold parseSwitchMaster
  split
  · next name oldIp oldPort newIp newPort rest htokens =>
    exact Or.inr ⟨(oldIp, _), (newIp, _), name, oldPort, newPort, rest, htokens, rfl, rfl⟩
  · exact Or.inl rfl

theorem Affects.complete {payload host : Bytes} {port : ℕ} {role : Role} (h : Affects payload host port role) :
    4 ≤ (strtok payload).length ∧ ∀ kind ∈ (strtok payload).head?, instanceRole kind ≠ none := by
  obtain ⟨kind, name, portText, rest, htokens, hkind, -⟩ := h
  rw [htokens]
  refine ⟨by simp, fun k hk => ?_⟩
  obtain rfl : kind = k := by simpa using hk
  rw [hkind]
  exact Option.some_ne_none role

theorem Switches.complete {payload : Bytes} {old new : Bytes × ℕ} (h : Switches payload old new) :
    5 ≤ (strtok payload).length := by
  obtain ⟨name, oldPort, newPort, rest, htokens, -⟩ := h
  rw [htokens]
  simp

structure WellKept (st : State) : Prop where
  distinct : receipts.Reachable st → Distinct st.servers
  stored : ∀ now host port role down,
    (Amends st.servers (storeSentinelReply now host port role down st).servers ∧
        (storeSentinelReply now host port role down st).lastChange = now) ∨
      (¬ Amends st.servers (storeSentinelReply now host port role down st).servers ∧
        storeSentinelReply now host port role down st = st)
  ignored : ∀ clock reply, (∀ event payload, Publishes reply event payload →
      isDownEvent event = false ∧ cstr event ≠ switchMaster) → parseSentinelNotification clock reply st = st
  downRefused : ∀ clock reply event payload, Publishes reply event payload → isDownEvent event = true →
    (strtok payload).length < 4 ∨ (∃ kind ∈ (strtok payload).head?, instanceRole kind = none) →
      parseSentinelNotification clock reply st = st
  switchRefused : ∀ clock reply event payload, Publishes reply event payload → cstr event = switchMaster →
    (strtok payload).length < 5 → parseSentinelNotification clock reply st = st
  affected : ∀ clock reply event payload (t : Transition) host port role, Publishes reply event payload →
    cstr event = t.event → Affects payload host port role →
      status host port (parseSentinelNotification clock reply st).servers = some (role, t.raised) ∧
      elsewhere [(host, port)] (parseSentinelNotification clock reply st).servers =
        elsewhere [(host, port)] st.servers
  switched : ∀ clock reply event payload old new, Publishes reply event payload → cstr event = switchMaster →
    Switches payload old new → Differ old new →
      status old.1 old.2 (parseSentinelNotification clock reply st).servers =
        some (.slave, (status old.1 old.2 st.servers).any Prod.snd) ∧
      status new.1 new.2 (parseSentinelNotification clock reply st).servers = some (.master, false) ∧
      elsewhere [old, new] (parseSentinelNotification clock reply st).servers = elsewhere [old, new] st.servers
  again : ∀ clock clock' reply event payload, Publishes reply event payload →
    isDownEvent event = true ∨
      (cstr event = switchMaster ∧ ∀ old new, Switches payload old new → Differ old new) →
        parseSentinelNotification clock' reply (parseSentinelNotification clock reply st) =
          parseSentinelNotification clock reply st

theorem affected_spec {reply : Reply} {event payload host : Bytes} {port : ℕ} {role : Role} {t : Transition}
    (hp : Publishes reply event payload) (hevent : cstr event = t.event) (ha : Affects payload host port role)
    (clock : ℕ → ℤ) (st : State) :
    status host port (parseSentinelNotification clock reply st).servers = some (role, t.raised) ∧
      elsewhere [(host, port)] (parseSentinelNotification clock reply st).servers =
        elsewhere [(host, port)] st.servers := by
  obtain ⟨hdown, hsign⟩ := t.event_spec hevent
  rw [hp.down hdown, ha.parse, hsign, storeSentinelReply_servers, storeServer_status]
  exact ⟨rfl, storeServer_elsewhere (List.mem_singleton_self (host, port)) role (some t.raised) st.servers⟩

theorem switched_spec {reply : Reply} {event payload : Bytes} {old new : Bytes × ℕ}
    (hp : Publishes reply event payload) (hevent : cstr event = switchMaster) (hs : Switches payload old new)
    (hd : Differ old new) (clock : ℕ → ℤ) (st : State) :
    status old.1 old.2 (parseSentinelNotification clock reply st).servers =
        some (.slave, (status old.1 old.2 st.servers).any Prod.snd) ∧
      status new.1 new.2 (parseSentinelNotification clock reply st).servers = some (.master, false) ∧
      elsewhere [old, new] (parseSentinelNotification clock reply st).servers = elsewhere [old, new] st.servers := by
  rw [hp.switch hevent, hs.parse, storeSentinelReply_servers, storeSentinelReply_servers]
  refine ⟨?_, ?_, ?_⟩
  · rw [storeServer_status_of_differ hd.symm, storeServer_status]
    rfl
  · rw [storeServer_status]
    rfl
  · rw [storeServer_elsewhere (List.mem_cons_of_mem old (List.mem_singleton_self new)),
      storeServer_elsewhere List.mem_cons_self]

theorem down_again {reply : Reply} {event payload : Bytes} (hp : Publishes reply event payload)
    (hdown : isDownEvent event = true) (clock clock' : ℕ → ℤ) (st : State) :
    parseSentinelNotification clock' reply (parseSentinelNotification clock reply st) =
      parseSentinelNotification clock reply st := by
  obtain ⟨t, hevent⟩ := (isDownEvent_iff event).mp hdown
  have hsign := (t.event_spec hevent).2
  rcases parseDownEvent_cases (clock' 0) event payload (parseSentinelNotification clock reply st) with he | ⟨host, port, role, ha⟩
  · rw [hp.down hdown clock', he]
  · obtain ⟨hstatus, -⟩ := affected_spec hp hevent ha clock st
    rw [hp.down hdown clock', ha.parse, hsign]
    exact storeSentinelReply_settled hstatus rfl _

theorem switch_again {reply : Reply} {event payload : Bytes} (hp : Publishes reply event payload)
    (hevent : cstr event = switchMaster) (hd : ∀ old new, Switches payload old new → Differ old new)
    (clock clock' : ℕ → ℤ) (st : State) :
    parseSentinelNotification clock' reply (parseSentinelNotification clock reply st) =
      parseSentinelNotification clock reply st := by
  rcases parseSwitchMaster_cases clock' payload (parseSentinelNotification clock reply st) with he | ⟨old, new, hs⟩
  · rw [hp.switch hevent clock', he]
  · obtain ⟨hold, hnew, -⟩ := switched_spec hp hevent hs (hd old new hs) clock st
    rw [hp.switch hevent clock', hs.parse, storeSentinelReply_settled hold rfl, storeSentinelReply_settled hnew rfl]

theorem inventory_wellKept (st : State) : WellKept st where
  distinct := receipts_distinct
  stored now host port role down := storeSentinelReply_cases now host port role down st
  ignored clock reply h := by
    by_cases hp : ∃ event payload, Publishes reply event payload
    · obtain ⟨event, payload, hp⟩ := hp
      obtain ⟨hdown, hswitch⟩ := h event payload hp
      rw [hp.parse, if_neg (by rw [hdown]; exact Bool.false_ne_true),
        if_neg fun he => hswitch ((strcmp_iff _ _).mp he)]
    · exact parse_of_unpublished (fun event payload he => hp ⟨event, payload, he⟩) clock st
  downRefused clock reply event payload hp hdown h := by
    rw [hp.down hdown]
    refine (parseDownEvent_cases (clock 0) event payload st).resolve_right ?_
    rintro ⟨host, port, role, ha⟩
    obtain ⟨hlength, hkind⟩ := ha.complete
    rcases h with h | ⟨kind, hmem, h⟩
    · omega
    · exact hkind kind hmem h
  switchRefused clock reply event payload hp hevent h := by
    rw [hp.switch hevent]
    refine (parseSwitchMaster_cases clock payload st).resolve_right ?_
    rintro ⟨old, new, hs⟩
    have hlength := hs.complete
    omega
  affected clock reply event payload t host port role hp hevent ha := affected_spec hp hevent ha clock st
  switched clock reply event payload old new hp hevent hs hd := switched_spec hp hevent hs hd clock st
  again clock clock' reply event payload hp h := by
    rcases h with hdown | ⟨hevent, hd⟩
    · exact down_again hp hdown clock clock' st
    · exact switch_again hp hevent hd clock clock' st

def failover : Reply :=
  .push [.string (bytes "pmessage"), .string (bytes "*"), .string switchMaster,
    .string (bytes "mymaster 10.0.0.1 6379 10.0.0.2 6379")]

example : parseSentinelNotification (fun _ => 7) failover ⟨0, 0, [⟨bytes "10.0.0.1", 6379, .master, true⟩]⟩ =
    ⟨7, 0, [⟨bytes "10.0.0.1", 6379, .slave, true⟩, ⟨bytes "10.0.0.2", 6379, .master, false⟩]⟩ := by
  rfl

end VmodRedis.SentinelInventory
