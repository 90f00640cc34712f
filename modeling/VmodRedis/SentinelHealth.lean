import VmodRedis.SentinelInventory

namespace VmodRedis.SentinelInventory

open CStrings Replies Database Discovery SentinelUpdate

inductive Condition where
  | subjective
  | objective
  deriving DecidableEq

def Condition.other : Condition → Condition
  | .subjective => .objective
  | .objective => .subjective

structure Transition where
  raised : Bool
  condition : Condition

def Transition.event : Transition → Bytes
  | ⟨true, .subjective⟩ => bytes "+sdown"
  | ⟨false, .subjective⟩ => bytes "-sdown"
  | ⟨true, .objective⟩ => bytes "+odown"
  | ⟨false, .objective⟩ => bytes "-odown"

abbrev Conditions := Condition → Bool

def Conditions.down (c : Conditions) : Bool := c .subjective || c .objective

def inForce (c : Conditions) (transitions : List Transition) : Conditions :=
  transitions.foldl (fun c t => Function.update c t.condition t.raised) c

def flag (host : Bytes) (port : ℕ) (st : State) : Bool :=
  (st.servers.find? (Discovered.isAt host port)).any Discovered.down

def Notifies (host : Bytes) (port : ℕ) (t : Transition) (reply : Reply) : Prop :=
  ∃ channel event payload kind name ip portText rest,
    arrayOrPush reply = some [.string (bytes "pmessage"), channel, .string event, .string payload] ∧
    cstr event = t.event ∧ strtok payload = kind :: name :: ip :: portText :: rest ∧
    instanceRole kind ≠ none ∧ cstr ip = cstr host ∧ atoi portText = port

def parseSentinelNotifications (notifications : List ((ℕ → ℤ) × Reply)) (st : State) : State :=
  notifications.foldl (fun st n => parseSentinelNotification n.1 n.2 st) st

def HasFlag (element : List Reply) (word : Bytes) : Prop :=
  ∃ name value, (.string name, .string value) ∈ pairs element ∧ strcmp name (bytes "flags") = true ∧
    strstr value word = true

structure Polls (host : Bytes) (port : ℕ) (c : Conditions) (element : List Reply) : Prop where
  host : ∃ ip, (instanceFields element).host = some ip ∧ cstr ip = cstr host
  port : (instanceFields element).port = port ∧ 0 < port
  role : (instanceFields element).role ≠ .tbd
  subjective : HasFlag element (bytes "s_down") ↔ c .subjective = true
  objective : HasFlag element (bytes "o_down") ↔ c .objective = true

theorem storeServer_eq (host : Bytes) (port : ℕ) (role : Role) (down : Option Bool) (d : Discovered)
    (rest : List Discovered) (h : Discovered.isAt host port d = true) :
    (storeServer host port role down (d :: rest)).1 = Discovered.changed role down d :: rest := by
  unfold storeServer
  rw [if_pos h]
  by_cases hc : d.role ≠ role ∨ down.any (· ≠ d.down)
  · rw [if_pos hc]
  · rw [if_neg hc]
    obtain ⟨hrole, hdown⟩ := not_or.mp hc
    obtain rfl := not_not.mp hrole
    have he : down.getD d.down = d.down := by
      cases down with
      | none => rfl
      | some b => simpa using hdown
    unfold Discovered.changed
    rw [he]

theorem storeServer_of_not_isAt (host : Bytes) (port : ℕ) (role : Role) (down : Option Bool) {d : Discovered}
    (rest : List Discovered) (h : ¬ Discovered.isAt host port d = true) :
    storeServer host port role down (d :: rest) =
      (d :: (storeServer host port role down rest).1, (storeServer host port role down rest).2) := by
  rw [storeServer, if_neg h]

theorem isAt_new (host : Bytes) (port : ℕ) (role : Role) (down : Bool) :
    Discovered.isAt host port ⟨cstr host, port, role, down⟩ = true := by
  simp [Discovered.isAt, strcmp]

theorem storeServer_find (host : Bytes) (port : ℕ) (role : Role) (down : Option Bool) (l : List Discovered) :
    ((storeServer host port role down l).1.find? (Discovered.isAt host port)).map (fun d => (d.role, d.down)) =
      some (role, down.getD ((l.find? (Discovered.isAt host port)).any Discovered.down)) := by
  induction l with
  | nil =>
    unfold storeServer
    rw [List.find?_cons_of_pos (isAt_new host port role (down.getD false))]
    rfl
  | cons d rest ih =>
    by_cases hd : Discovered.isAt host port d = true
    · have hd' : Discovered.isAt host port (Discovered.changed role down d) = true := hd
      rw [storeServer_eq host port role down d rest hd, List.find?_cons_of_pos hd, List.find?_cons_of_pos hd']
      rfl
    · rw [storeServer_of_not_isAt host port role down rest hd, List.find?_cons_of_neg hd,
        List.find?_cons_of_neg hd, ih]

theorem isAt_congr {host ip : Bytes} (h : cstr ip = cstr host) (port : ℕ) :
    Discovered.isAt ip port = Discovered.isAt host port := by
  funext d
  simp only [Discovered.isAt, strcmp, h]

theorem flag_store {host ip : Bytes} (h : cstr ip = cstr host) (now : ℤ) (port : ℕ) (role : Role)
    (down : Option Bool) (st : State) :
    flag host port (storeSentinelReply now ip port role down st) = down.getD (flag host port st) := by
  have hfind := congrArg (Option.any Prod.snd) (storeServer_find ip port role down st.servers)
  rw [Option.any_map] at hfind
  unfold flag storeSentinelReply
  rw [← isAt_congr h port]
  exact hfind

theorem Transition.event_ne_nil (t : Transition) : t.event ≠ [] := by
  obtain ⟨raised, condition⟩ := t
  cases raised <;> cases condition <;> decide

theorem Transition.event_spec {t : Transition} {event : Bytes} (h : cstr event = t.event) :
    isDownEvent event = true ∧ decide (event.head? = some 43) = t.raised := by
  have hhead : event.head? = (cstr event).head? := by
    cases event with
    | nil => rfl
    | cons c rest =>
      by_cases hc : c = 0
      · subst hc
        exact absurd h.symm t.event_ne_nil
      · simp [cstr, hc]
  rw [hhead]
  simp only [isDownEvent, strcmp, h]
  obtain ⟨raised, condition⟩ := t
  cases raised <;> cases condition <;> decide

theorem flag_notification {host : Bytes} {port : ℕ} {t : Transition} {reply : Reply} (h : Notifies host port t reply)
    (clock : ℕ → ℤ) (st : State) : flag host port (parseSentinelNotification clock reply st) = t.raised := by
  obtain ⟨channel, event, payload, kind, name, ip, portText, rest, hreply, hevent, htokens, hkind, hip, rfl⟩ := h
  obtain ⟨hdown, hsign⟩ := t.event_spec hevent
  obtain ⟨role, hrole⟩ := Option.ne_none_iff_exists'.mp hkind
  have hmessage : strcmp (bytes "pmessage") (bytes "pmessage") = true := (strcmp_iff _ _).mpr rfl
  unfold parseSentinelNotification
  simp only [hreply]
  rw [if_pos hmessage, if_pos hdown]
  unfold parseDownEvent
  simp only [htokens, hrole]
  rw [flag_store hip, hsign]
  rfl

theorem flag_notifications {host : Bytes} {port : ℕ} {transitions : List Transition}
    {notifications : List ((ℕ → ℤ) × Reply)}
    (h : List.Forall₂ (fun t n => Notifies host port t n.2) transitions notifications) (st : State) :
    flag host port (parseSentinelNotifications notifications st) =
      (transitions.getLast?.map Transition.raised).getD (flag host port st) := by
  induction h generalizing st with
  | nil => rfl
  | @cons t n transitions notifications hn h ih =>
    change flag host port (parseSentinelNotifications notifications (parseSentinelNotification n.1 n.2 st)) = _
    rw [ih, flag_notification hn]
    cases transitions with
    | nil => rfl
    | cons t' rest =>
      rw [List.getLast?_cons_cons]
      obtain ⟨u, hu⟩ := Option.ne_none_iff_exists'.mp (List.getLast?_eq_none_iff.not.mpr (List.cons_ne_nil t' rest))
      rw [hu]
      rfl

def isDownField : Reply × Reply → Bool
  | (.string name, .string value) => strcmp name (bytes "flags") && flagsDown value
  | _ => false

theorem instanceField_down (fields : InstanceFields) (p : Reply × Reply) :
    (instanceField fields p).down = (fields.down || isDownField p) := by
  obtain ⟨a, b⟩ := p
  cases a with
  | string name =>
    cases b with
    | string value =>
      unfold instanceField isDownField
      have hother : ∀ word, word ≠ bytes "flags" → cstr word = word → strcmp name word = true →
          strcmp name (bytes "flags") = false := by
        intro word hne hword h
        rw [strcmp_iff, hword] at h
        rw [Bool.eq_false_iff, ne_eq, strcmp_iff, h]
        exact hne
      by_cases h1 : strcmp name (bytes "name") = true
      · simp [h1, hother _ (by decide) (by decide) h1]
      by_cases h2 : strcmp name (bytes "ip") = true
      · simp [h1, h2, hother _ (by decide) (by decide) h2]
      by_cases h3 : strcmp name (bytes "port") = true
      · simp [h1, h2, h3, hother _ (by decide) (by decide) h3]
      by_cases h4 : strcmp name (bytes "flags") = true
      · simp [h1, h2, h3, h4]
      · simp [h1, h2, h3, h4]
    | _ => simp [instanceField, isDownField]
  | _ => simp [instanceField, isDownField]

theorem instanceFields_down (element : List Reply) :
    (instanceFields element).down = (pairs element).any isDownField := by
  have hfold : ∀ (l : List (Reply × Reply)) (fields : InstanceFields),
      (l.foldl instanceField fields).down = (fields.down || l.any isDownField) := by
    intro l
    induction l with
    | nil => simp
    | cons p l ih =>
      intro fields
      rw [List.foldl_cons, ih, instanceField_down, List.any_cons, Bool.or_assoc]
  exact (hfold (pairs element) _).trans (Bool.false_or _)

theorem isDownField_any (element : List Reply) : (pairs element).any isDownField = true ↔
    HasFlag element (bytes "s_down") ∨ HasFlag element (bytes "o_down") := by
  rw [List.any_eq_true]
  constructor
  · rintro ⟨⟨a, b⟩, hmem, h⟩
    cases a with
    | string name =>
      cases b with
      | string value =>
        obtain ⟨hname, hdown⟩ := Bool.and_eq_true_iff.mp h
        rcases Bool.or_eq_true_iff.mp hdown with hdown | hdown
        · exact Or.inl ⟨name, value, hmem, hname, hdown⟩
        · exact Or.inr ⟨name, value, hmem, hname, hdown⟩
      | _ => cases h
    | _ => cases h
  · rintro (⟨name, value, hmem, hname, hdown⟩ | ⟨name, value, hmem, hname, hdown⟩)
    · exact ⟨_, hmem, Bool.and_eq_true_iff.mpr ⟨hname, Bool.or_eq_true_iff.mpr (Or.inl hdown)⟩⟩
    · exact ⟨_, hmem, Bool.and_eq_true_iff.mpr ⟨hname, Bool.or_eq_true_iff.mpr (Or.inr hdown)⟩⟩

theorem Polls.down {host : Bytes} {port : ℕ} {c : Conditions} {element : List Reply} (h : Polls host port c element) :
    (instanceFields element).down = c.down := by
  rw [instanceFields_down, Bool.eq_iff_iff, isDownField_any, h.subjective, h.objective]
  exact Bool.or_eq_true_iff.symm

theorem flag_discovery {host : Bytes} {port : ℕ} {c : Conditions} {element : List Reply}
    (h : Polls host port c element) (clock : ℕ → ℤ) (st : State) :
    flag host port (parseSentinelDiscovery clock (.array [.array element]) st).2 = c.down := by
  obtain ⟨ip, hip, hcstr⟩ := h.host
  obtain ⟨rfl, hpos⟩ := h.port
  change flag _ _ (storeInstance (clock 0) (instanceFields element) st) = _
  unfold storeInstance
  simp only [hip]
  rw [if_pos ⟨hpos, h.role⟩, flag_store hcstr, h.down]
  rfl

theorem inForce_append (c : Conditions) (transitions : List Transition) (t : Transition) :
    inForce c (transitions ++ [t]) = Function.update (inForce c transitions) t.condition t.raised := by
  unfold inForce
  rw [List.foldl_append]
  rfl

theorem down_of_last {c : Conditions} {t : Transition} (h : c t.condition = t.raised) :
    c.down = t.raised ↔ (t.raised = false → c t.condition.other = false) := by
  obtain ⟨raised, condition⟩ := t
  cases condition <;> cases raised <;> simp_all [Conditions.down, Condition.other]

/-- The two ways of following an instance agree, unless the last notification ends one condition while
the other holds. -/
theorem notifications_agree_with_discovery {host : Bytes} {port : ℕ} {transitions : List Transition}
    {notifications : List ((ℕ → ℤ) × Reply)} {c : Conditions} {element : List Reply} {st : State}
    (hstart : flag host port st = c.down)
    (hn : List.Forall₂ (fun t n => Notifies host port t n.2) transitions notifications)
    (hp : Polls host port (inForce c transitions) element) (clock : ℕ → ℤ) (st' : State) :
    flag host port (parseSentinelNotifications notifications st) =
        flag host port (parseSentinelDiscovery clock (.array [.array element]) st').2 ↔
      ∀ t ∈ transitions.getLast?, t.raised = false → inForce c transitions t.condition.other = false := by
  rw [flag_discovery hp, flag_notifications hn]
  rcases List.eq_nil_or_concat transitions with rfl | ⟨before, t, rfl⟩
  · simpa [inForce] using hstart
  · rw [List.concat_eq_append, List.getLast?_concat]
    have hlast : inForce c (before ++ [t]) t.condition = t.raised := by
      rw [inForce_append, Function.update_self]
    simp only [Option.map_some, Option.getD_some, Option.mem_def, Option.some.injEq, forall_eq']
    rw [eq_comm]
    exact down_of_last hlast

def downNotification (t : Transition) : (ℕ → ℤ) × Reply :=
  (fun _ => 0, .array [.string (bytes "pmessage"), .string (bytes "*"), .string t.event,
    .string (bytes "master mymaster 10.0.0.1 6379")])

theorem downNotification_notifies (t : Transition) :
    Notifies (bytes "10.0.0.1") 6379 t (downNotification t).2 := by
  refine ⟨_, _, _, bytes "master", bytes "mymaster", bytes "10.0.0.1", bytes "6379", [], rfl, ?_, by decide +kernel,
    by decide, rfl, by decide⟩
  obtain ⟨raised, condition⟩ := t
  cases raised <;> cases condition <;> decide

def describedMaster (flags : Bytes) : List Reply :=
  [.string (bytes "ip"), .string (bytes "10.0.0.1"), .string (bytes "port"), .string (bytes "6379"),
    .string (bytes "flags"), .string flags]

theorem describedMaster_hasFlag (flags word : Bytes) :
    HasFlag (describedMaster flags) word ↔ strstr flags word = true := by
  have hflags : strcmp (bytes "flags") (bytes "flags") = true := by decide
  constructor
  · rintro ⟨name, value, hmem, hname, hword⟩
    simp only [describedMaster, pairs, List.mem_cons, Prod.mk.injEq, Reply.string.injEq, List.not_mem_nil, or_false] at hmem
    rcases hmem with ⟨rfl, -⟩ | ⟨rfl, -⟩ | ⟨-, rfl⟩
    · exact absurd hname (by decide)
    · exact absurd hname (by decide)
    · exact hword
  · exact fun h => ⟨_, _, by simp [describedMaster, pairs], hflags, h⟩

def downMaster : List Reply := describedMaster (bytes "s_down,master")

def recovery : List Transition := [⟨true, .subjective⟩, ⟨true, .objective⟩, ⟨false, .objective⟩]

theorem downNotifications_notify (transitions : List Transition) :
    List.Forall₂ (fun t n => Notifies (bytes "10.0.0.1") 6379 t n.2) transitions (transitions.map downNotification) :=
  List.forall₂_map_right_iff.mpr (List.forall₂_same.mpr fun t _ => downNotification_notifies t)

theorem describedMaster_polls {flags : Bytes} {c : Conditions}
    (hrole : (instanceFields (describedMaster flags)).role ≠ .tbd)
    (hport : (instanceFields (describedMaster flags)).port = 6379)
    (hhost : (instanceFields (describedMaster flags)).host = some (bytes "10.0.0.1"))
    (hsubjective : strstr flags (bytes "s_down") = c .subjective) (hobjective : strstr flags (bytes "o_down") = c .objective) :
    Polls (bytes "10.0.0.1") 6379 c (describedMaster flags) where
  host := ⟨_, hhost, rfl⟩
  port := ⟨hport, by decide⟩
  role := hrole
  subjective := by rw [describedMaster_hasFlag, hsubjective]
  objective := by rw [describedMaster_hasFlag, hobjective]

theorem notifications_agree_with_discovery_down :
    flag (bytes "10.0.0.1") 6379
        (parseSentinelNotifications ((recovery.concat ⟨false, .subjective⟩).map downNotification) ⟨0, 0, []⟩) =
      flag (bytes "10.0.0.1") 6379
        (parseSentinelDiscovery (fun _ => 0) (.array [.array (describedMaster (bytes "master"))]) ⟨0, 0, []⟩).2 := by
  refine (notifications_agree_with_discovery (c := fun _ => false) rfl (downNotifications_notify _)
    (@describedMaster_polls (bytes "master") _ ?_ ?_ ?_ ?_ ?_) (fun _ => 0) ⟨0, 0, []⟩).mpr ?_
  all_goals decide +kernel

theorem notifications_forget_subjective :
    ¬ flag (bytes "10.0.0.1") 6379 (parseSentinelNotifications (recovery.map downNotification) ⟨0, 0, []⟩) =
      flag (bytes "10.0.0.1") 6379 (parseSentinelDiscovery (fun _ => 0) (.array [.array downMaster]) ⟨0, 0, []⟩).2 := by
  decide +kernel

end VmodRedis.SentinelInventory
