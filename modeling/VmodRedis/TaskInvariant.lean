import VmodRedis.TaskReplies

namespace VmodRedis.TaskCommands

open CStrings Replies Database Planning TransitionSystem
open Execution (Argv)

section

variable {ρ : Type}

/-- The calls made on a task: methods of any instance, or through the functions that stand for them,
each run of a command ending in any way. Reading a reply may create the private data. -/
inductive Step (instances : DbId → Instance) (config : List DbId) (content : ρ → Reply) :
    Session ρ → Session ρ → Prop
  | method (s s' : Session ρ) (run : Runner ρ) (db : DbId) (method : Method)
      (h : method.call instances content run db s = .ok s') : Step instances config content s s'
  | proxied (s s' : Session ρ) (run : Runner ρ) (name : Option Bytes) (method : Method)
      (h : proxied instances content config name run method s = .ok s') : Step instances config content s s'
  | use (s : Session ρ) (name : Option Bytes) : Step instances config content s (vmodUse instances config name s)
  | access (s : Session ρ) : Step instances config content s (getTaskState false s)

def task (instances : DbId → Instance) (config : List DbId) (content : ρ → Reply) : System (Session ρ) where
  init s := s.priv = none ∧ s.trace = []
  step := Step instances config content

def Produced (trace : List (TaskEvent ρ)) (db : DbId) (reply : ρ) : Prop :=
  ∃ later earlier, trace = later ++ .executed db (some reply) :: earlier ∧ ∀ r, TaskEvent.flushed r ∉ later

structure Owned (s : Session ρ) : Prop where
  argc_le : s.state.command.argc ≤ maxRedisCommandArgs
  owner : 1 ≤ s.state.command.argc ↔ s.state.command.db.isSome
  reply : ∀ r, s.state.command.reply = some r → ∃ db, s.state.command.db = some db ∧ Produced s.trace db r

def Keeps (f : Session ρ → Except Crash (Session ρ)) : Prop := ∀ s s', Owned s → f s = .ok s' → Owned s'

theorem Keeps.bind {f g : Session ρ → Except Crash (Session ρ)} (hf : Keeps f) (hg : Keeps g) :
    Keeps fun s => f s >>= g := by
  intro s s' h he
  cases hs : f s with
  | error e =>
    dsimp only at he
    rw [hs] at he
    cases he
  | ok t =>
    dsimp only at he
    rw [hs] at he
    exact hg t s' (hf s t h hs) he

theorem Keeps.foldlM {α : Type} {f : Session ρ → α → Except Crash (Session ρ)} (hf : ∀ a, Keeps (f · a))
    (l : List α) : Keeps fun s => l.foldlM f s := by
  induction l with
  | nil =>
    intro s s' h he
    obtain rfl := Except.ok.inj he
    exact h
  | cons a l ih => exact (hf a).bind ih

theorem Owned.congr {s s' : Session ρ} (h : Owned s) (hstate : s'.state = s.state) (htrace : s'.trace = s.trace) :
    Owned s' := by
  refine ⟨?_, ?_, ?_⟩
  · rw [hstate]
    exact h.argc_le
  · rw [hstate]
    exact h.owner
  · rw [hstate, htrace]
    exact h.reply

theorem Owned.flush (s : Session ρ) : Owned (getTaskState true s) :=
  ⟨Nat.zero_le _, iff_of_false (Nat.not_succ_le_zero 0) Bool.false_ne_true, nofun⟩

theorem Owned.setCommand {s : Session ρ} (h : Owned s) {command : Enqueued ρ}
    (hargc : command.argc ≤ maxRedisCommandArgs) (hpos : 1 ≤ command.argc ↔ 1 ≤ s.state.command.argc)
    (hdb : command.db = s.state.command.db) (hreply : command.reply = s.state.command.reply) :
    Owned (s.setCommand command) := by
  refine ⟨hargc, ?_, ?_⟩
  · change 1 ≤ command.argc ↔ command.db.isSome
    rw [hpos, hdb]
    exact h.owner
  · intro r hr
    change command.reply = some r at hr
    rw [hreply] at hr
    obtain ⟨db, hd, hp⟩ := h.reply r hr
    exact ⟨db, hdb.trans hd, hp⟩

variable {instances : DbId → Instance}

theorem validateCommandState_cases {action : Bytes} {db : DbId} {s : Session ρ} {b : Bool} {s' : Session ρ}
    (h : validateCommandState instances action db s = .ok (b, s')) :
    s'.state = s.state ∧ s'.trace = s.trace ∧
      (b = true → 1 ≤ s.state.command.argc ∧ s.state.command.db = some db) := by
  unfold validateCommandState at h
  dsimp only at h
  by_cases hargc : s.state.command.argc < 1
  · rw [if_pos hargc] at h
    obtain ⟨rfl, rfl⟩ := Prod.mk.inj (Except.ok.inj h)
    exact ⟨rfl, rfl, nofun⟩
  · rw [if_neg hargc] at h
    by_cases hdb : s.state.command.db = some db
    · rw [if_neg (not_not.mpr hdb)] at h
      obtain ⟨rfl, rfl⟩ := Prod.mk.inj (Except.ok.inj h)
      exact ⟨rfl, rfl, fun _ => ⟨not_lt.mp hargc, hdb⟩⟩
    · rw [if_pos hdb] at h
      cases howner : s.state.command.db with
      | none =>
        rw [howner] at h
        cases h
      | some owner =>
        rw [howner] at h
        obtain ⟨rfl, rfl⟩ := Prod.mk.inj (Except.ok.inj h)
        exact ⟨rfl, rfl, nofun⟩

theorem validateCommandState_safe {s : Session ρ} (h : Owned s) (action : Bytes) (db : DbId) :
    validateCommandState instances action db s ≠ .error .nullDatabase := by
  intro he
  unfold validateCommandState at he
  dsimp only at he
  by_cases hargc : s.state.command.argc < 1
  · rw [if_pos hargc] at he
    cases he
  · rw [if_neg hargc] at he
    obtain ⟨owner, howner⟩ := Option.isSome_iff_exists.mp (h.owner.mp (not_lt.mp hargc))
    by_cases hdb : s.state.command.db = some db
    · rw [if_neg (not_not.mpr hdb)] at he
      cases he
    · rw [if_pos hdb, howner] at he
      cases he

theorem withCommand_keeps {action : Bytes} {db : DbId} {body : Session ρ → Except Crash (Session ρ)}
    (hbody : ∀ s s', Owned s → 1 ≤ s.state.command.argc → s.state.command.db = some db → body s = .ok s' → Owned s') :
    Keeps (withCommand instances action db body) := by
  intro s s' h he
  have hkept : Owned (getTaskState false s) := h.congr rfl rfl
  unfold withCommand at he
  cases hv : validateCommandState instances action db (getTaskState false s) with
  | error e =>
    rw [hv] at he
    cases he
  | ok r =>
    obtain ⟨b, t⟩ := r
    obtain ⟨hstate, htrace, hvalid⟩ := validateCommandState_cases hv
    have ht : Owned t := hkept.congr hstate htrace
    rw [hv] at he
    cases b with
    | false =>
      obtain rfl := Except.ok.inj he
      exact ht
    | true =>
      obtain ⟨hargc, hdb⟩ := hvalid rfl
      rw [← hstate] at hargc hdb
      exact hbody t s' ht hargc hdb he

theorem vmodDbCommand_owned {s : Session ρ} (h : Owned s) (db : DbId) (name : Option Bytes) :
    Owned (vmodDbCommand instances db name s) := by
  unfold vmodDbCommand
  by_cases hempty : isEmptyString name = true
  · rw [if_pos hempty]
    exact h.congr rfl rfl
  · rw [if_neg hempty]
    exact ⟨(by decide : 1 ≤ maxRedisCommandArgs), iff_of_true le_rfl rfl, nofun⟩

theorem vmodDbTimeout_keeps (db : DbId) (t : ℤ) : Keeps fun s : Session ρ => vmodDbTimeout instances db t s := by
  apply withCommand_keeps
  intro s s' h _ _ he
  obtain rfl := Except.ok.inj he
  exact h.setCommand h.argc_le Iff.rfl rfl rfl

theorem vmodDbRetries_keeps (db : DbId) (n : ℤ) : Keeps fun s : Session ρ => vmodDbRetries instances db n s := by
  apply withCommand_keeps
  intro s s' h _ _ he
  obtain rfl := Except.ok.inj he
  exact h.setCommand h.argc_le Iff.rfl rfl rfl

theorem pushArg_owned {s : Session ρ} (h : Owned s) (hroom : s.state.command.argc < maxRedisCommandArgs)
    (hargc : 1 ≤ s.state.command.argc) (arg : Option Bytes) : Owned (pushArg arg s) :=
  h.setCommand hroom (iff_of_true (Nat.le_add_left 1 _) hargc) rfl rfl

theorem vmodDbPush_keeps (db : DbId) (arg : Option Bytes) (copied : Bool) :
    Keeps fun s : Session ρ => vmodDbPush instances db arg copied s := by
  apply withCommand_keeps
  intro s s' h hargc _ he
  by_cases hroom : s.state.command.argc < maxRedisCommandArgs
  · rw [if_pos hroom] at he
    cases arg with
    | some arg =>
      obtain rfl := Except.ok.inj he
      exact pushArg_owned h hroom hargc _
    | none =>
      cases copied with
      | true =>
        obtain rfl := Except.ok.inj he
        exact pushArg_owned h hroom hargc _
      | false =>
        obtain rfl := Except.ok.inj he
        exact h.congr rfl rfl
  · rw [if_neg hroom] at he
    obtain rfl := Except.ok.inj he
    exact h.congr rfl rfl

theorem countError_kept (instances : DbId → Instance) (content : ρ → Reply) (db : DbId) (reply : Option ρ) (s : Session ρ) :
    (countError instances content db reply s).state = s.state ∧
      (countError instances content db reply s).trace = s.trace := by
  unfold countError
  split <;> exact ⟨rfl, rfl⟩

theorem storeReply_owned {s : Session ρ} (h : Owned s) {db : DbId} (hdb : s.state.command.db = some db) (argv : Argv)
    (reply : Option ρ) : Owned (storeReply db argv reply s) where
  argc_le := h.argc_le
  owner := h.owner
  reply _ hr := ⟨db, hdb, [], s.trace, congrArg (fun reply => TaskEvent.executed db reply :: s.trace) hr,
    fun _ => List.not_mem_nil⟩

variable {content : ρ → Reply}

theorem vmodDbExecute_keeps (run : Runner ρ) (db : DbId) (master : Bool) :
    Keeps (vmodDbExecute instances content run db master) := by
  apply withCommand_keeps
  intro s s' h _ hdb he
  dsimp only at he
  split at he
  · cases he
  · split at he
    · cases he
    · next argv reply _ =>
      obtain rfl := Except.ok.inj he
      obtain ⟨hstate, htrace⟩ := countError_kept instances content db reply (storeReply db argv reply s)
      exact (storeReply_owned h hdb argv reply).congr hstate htrace

theorem handleOption_keeps {α : Type} {f : α → Session ρ → Except Crash (Session ρ)} (hf : ∀ a, Keeps (f a))
    (a : Option α) : Keeps (handleOption f a) := by
  cases a with
  | some a => exact hf a
  | none =>
    intro s s' h he
    obtain rfl := Except.ok.inj he
    exact h

theorem vmodDbEasyExecute_keeps (run : Runner ρ) (db : DbId) (args : EasyArgs) :
    Keeps (vmodDbEasyExecute instances content run db args) := by
  have hargs : Keeps fun s : Session ρ => (List.finRange 16).foldlM (handleArg instances db args) s :=
    Keeps.foldlM (fun n => handleOption_keeps (fun arg => vmodDbPush_keeps db arg (args.copied n)) (args.cmdArg n)) _
  have htimeout : Keeps fun s : Session ρ => handleOption (vmodDbTimeout instances db) args.timeout s :=
    handleOption_keeps (vmodDbTimeout_keeps db) _
  have hretries : Keeps fun s : Session ρ => handleOption (vmodDbRetries instances db) args.retries s :=
    handleOption_keeps (vmodDbRetries_keeps db) _
  have hexecute : Keeps (vmodDbExecute instances content run db args.master) := vmodDbExecute_keeps run db args.master
  have hall := hargs.bind (htimeout.bind (hretries.bind hexecute))
  intro s s' h he
  unfold vmodDbEasyExecute at he
  by_cases hempty : isEmptyString args.command = true
  · rw [if_pos hempty] at he
    obtain rfl := Except.ok.inj he
    exact h.congr rfl rfl
  · rw [if_neg hempty] at he
    exact hall _ s' (vmodDbCommand_owned h db args.command) he

theorem Method.call_keeps (run : Runner ρ) (db : DbId) (method : Method) :
    Keeps (method.call instances content run db) := by
  cases method with
  | command name =>
    intro s s' h he
    obtain rfl := Except.ok.inj he
    exact vmodDbCommand_owned h db name
  | timeout t => exact vmodDbTimeout_keeps db t
  | retries n => exact vmodDbRetries_keeps db n
  | push arg copied => exact vmodDbPush_keeps db arg copied
  | execute master => exact vmodDbExecute_keeps run db master
  | easyExecute args => exact vmodDbEasyExecute_keeps run db args
  | free =>
    intro s s' _ he
    obtain rfl := Except.ok.inj he
    exact .flush s

theorem vmodUse_owned (config : List DbId) (name : Option Bytes) (s : Session ρ) :
    Owned (vmodUse instances config name s) := by
  have hset : ∀ db, Owned ((getTaskState true s).set { (getTaskState true s).state with db := db }) :=
    fun db => ⟨(Owned.flush s).argc_le, (Owned.flush s).owner, (Owned.flush s).reply⟩
  unfold vmodUse
  dsimp only
  split_ifs
  · exact (hset _).congr rfl rfl
  · exact hset _

theorem proxied_keeps (config : List DbId) (name : Option Bytes) (run : Runner ρ) (method : Method) :
    Keeps (proxied instances content config name run method) := by
  intro s s' h he
  unfold proxied at he
  dsimp only at he
  have hkept : Owned (if isEmptyString name then getTaskState false s else s) := by
    split_ifs
    · exact h.congr rfl rfl
    · exact h
  split at he
  · exact method.call_keeps run _ _ s' hkept he
  · obtain rfl := Except.ok.inj he
    exact hkept.congr rfl rfl

theorem Step.owned {config : List DbId} {s s' : Session ρ} (hs : Step instances config content s s') (h : Owned s) :
    Owned s' := by
  cases hs with
  | method _ run db method he => exact method.call_keeps run db s s' h he
  | proxied _ run name method he => exact proxied_keeps config name run method s s' h he
  | use name => exact vmodUse_owned config name s
  | access => exact h.congr rfl rfl

theorem reachable_owned {config : List DbId} {s : Session ρ} (hr : (task instances config content).Reachable s) :
    Owned s := by
  refine System.invariant (P := Owned) ?_ (fun s s' _ h hs => Step.owned hs h) hr
  rintro s ⟨hpriv, -⟩
  have hstate : s.state = newTaskState := by
    unfold Session.state
    rw [hpriv]
    rfl
  refine ⟨?_, ?_, ?_⟩
  · rw [hstate]
    exact Nat.zero_le _
  · rw [hstate]
    exact iff_of_false (Nat.not_succ_le_zero 0) Bool.false_ne_true
  · rw [hstate]
    exact nofun

end

/-- However its instances are mixed, a task never has more arguments than fit, it has some if and only
if an instance owns them, and a reply belongs to that instance. -/
theorem task_owned {instances : DbId → Instance} {config : List DbId} {s : Session Reply}
    (hr : (task instances config id).Reachable s) :
    s.state.command.argc ≤ maxRedisCommandArgs ∧ (1 ≤ s.state.command.argc ↔ s.state.command.db.isSome) ∧
      (∀ action db, validateCommandState instances action db s ≠ .error .nullDatabase) ∧
      (∀ r, s.state.command.reply = some r → ∃ db, s.state.command.db = some db ∧ Produced s.trace db r) ∧
      ∀ db, s.state.command.db ≠ some db → observe db s = .none := by
  have h := reachable_owned hr
  exact ⟨h.argc_le, h.owner, validateCommandState_safe h, h.reply, fun _ => observe_other⟩

def masters : DbId → Instance := fun d =>
  { id := d, connectionTtl := 0, maxCommandRetries := 0, sharedConnections := false, maxConnections := 1, tls := .off,
    sicknessTtl := 0, ignoreSlaves := false, clusterEnabled := false, maxHops := 0,
    name := bytes "master" ++ decimal (d + 1), commandTimeout := ⟨0, 0⟩ }

def untouched : Session Reply := ⟨none, [], fun _ => 0, []⟩

theorem task_owned_masters : ∃ s : Session Reply, s.state.command.reply = some (.string (bytes "Hello world!")) ∧
    s.state.command.argc ≤ maxRedisCommandArgs ∧ observe 1 s = .none := by
  have h0 : (task masters [0, 1] id).Reachable untouched := System.reachable_init ⟨rfl, rfl⟩
  have h1 := h0.step (.use untouched (some (bytes "master1")))
  have h2 := h1.step (.proxied _ _ (fun _ _ argv => .ok (argv, none)) none (.command (some (bytes "GET"))) rfl)
  have h3 := h2.step (.method _ _ (fun _ _ argv => .ok (argv, some (.string (bytes "Hello world!")))) 0
    (.execute true) rfl)
  obtain ⟨hargc, -, -, -, hother⟩ := task_owned h3
  exact ⟨_, rfl, hargc, hother 1 (by decide)⟩

end VmodRedis.TaskCommands
