import VmodRedis.PlanExhaustion
import VmodRedis.ReplyOwnership
import VmodRedis.TaskInvariant

namespace VmodRedis.TaskOwnership

open CStrings Replies Database Ownership ReplyOwnership TransitionSystem TaskCommands
open ClusterExecution (ClusterInput)
open Execution (Argv World)

structure Task where
  session : Session Ref
  ledger : Ledger

namespace Task

def held (t : Task) : List ℕ := refs t.session.state.command.reply

def freed (t : Task) : Ledger := freeReplyObject t.session.state.command.reply t.ledger

def lift (f : Session Ref → Except Crash (Session Ref)) (t : Task) : Except Crash Task :=
  (f t.session).map fun s => { t with session := s }

end Task

structure Env where
  sha1 : Bytes → Bytes
  fuel : ℕ
  input : ClusterInput
  world : World

namespace Env

def execute (env : Env) (maxRetries : ℕ) (master : Bool) (argv : Argv) (l : Ledger) : Executed :=
  dbExecute env.sha1 env.fuel env.input maxRetries master argv env.world l

def run (env : Env) (l : Ledger) : Runner Ref := fun maxRetries master argv =>
  (env.execute maxRetries master argv l).outcome.map fun o => ((env.execute maxRetries master argv l).argv, o.2)

def Copied (env : Env) : Prop := ∀ i j, ReplyOwnership.Copied ((env.input.call i).attempt j)

end Env

section

variable (instances : DbId → Instance) (config : List DbId) (env : Env)

/-- The previous reply, if there is one, is overwritten. -/
def vmodDbExecute (db : DbId) (master : Bool) (t : Task) : Except Crash Task :=
  match validateCommandState instances (bytes "execute command") db (getTaskState false t.session) with
  | .error e => .error e
  | .ok (false, s) => .ok { t with session := s }
  | .ok (true, s) =>
    let command := s.state.command
    let master := master || (instances db).ignoreSlaves
    match (if master then .ok true else forcesMaster (instances db) (command.argv 0)) with
    | .error f => .error (.fault f)
    | .ok master =>
      let r := env.execute command.maxRetries master command.args t.ledger
      match r.outcome with
      | .error f => .error (.fault f)
      | .ok (l, reply) => .ok ⟨countError instances Prod.snd db reply (storeReply db r.argv reply s), l⟩

def enqueue (db : DbId) (args : EasyArgs) (s : Session Ref) : Except Crash (Session Ref) := do
  let s ← (List.finRange 16).foldlM (handleArg instances db args) s
  let s ← handleOption (vmodDbTimeout instances db) args.timeout s
  handleOption (vmodDbRetries instances db) args.retries s

def vmodDbCommand (db : DbId) (name : Option Bytes) (t : Task) : Task :=
  ⟨TaskCommands.vmodDbCommand instances db name t.session, if isEmptyString name then t.ledger else t.freed⟩

def vmodDbEasyExecute (db : DbId) (args : EasyArgs) (t : Task) : Except Crash Task :=
  if isEmptyString args.command then
    .ok { t with session := t.session.logError (bytes "Failed to enqueue command (db=" ++ (instances db).name ++
      bytes "): empty command name") }
  else do
    let t ← (vmodDbCommand instances db args.command t).lift (enqueue instances db args)
    vmodDbExecute instances env db args.master t

def call (db : DbId) : Method → Task → Except Crash Task
  | .command name, t => .ok (vmodDbCommand instances db name t)
  | .timeout n, t => t.lift (vmodDbTimeout instances db n)
  | .retries n, t => t.lift (vmodDbRetries instances db n)
  | .push arg copied, t => t.lift (vmodDbPush instances db arg copied)
  | .execute master, t => vmodDbExecute instances env db master t
  | .easyExecute args, t => vmodDbEasyExecute instances env db args t
  | .free, t => .ok ⟨vmodDbFree t.session, t.freed⟩

def vmodUse (name : Option Bytes) (t : Task) : Task := ⟨TaskCommands.vmodUse instances config name t.session, t.freed⟩

def selected (name : Option Bytes) (s : Session Ref) : Option DbId :=
  if isEmptyString name then s.state.db else namedInstance instances config name

def proxied (name : Option Bytes) (method : Method) (t : Task) : Except Crash Task :=
  let s := if isEmptyString name then getTaskState false t.session else t.session
  match selected instances config name s with
  | some db => call instances env db method { t with session := s }
  | none => .ok { t with session := s.logError (bytes "Database instance not available") }

def freeTaskState (t : Task) : Ledger := t.freed

inductive Call where
  | method (env : Env) (db : DbId) (method : Method)
  | proxied (env : Env) (name : Option Bytes) (method : Method)
  | use (name : Option Bytes)
  | access

def Call.run : Call → Task → Except Crash Task
  | .method env db m, t => call instances env db m t
  | .proxied env name m, t => TaskOwnership.proxied instances config env name m t
  | .use name, t => .ok (vmodUse instances config name t)
  | .access, t => .ok { t with session := getTaskState false t.session }

def Fresh (db : DbId) (t : Task) : Prop :=
  1 ≤ t.session.state.command.argc → t.session.state.command.db = some db → t.session.state.command.reply = none

def Safe (env : Env) (db : DbId) (t : Task) : Method → Prop
  | .execute _ => Fresh db t ∧ env.Copied
  | .easyExecute _ => env.Copied
  | _ => True

def Call.Careful (t : Task) : Call → Prop
  | .method env db m => Safe env db t m
  | .proxied env name m => ∀ db, selected instances config name t.session = some db → Safe env db t m
  | _ => True

def task (condition : Task → Call → Prop) : System Task where
  init t := t.session.priv = none ∧ t.session.trace = [] ∧ t.ledger = .empty
  step t t' := ∃ call, condition t call ∧ call.run instances config t = .ok t'

end

section

variable {instances : DbId → Instance} {config : List DbId} {env : Env}

theorem ok_of_bind {ε α β : Type} {x : Except ε α} {f : α → Except ε β} {b : β} (h : x >>= f = .ok b) :
    ∃ a, x = .ok a ∧ f a = .ok b := by
  cases x with
  | error e => cases h
  | ok a => exact ⟨a, rfl, h⟩

theorem ok_of_map {ε α β : Type} {x : Except ε α} {f : α → β} {b : β} (h : x.map f = .ok b) :
    ∃ a, x = .ok a ∧ f a = b := by
  cases x with
  | error e => cases h
  | ok a => exact ⟨a, rfl, Except.ok.inj h⟩

theorem ok_of_toOption {ε α β : Type} {x : Except ε α} {f : α → β} {b : β} (h : x.toOption.map f = some b) :
    ∃ a, x = .ok a ∧ f a = b := by
  cases x with
  | error e => cases h
  | ok a => exact ⟨a, rfl, Option.some.inj h⟩

def KeepsReply (f : Session Ref → Except Crash (Session Ref)) : Prop :=
  ∀ s s', f s = .ok s' → s'.state.command.reply = s.state.command.reply

theorem withCommand_keepsReply {action : Bytes} {db : DbId} {body : Session Ref → Except Crash (Session Ref)}
    (hbody : KeepsReply body) : KeepsReply (withCommand instances action db body) := by
  intro s s' h
  unfold withCommand at h
  cases hv : validateCommandState instances action db (getTaskState false s) with
  | error e =>
    rw [hv] at h
    cases h
  | ok r =>
    obtain ⟨valid, u⟩ := r
    obtain ⟨hstate, -, -⟩ := validateCommandState_cases hv
    have hreply : u.state.command.reply = s.state.command.reply := by
      rw [hstate]
      rfl
    rw [hv] at h
    cases valid with
    | false =>
      obtain rfl := Except.ok.inj h
      exact hreply
    | true => exact (hbody u s' h).trans hreply

theorem vmodDbTimeout_keepsReply (db : DbId) (n : ℤ) : KeepsReply (vmodDbTimeout instances db n) := by
  apply withCommand_keepsReply
  intro s s' h
  obtain rfl := Except.ok.inj h
  rfl

theorem vmodDbRetries_keepsReply (db : DbId) (n : ℤ) : KeepsReply (vmodDbRetries instances db n) := by
  apply withCommand_keepsReply
  intro s s' h
  obtain rfl := Except.ok.inj h
  rfl

theorem vmodDbPush_keepsReply (db : DbId) (arg : Option Bytes) (copied : Bool) :
    KeepsReply (vmodDbPush instances db arg copied) := by
  apply withCommand_keepsReply
  intro s s' h
  dsimp only at h
  by_cases hroom : s.state.command.argc < maxRedisCommandArgs
  · rw [if_pos hroom] at h
    cases arg with
    | some arg =>
      obtain rfl := Except.ok.inj h
      rfl
    | none =>
      cases copied <;>
      · obtain rfl := Except.ok.inj h
        rfl
  · rw [if_neg hroom] at h
    obtain rfl := Except.ok.inj h
    rfl

theorem handleOption_keepsReply {α : Type} {f : α → Session Ref → Except Crash (Session Ref)}
    (hf : ∀ a, KeepsReply (f a)) (a : Option α) : KeepsReply (handleOption f a) := by
  cases a with
  | some a => exact hf a
  | none =>
    intro s s' h
    obtain rfl := Except.ok.inj h
    rfl

theorem handleArgs_keepsReply (db : DbId) (args : EasyArgs) (ns : List (Fin 16)) :
    KeepsReply fun s => ns.foldlM (handleArg instances db args) s := by
  induction ns with
  | nil =>
    intro s s' h
    obtain rfl := Except.ok.inj h
    rfl
  | cons n ns ih =>
    intro s s' h
    dsimp only at h
    rw [List.foldlM_cons] at h
    obtain ⟨u, hu, h⟩ := ok_of_bind h
    have hn : KeepsReply fun s => handleArg instances db args s n := by
      apply handleOption_keepsReply
      intro arg
      exact vmodDbPush_keepsReply db arg _
    exact (ih u s' h).trans (hn s u hu)

theorem enqueue_keepsReply (db : DbId) (args : EasyArgs) : KeepsReply (enqueue instances db args) := by
  intro s s' h
  obtain ⟨u, hargs, h⟩ := ok_of_bind h
  obtain ⟨v, htimeout, hretries⟩ := ok_of_bind h
  calc s'.state.command.reply
      = v.state.command.reply := handleOption_keepsReply (vmodDbRetries_keepsReply db) _ v s' hretries
    _ = u.state.command.reply := handleOption_keepsReply (vmodDbTimeout_keepsReply db) _ u v htimeout
    _ = s.state.command.reply := handleArgs_keepsReply db args _ s u hargs

def Accounted (t : Task) : Prop := Owns t.ledger t.held

theorem Accounted.congr {t t' : Task} (h : Accounted t) (hl : t'.ledger = t.ledger)
    (hr : t'.session.state.command.reply = t.session.state.command.reply) : Accounted t' := by
  unfold Accounted Task.held
  rw [hl, hr]
  exact h

theorem Accounted.freed {t : Task} (h : Accounted t) : Owns t.freed [] := by
  apply freeReplyObject_owns
  rw [List.append_nil]
  exact h

theorem lift_accounted {f : Session Ref → Except Crash (Session Ref)} {t t' : Task} (hf : KeepsReply f)
    (h : Accounted t) (he : t.lift f = .ok t') : Accounted t' := by
  obtain ⟨s, hs, rfl⟩ := ok_of_map he
  exact h.congr rfl (hf _ _ hs)

theorem vmodDbCommand_accounted {t : Task} (h : Accounted t) (db : DbId) (name : Option Bytes) :
    Accounted (vmodDbCommand instances db name t) := by
  unfold vmodDbCommand TaskCommands.vmodDbCommand
  by_cases hempty : isEmptyString name = true
  · rw [if_pos hempty, if_pos hempty]
    exact h.congr rfl rfl
  · rw [if_neg hempty, if_neg hempty]
    exact h.freed

theorem vmodDbExecute_accounted {db : DbId} {master : Bool} {t t' : Task} (hcopied : env.Copied) (hfresh : Fresh db t)
    (h : Accounted t) (he : vmodDbExecute instances env db master t = .ok t') : Accounted t' := by
  unfold vmodDbExecute at he
  cases hv : validateCommandState instances (bytes "execute command") db (getTaskState false t.session) with
  | error e =>
    rw [hv] at he
    cases he
  | ok r =>
    obtain ⟨valid, s⟩ := r
    obtain ⟨hstate, -, hvalid⟩ := validateCommandState_cases hv
    rw [hv] at he
    cases valid with
    | false =>
      obtain rfl := Except.ok.inj he
      have hreply : s.state.command.reply = t.session.state.command.reply := by
        rw [hstate]
        rfl
      exact h.congr rfl hreply
    | true =>
      obtain ⟨hargc, hdb⟩ := hvalid rfl
      have hnone : Owns t.ledger [] := by
        have hheld : t.held = [] := by
          unfold Task.held
          rw [hfresh hargc hdb]
          rfl
        rw [← hheld]
        exact h
      dsimp only at he
      split at he
      · cases he
      · next forced _ =>
        obtain ⟨r, hr⟩ : ∃ r, r = env.execute s.state.command.maxRetries forced s.state.command.args t.ledger :=
          ⟨_, rfl⟩
        rw [← hr] at he
        obtain ⟨w, argv, retries, f | ⟨l, reply⟩⟩ := r
        · cases he
        obtain rfl := Except.ok.inj he
        have howned : Owns l (refs reply ++ []) := dbExecute_owns hcopied hnone (congrArg Executed.outcome hr.symm)
        obtain ⟨hkept, -⟩ := countError_kept instances Prod.snd db reply (storeReply db argv reply s)
        rw [List.append_nil] at howned
        unfold Accounted Task.held
        dsimp only
        rw [hkept]
        exact howned

theorem vmodDbEasyExecute_accounted {db : DbId} {args : EasyArgs} {t t' : Task} (hcopied : env.Copied)
    (h : Accounted t) (he : vmodDbEasyExecute instances env db args t = .ok t') : Accounted t' := by
  unfold vmodDbEasyExecute at he
  by_cases hempty : isEmptyString args.command = true
  · rw [if_pos hempty] at he
    obtain rfl := Except.ok.inj he
    exact h.congr rfl rfl
  · rw [if_neg hempty] at he
    obtain ⟨u, hu, he⟩ := ok_of_bind he
    have hcommand : Accounted (vmodDbCommand instances db args.command t) := vmodDbCommand_accounted h db args.command
    have hu' : Accounted u := lift_accounted (enqueue_keepsReply db args) hcommand hu
    refine vmodDbExecute_accounted hcopied (fun _ _ => ?_) hu' he
    obtain ⟨s, hs, rfl⟩ := ok_of_map hu
    have hflushed : (vmodDbCommand instances db args.command t).session.state.command.reply = none := by
      unfold vmodDbCommand TaskCommands.vmodDbCommand
      rw [if_neg hempty]
      rfl
    exact (enqueue_keepsReply db args _ s hs).trans hflushed

theorem call_accounted {db : DbId} {method : Method} {t t' : Task} (hsafe : Safe env db t method)
    (h : Accounted t) (he : call instances env db method t = .ok t') : Accounted t' := by
  cases method with
  | command name =>
    obtain rfl := Except.ok.inj he
    exact vmodDbCommand_accounted h db name
  | timeout n => exact lift_accounted (vmodDbTimeout_keepsReply db n) h he
  | retries n => exact lift_accounted (vmodDbRetries_keepsReply db n) h he
  | push arg copied => exact lift_accounted (vmodDbPush_keepsReply db arg copied) h he
  | execute master => exact vmodDbExecute_accounted hsafe.2 hsafe.1 h he
  | easyExecute args => exact vmodDbEasyExecute_accounted hsafe h he
  | free =>
    obtain rfl := Except.ok.inj he
    exact h.freed

theorem vmodUse_accounted {t : Task} (h : Accounted t) (name : Option Bytes) :
    Accounted (vmodUse instances config name t) := by
  have hreply : (vmodUse instances config name t).session.state.command.reply = none := by
    unfold vmodUse TaskCommands.vmodUse
    dsimp only
    split_ifs <;> rfl
  unfold Accounted Task.held
  rw [hreply]
  exact h.freed

theorem Call.run_accounted {c : Call} {t t' : Task} (hcareful : c.Careful instances config t) (h : Accounted t)
    (he : c.run instances config t = .ok t') : Accounted t' := by
  cases c with
  | method env db m => exact call_accounted hcareful h he
  | proxied env name m =>
    unfold Call.run TaskOwnership.proxied at he
    dsimp only at he
    obtain ⟨s, hs⟩ : ∃ s, s = if isEmptyString name then getTaskState false t.session else t.session := ⟨_, rfl⟩
    have hstate : s.state = t.session.state := by
      rw [hs]
      split_ifs <;> rfl
    rw [← hs] at he
    have hkept : Accounted { t with session := s } := h.congr rfl (by rw [hstate])
    cases hdb : selected instances config name s with
    | none =>
      rw [hdb] at he
      obtain rfl := Except.ok.inj he
      exact hkept.congr rfl rfl
    | some db =>
      rw [hdb] at he
      have hselected : selected instances config name t.session = some db := by
        rw [← hdb]
        unfold selected
        rw [hstate]
      have hsafe : Safe env db { t with session := s } m := by
        have hs := hcareful db hselected
        cases m with
        | execute master =>
          refine ⟨?_, hs.2⟩
          unfold Fresh
          rw [hstate]
          exact hs.1
        | _ => exact hs
      exact call_accounted hsafe hkept he
  | use name =>
    obtain rfl := Except.ok.inj he
    exact vmodUse_accounted h name
  | access =>
    obtain rfl := Except.ok.inj he
    exact h.congr rfl rfl

theorem reachable_accounted {t : Task} (hr : (task instances config (Call.Careful instances config)).Reachable t) :
    Accounted t := by
  refine System.invariant (P := Accounted) ?_ ?_ hr
  · rintro t ⟨hpriv, -, hl⟩
    have hreply : t.held = [] := by
      unfold Task.held Session.state
      rw [hpriv]
      rfl
    unfold Accounted
    rw [hreply, hl]
    exact .empty
  · rintro t t' - h ⟨c, hc, he⟩
    exact c.run_accounted hc h he

theorem vmodDbExecute_session {db : DbId} {master : Bool} {t t' : Task}
    (he : vmodDbExecute instances env db master t = .ok t') :
    TaskCommands.vmodDbExecute instances Prod.snd (env.run t.ledger) db master t.session = .ok t'.session := by
  unfold vmodDbExecute at he
  unfold TaskCommands.vmodDbExecute withCommand
  generalize validateCommandState instances (bytes "execute command") db (getTaskState false t.session) = v at he ⊢
  obtain e | ⟨_ | _, s⟩ := v
  · cases he
  · obtain rfl := Except.ok.inj he
    rfl
  dsimp only at he ⊢
  generalize (if (master || (instances db).ignoreSlaves) = true then Except.ok true
    else forcesMaster (instances db) (s.state.command.argv 0)) = forced at he ⊢
  obtain f | forced := forced
  · cases he
  dsimp only [Env.run] at he ⊢
  generalize env.execute s.state.command.maxRetries forced s.state.command.args t.ledger = r at he ⊢
  obtain ⟨w, argv, retries, f | ⟨l, reply⟩⟩ := r
  · cases he
  · obtain rfl := Except.ok.inj he
    rfl

theorem vmodDbEasyExecute_session {db : DbId} {args : EasyArgs} {t t' : Task}
    (he : vmodDbEasyExecute instances env db args t = .ok t') :
    ∃ run, TaskCommands.vmodDbEasyExecute instances Prod.snd run db args t.session = .ok t'.session := by
  unfold vmodDbEasyExecute at he
  unfold TaskCommands.vmodDbEasyExecute
  by_cases hempty : isEmptyString args.command = true
  · rw [if_pos hempty] at he
    obtain rfl := Except.ok.inj he
    refine ⟨env.run t.ledger, ?_⟩
    rw [if_pos hempty]
  · rw [if_neg hempty] at he
    obtain ⟨u, hu, he⟩ := ok_of_bind he
    obtain ⟨s, hs, rfl⟩ := ok_of_map hu
    refine ⟨env.run (vmodDbCommand instances db args.command t).ledger, ?_⟩
    rw [if_neg hempty]
    obtain ⟨a, ha, hs⟩ := ok_of_bind hs
    obtain ⟨b, hb, hs⟩ := ok_of_bind hs
    have hexecute := vmodDbExecute_session he
    change (List.finRange 16).foldlM (handleArg instances db args) (TaskCommands.vmodDbCommand instances db args.command
      t.session) = .ok a at ha
    rw [ha]
    change (handleOption (vmodDbTimeout instances db) args.timeout a >>= _) = _
    rw [hb]
    change (handleOption (vmodDbRetries instances db) args.retries b >>= _) = _
    rw [hs]
    exact hexecute

theorem lift_session {f : Session Ref → Except Crash (Session Ref)} {t t' : Task} (he : t.lift f = .ok t') :
    f t.session = .ok t'.session := by
  obtain ⟨s, hs, rfl⟩ := ok_of_map he
  exact hs

theorem call_session {db : DbId} {method : Method} {t t' : Task} (he : call instances env db method t = .ok t') :
    ∃ run, method.call instances Prod.snd run db t.session = .ok t'.session := by
  cases method with
  | command name =>
    obtain rfl := Except.ok.inj he
    exact ⟨env.run t.ledger, rfl⟩
  | timeout n => exact ⟨env.run t.ledger, lift_session he⟩
  | retries n => exact ⟨env.run t.ledger, lift_session he⟩
  | push arg copied => exact ⟨env.run t.ledger, lift_session he⟩
  | execute master => exact ⟨_, vmodDbExecute_session he⟩
  | easyExecute args => exact vmodDbEasyExecute_session he
  | free =>
    obtain rfl := Except.ok.inj he
    exact ⟨env.run t.ledger, rfl⟩

theorem Call.run_session {c : Call} {t t' : Task} (he : c.run instances config t = .ok t') :
    Step instances config Prod.snd t.session t'.session := by
  cases c with
  | method env db m =>
    obtain ⟨run, hrun⟩ := call_session he
    exact .method _ _ run db m hrun
  | proxied env name m =>
    unfold Call.run TaskOwnership.proxied at he
    dsimp only at he
    obtain ⟨s, hs⟩ : ∃ s, s = if isEmptyString name then getTaskState false t.session else t.session := ⟨_, rfl⟩
    have hproxied : ∀ run, TaskCommands.proxied instances Prod.snd config name run m t.session =
        match selected instances config name s with
        | some db => m.call instances Prod.snd run db s
        | none => .ok (s.logError (bytes "Database instance not available")) := by
      rw [hs]
      exact fun _ => rfl
    rw [← hs] at he
    cases hdb : selected instances config name s with
    | none =>
      rw [hdb] at he
      obtain rfl := Except.ok.inj he
      refine .proxied _ _ (env.run t.ledger) name m ?_
      rw [hproxied, hdb]
    | some db =>
      rw [hdb] at he
      obtain ⟨run, hrun⟩ := call_session he
      refine .proxied _ _ run name m ?_
      rw [hproxied, hdb]
      exact hrun
  | use name =>
    obtain rfl := Except.ok.inj he
    exact .use t.session name
  | access =>
    obtain rfl := Except.ok.inj he
    exact .access t.session

/-- But for the objects, the runs are those of the private data of a task. -/
def session (instances : DbId → Instance) (config : List DbId) (condition : Task → Call → Prop) :
    Refinement (task instances config condition) (TaskCommands.task instances config (Prod.snd : Ref → Reply)) where
  abs := Task.session
  init _ h := ⟨h.1, h.2.1⟩
  step := by
    rintro t t' - ⟨c, -, he⟩
    exact .single (c.run_session he)

end

/-- In a run in which no command is executed again while it has a reply, and the name of `EVAL` can always
be copied when it is needed, a reply is live if and only if it is in the private data, and once these are
released each reply was released, and once. -/
theorem replies_released_once {instances : DbId → Instance} {config : List DbId} {t : Task}
    (hr : (task instances config (Call.Careful instances config)).Reachable t) :
    (∀ id, id < t.ledger.obtained ∧ id ∉ t.ledger.released ↔ id ∈ t.held) ∧ t.ledger.released.Nodup ∧
      ∀ id < (freeTaskState t).obtained, (freeTaskState t).released.count id = 1 := by
  have h := reachable_accounted hr
  refine ⟨fun _ => h.live_iff, h.released_nodup, ?_⟩
  intro id hid
  exact h.freed.released_once hid

def unstarted : Task := ⟨⟨none, [], fun _ => 0, []⟩, .empty⟩

def answered : Env where
  sha1 := id
  fuel := 0
  input := ⟨fun _ => ⟨⟨true, ⟨0, fun _ => 0, fun _ => false⟩, 1024, 1024⟩, fun _ =>
    ClusterExecution.answering (.string (bytes "v"))⟩, (ClusterExecution.redirecting []).redirect⟩
  world := ClusterExecution.idleWorld Execution.standalone

def execute : Call := .method answered 0 (.execute true)

theorem replies_released_once_answered : ∃ t : Task, t.held = [0] ∧ 0 ∉ t.ledger.released ∧
    (vmodDbCommand masters 0 (some (bytes "GET")) t).ledger.released = [0] ∧
    (freeTaskState t).released.count 0 = 1 := by
  have h0 : (task masters [0, 1] (Call.Careful masters [0, 1])).Reachable unstarted :=
    System.reachable_init ⟨rfl, rfl, rfl⟩
  have h1 := h0.step ⟨.method answered 0 (.command (some (bytes "GET"))), trivial, rfl⟩
  have hrun : ((execute.run masters [0, 1] (vmodDbCommand masters 0 (some (bytes "GET")) unstarted)).toOption.map fun t =>
      (t.held, (freeTaskState t).obtained, (vmodDbCommand masters 0 (some (bytes "GET")) t).ledger.released)) =
      some ([0], 1, [0]) := by decide +kernel
  obtain ⟨t, ht, hfacts⟩ := ok_of_toOption hrun
  obtain ⟨hheld, hobtained, hreleased⟩ : t.held = [0] ∧ _ ∧ _ := by simpa only [Prod.mk.injEq] using hfacts
  have h2 := h1.step ⟨execute, ⟨fun _ _ => rfl, fun _ _ _ _ _ _ => rfl⟩, ht⟩
  obtain ⟨hlive, -, honce⟩ := replies_released_once h2
  exact ⟨t, hheld, ((hlive 0).mpr (hheld ▸ List.mem_singleton_self 0)).2, hreleased, honce 0 (hobtained ▸ Nat.zero_lt_one)⟩

theorem reply_overwritten :
    ¬ ∀ (instances : DbId → Instance) (config : List DbId) (t : Task),
      (task instances config fun _ _ => True).Reachable t →
        ∀ id < (freeTaskState t).obtained, (freeTaskState t).released.count id = 1 := by
  intro h
  have h0 : (task masters [0, 1] fun _ _ => True).Reachable unstarted := System.reachable_init ⟨rfl, rfl, rfl⟩
  have h1 := h0.step ⟨.method answered 0 (.command (some (bytes "GET"))), trivial, rfl⟩
  have hrun : ((execute.run masters [0, 1] (vmodDbCommand masters 0 (some (bytes "GET")) unstarted) >>=
      execute.run masters [0, 1]).toOption.map fun t => ((freeTaskState t).obtained, (freeTaskState t).released)) =
        some (2, [1]) := by decide +kernel
  obtain ⟨t, ht, hledger⟩ := ok_of_toOption hrun
  obtain ⟨u, hu, ht⟩ := ok_of_bind ht
  obtain ⟨hobtained, hreleased⟩ := Prod.mk.inj hledger
  have h2 := h1.step ⟨execute, trivial, hu⟩
  have h3 := h2.step ⟨execute, trivial, ht⟩
  have hcount := h masters [0, 1] t h3 0 (by rw [hobtained]; exact Nat.zero_lt_two)
  rw [hreleased] at hcount
  exact absurd hcount (by decide)

end VmodRedis.TaskOwnership
