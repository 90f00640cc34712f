import VmodRedis.ExecutionTrace

namespace VmodRedis.Execution

open CStrings Replies Database Connections Planning

def Event.isExchange : Event → Bool
  | .exchange _ _ _ _ _ => true
  | _ => false

/-- Sending commands through `c` changes nothing of the contexts but its error. -/
structure Exchanged (c : ContextId) (w w' : World) : Prop where
  task : w'.task = w.task
  nextContext : w'.nextContext = w.nextContext
  counts : CountsOnly w.db w'.db
  other : ∀ d, d ≠ c → w'.heap d = w.heap d
  location : (w'.heap c).db = (w.heap c).db ∧ (w'.heap c).server = (w.heap c).server
  logs : Logs (fun e => e.isExchange = true) w w'

namespace Exchanged

variable {c : ContextId} {w w' w'' : World}

theorem refl (c : ContextId) (w : World) : Exchanged c w w := ⟨rfl, rfl, .refl w.db, fun _ _ => rfl, ⟨rfl, rfl⟩, .refl w⟩

theorem trans (h : Exchanged c w w') (h' : Exchanged c w' w'') : Exchanged c w w'' where
  task := h'.task.trans h.task
  nextContext := h'.nextContext.trans h.nextContext
  counts := h.counts.trans h'.counts
  other d hd := (h'.other d hd).trans (h.other d hd)
  location := ⟨h'.location.1.trans h.location.1, h'.location.2.trans h.location.2⟩
  logs := h.logs.trans h'.logs

end Exchanged

theorem getRedisRepy_exchanged (answer : Command → Option Reply) (asking : Bool) (c : ContextId) (args : List Bytes)
    (w : World) : Exchanged c w (getRedisRepy answer asking c args w).1 := by
  unfold getRedisRepy
  dsimp only
  refine ⟨rfl, rfl, .refl w.db, ?_, ?_, ⟨[_], rfl, ?_⟩⟩
  · intro d hd
    exact Function.update_of_ne hd _ _
  · constructor
    · exact (congrArg Context.db (Function.update_self c _ w.heap) : (Function.update w.heap c _ c).db = _)
    · exact (congrArg Context.server (Function.update_self c _ w.heap) : (Function.update w.heap c _ c).server = _)
  · intro e he
    rw [List.mem_singleton.mp he]
    rfl

theorem send_exchanged (answer : Command → Option Reply) (asking : Bool) (c : ContextId) (argv : Argv) (w : World) :
    Exchanged c w (send answer asking c argv w).1 := by
  unfold send
  cases argv.mapM id with
  | none => exact .refl c w
  | some args => exact getRedisRepy_exchanged answer asking c args w

theorem readReplies_failed {answer : Command → Option Reply} {commands : List Command} {i : ℕ}
    (hi : i < commands.length) (h : ((readReplies answer commands).1[i]?).join = none) :
    (readReplies answer commands).2 = true := by
  induction commands generalizing i with
  | nil => exact absurd hi (Nat.not_lt_zero i)
  | cons command rest ih =>
    unfold readReplies at h ⊢
    cases ha : answer command with
    | none => rfl
    | some reply =>
      rw [ha] at h
      cases i with
      | zero => cases h
      | succ i => exact ih (Nat.lt_of_succ_lt_succ hi) h

theorem readReplies_unanswered {answer : Command → Option Reply} {commands : List Command}
    (h : (readReplies answer commands).2 = true) : ∃ command, answer command = none := by
  induction commands with
  | nil => cases h
  | cons command rest ih =>
    cases ha : answer command with
    | none => exact ⟨command, ha⟩
    | some reply =>
      unfold readReplies at h
      rw [ha] at h
      exact ih h

theorem send_failed {answer : Command → Option Reply} {asking : Bool} {c : ContextId} {argv : Argv} {w : World}
    (h : (send answer asking c argv w).2 = .ok none) :
    ((send answer asking c argv w).1.heap c).err = true ∧ ∃ command, answer command = none := by
  unfold send at h ⊢
  cases hargs : argv.mapM id with
  | none =>
    rw [hargs] at h
    cases h
  | some args =>
    rw [hargs] at h
    have hfailed : (readReplies answer (pipeline (isReadonly w c) asking args)).2 = true := by
      refine readReplies_failed ?_ (Except.ok.inj h)
      cases isReadonly w c <;> cases asking <;> simp [pipeline]
    refine ⟨?_, readReplies_unanswered hfailed⟩
    change (Function.update w.heap c _ c).err = true
    rw [Function.update_self]
    change ((w.heap c).err || (readReplies answer (pipeline (isReadonly w c) asking args)).2) = true
    rw [hfailed, Bool.or_true]

def Unanswered (input : AttemptInput) : Prop := ∃ command, input.first command = none ∨ input.second command = none

theorem Unanswered.first {input : AttemptInput} (h : ∃ command, input.first command = none) : Unanswered input := by
  obtain ⟨command, hcommand⟩ := h
  exact ⟨command, Or.inl hcommand⟩

theorem Unanswered.second {input : AttemptInput} (h : ∃ command, input.second command = none) : Unanswered input := by
  obtain ⟨command, hcommand⟩ := h
  exact ⟨command, Or.inr hcommand⟩

section

variable (sha1 : Bytes → Bytes)

theorem evaluate_exchanged (input : AttemptInput) (asking : Bool) (c : ContextId) (script : Bytes) (rest : Argv)
    (w : World) :
    Exchanged c w (evaluate sha1 input asking c script rest w).1 ∧
      ((evaluate sha1 input asking c script rest w).2.2 = .ok (.done none) →
        ((evaluate sha1 input asking c script rest w).1.heap c).err = true ∧ Unanswered input) := by
  unfold evaluate
  by_cases hevalsha : (!input.copies.evalsha) = true
  · rw [if_pos hevalsha]
    exact ⟨.refl c w, nofun⟩
  rw [if_neg hevalsha]
  by_cases hsha : (!input.copies.sha) = true
  · rw [if_pos hsha]
    exact ⟨.refl c w, nofun⟩
  rw [if_neg hsha]
  have hs := send_exchanged input.first asking c (some (bytes "EVALSHA") :: some (sha1 script) :: rest) w
  have hf := @send_failed input.first asking c (some (bytes "EVALSHA") :: some (sha1 script) :: rest) w
  dsimp only
  generalize send input.first asking c (some (bytes "EVALSHA") :: some (sha1 script) :: rest) w = r at hs hf ⊢
  obtain ⟨w', f | reply⟩ := r
  · exact ⟨hs, nofun⟩
  dsimp only at hs hf ⊢
  by_cases hnoscript : isNoscriptReply w' c reply = true
  · rw [if_pos hnoscript]
    by_cases heval : (!input.copies.eval) = true
    · rw [if_pos heval]
      exact ⟨hs, nofun⟩
    rw [if_neg heval]
    have hcount : Exchanged c w' (countNoscript w') := ⟨rfl, rfl, ⟨.setStats _ _ rfl rfl rfl, rfl⟩, fun _ _ => rfl, ⟨rfl, rfl⟩, .of_eq rfl⟩
    have hs' := send_exchanged input.second asking c (some (bytes "EVAL") :: some script :: rest) (countNoscript w')
    have hf' := @send_failed input.second asking c (some (bytes "EVAL") :: some script :: rest) (countNoscript w')
    generalize send input.second asking c (some (bytes "EVAL") :: some script :: rest) (countNoscript w') = r at hs' hf' ⊢
    obtain ⟨w'', f | reply'⟩ := r
    · exact ⟨(hs.trans hcount).trans hs', nofun⟩
    · refine ⟨(hs.trans hcount).trans hs', ?_⟩
      intro h
      cases h
      obtain ⟨herr, hlost⟩ := hf' rfl
      exact ⟨herr, .second hlost⟩
  · rw [if_neg hnoscript]
    refine ⟨hs, ?_⟩
    intro h
    cases h
    obtain ⟨herr, hlost⟩ := hf rfl
    exact ⟨herr, .first hlost⟩

theorem ofSend_exchanged (input : AttemptInput) (asking : Bool) (c : ContextId) (argv : Argv) (w : World) :
    Exchanged c w (Result.ofSend (send input.first asking c argv w)).1 ∧
      ((Result.ofSend (send input.first asking c argv w)).2 = .ok (.done none) →
        ((Result.ofSend (send input.first asking c argv w)).1.heap c).err = true ∧ Unanswered input) := by
  have hs := send_exchanged input.first asking c argv w
  have hf := @send_failed input.first asking c argv w
  generalize send input.first asking c argv w = r at hs hf ⊢
  obtain ⟨w', f | reply⟩ := r
  · exact ⟨hs, nofun⟩
  · refine ⟨hs, ?_⟩
    intro h
    cases h
    obtain ⟨herr, hlost⟩ := hf rfl
    exact ⟨herr, .first hlost⟩

theorem executeOn_exchanged (input : AttemptInput) (asking : Bool) (c : ContextId) (argv : Argv) (w : World) :
    Exchanged c w (executeOn sha1 input asking c argv w).1 ∧
      ((executeOn sha1 input asking c argv w).2.2 = .ok (.done none) →
        ((executeOn sha1 input asking c argv w).1.heap c).err = true ∧ Unanswered input) := by
  unfold executeOn
  match argv with
  | some command :: some script :: rest =>
    by_cases heval : strcasecmp command (bytes "EVAL") = true
    · dsimp only
      rw [if_pos heval]
      exact evaluate_exchanged sha1 input asking c script rest w
    · dsimp only
      rw [if_neg heval]
      exact ofSend_exchanged input asking c _ w
  | [some _] => exact ofSend_exchanged input asking c _ w
  | [] => exact ⟨.refl c w, nofun⟩
  | none :: _ => exact ⟨.refl c w, nofun⟩
  | some _ :: none :: _ => exact ⟨.refl c w, nofun⟩

end

end VmodRedis.Execution
