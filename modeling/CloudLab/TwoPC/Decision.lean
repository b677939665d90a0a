import CloudLab.TwoPC.Vote

/-! Decisions that name another transaction. In phase 1 the id of a COMMIT or ABORT is
compared with the last one; in phase 2 it is not read, so the pending transaction takes
every decision for its own. -/

namespace CloudLab.TwoPC
open Text

/-- A message is refused as an inconsistency: nothing of the transaction changes, nothing
is answered and the participant shuts down. -/
structure Refused (p : Participant) (handled : Handled) : Prop where
  db : handled.state.db = p.db
  phase : handled.state.phase = p.phase
  operationLog : handled.state.operationLog = p.operationLog
  rollbackLog : handled.state.rollbackLog = p.rollbackLog
  silent : handled.sent = []
  shutdown : handled.next = .shutdown

theorem handleMessage_decision_closes {p : Participant} {committed : Db} {asked : List Str}
    (left : LeftPending committed asked p) {kind : Str} (decision : kind = COMMIT ∨ kind = ABORT)
    {fields : List Str} {handled : Handled} (result : handleMessage p (kind :: fields) = some handled) :
    handled.state.phase = 1 ∧ handled.state.db = (if kind = COMMIT then p.db else committed) ∧
      handled.next = .finish := by
  rw [handleMessage_decision_pending left.phase decision, Option.map_eq_some_iff] at result
  obtain ⟨answer, decided, same⟩ := result
  obtain ⟨phase, db⟩ := left.decide rfl decision decided
  subst same
  exact ⟨phase, db, rfl⟩

/-- In every state reached by any messages, a decision that names another transaction is
refused exactly in phase 1. -/
theorem other_decision_refused_iff (messages : List (List Str)) (p : Participant) (committed : Db)
    (run : Run Handles (Participant.init, Participant.init.db) messages (p, committed))
    (kind : Str) (decision : kind = COMMIT ∨ kind = ABORT) (idStr : Str) (id : Int)
    (read : stoi idStr = some id) (other : id ≠ p.id) (fields : List Str) :
    (∃ handled, handleMessage p (kind :: idStr :: fields) = some handled ∧ Refused p handled) ↔
      p.phase = 1 := by
  have traceable : Traceable p committed :=
    run.invariant (fun s => Traceable s.1 s.2) handles_traceable (Or.inl ⟨rfl, rfl⟩)
  constructor
  · rintro ⟨handled, result, refused⟩
    rcases traceable with ⟨clean, _⟩ | ⟨_, left⟩
    · exact clean
    · have closed := (handleMessage_decision_closes left decision result).1
      rw [← refused.phase]
      exact closed
  · intro clean
    have result := handleMessage_decision_clean clean decision read fields
    rw [if_neg (Ne.symm other)] at result
    exact ⟨_, result, rfl, rfl, rfl, rfl, rfl, rfl⟩

/-- `SET a 1` is pending under id 7. `COMMIT` of transaction 8 makes it permanent and is
answered with DONE for transaction 7. -/
theorem other_decision_commits :
    let set := [PREPARED_REQUEST, "7".toList, SET, "a".toList, "1".toList]
    ∃ p handled, Run Handles (Participant.init, Participant.init.db) [set] (p, fun _ => none) ∧
      stoi "8".toList = some 8 ∧ 8 ≠ p.id ∧
      handleMessage p [COMMIT, "8".toList] = some handled ∧ ¬ Refused p handled ∧
      handled.state.phase = 1 ∧ handled.state.db "a".toList = some "1".toList ∧
      handled.sent = [getClusterDoneMsg 7 SET []] := by
  have committed := handleMessage_decision_pending (p := pendingSeven) rfl (Or.inl rfl) ["8".toList]
  have done : handleCommitOrAbortPhase pendingSeven [COMMIT, "8".toList] =
      some (getClusterDoneMsg 7 SET [], { pendingSeven with phase := 1 }) := by
    rw [handleCommit_eq]
    rfl
  rw [done, Option.map_some] at committed
  refine ⟨pendingSeven, _, run_setSeven, by decide, by decide, committed, ?_, rfl, ?_, ?_⟩
  · intro refused
    cases refused.shutdown
  · exact Function.update_self "a".toList (some "1".toList) Participant.init.db
  · decide

theorem other_decision_refused_iff_pending :
    (∃ handled, handleMessage pendingSeven [COMMIT, "8".toList] = some handled ∧ Refused pendingSeven handled) ↔
      pendingSeven.phase = 1 :=
  other_decision_refused_iff [setSeven] pendingSeven (fun _ => none) run_setSeven COMMIT (Or.inl rfl)
    "8".toList 8 (by decide) (by decide) []

end CloudLab.TwoPC
