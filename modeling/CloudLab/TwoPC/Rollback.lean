import CloudLab.Library.Run
import CloudLab.TwoPC.Participant

/-! The rollback log over whole runs: whatever messages arrive, the participant's
store is its committed store, or the log leads back to it. -/

namespace CloudLab.TwoPC
open Text ByteStream

inductive Parsed : List Str → Prop
  | set (idStr key value : Str) : (stoi idStr).isSome → Parsed [PREPARED_REQUEST, idStr, SET, key, value]
  | get (idStr key : Str) : (stoi idStr).isSome → Parsed [PREPARED_REQUEST, idStr, GET, key]
  | del (idStr key : Str) (keys : List Str) : (stoi idStr).isSome →
      Parsed (PREPARED_REQUEST :: idStr :: DEL :: key :: keys)
  | commit (idStr : Str) : (stoi idStr).isSome → Parsed [COMMIT, idStr]
  | abort (idStr : Str) : (stoi idStr).isSome → Parsed [ABORT, idStr]

/-- A log entry that puts one key back to its value in `committed`. -/
inductive Restores (committed : Db) : Str → List Str → Prop
  | set (t key value : Str) : committed key = some value → Restores committed key [t, SET, key, value]
  | del (t key : Str) : committed key = none → Restores committed key [t, DEL, key]

/-- Every entry restores its key, and every other key has its committed value. -/
structure Undoable (committed : Db) (log : List (List Str)) (db : Db) : Prop where
  entries : ∀ entry ∈ log, ∃ key, Restores committed key entry
  others : ∀ key, (∀ entry ∈ log, ¬ Restores committed key entry) → db key = committed key

theorem undo_restores {committed db : Db} {key : Str} {entry : List Str}
    (restores : Restores committed key entry) :
    undo db entry = some (Function.update db key (committed key)) := by
  cases restores with
  | set t _ value same => simp [undo, same]
  | del t _ same => simp [undo, same]

theorem undoable_empty {committed db : Db} (undoable : Undoable committed [] db) : db = committed :=
  funext fun key => undoable.others key (by simp)

theorem replay_undoable {committed : Db} {log : List (List Str)} {db : Db}
    (undoable : Undoable committed log db) : log.foldlM undo db = some committed := by
  induction log generalizing db with
  | nil => simp [undoable_empty undoable]
  | cons entry log ih =>
    obtain ⟨key, restores⟩ := undoable.entries entry (by simp)
    rw [List.foldlM_cons, undo_restores restores]
    refine ih ⟨fun other member => undoable.entries other (List.mem_cons_of_mem _ member), ?_⟩
    intro k untouched
    by_cases same : k = key
    · simp [same]
    · rw [Function.update_of_ne same]
      apply undoable.others
      intro other member hits
      rcases List.mem_cons.mp member with rfl | later
      · cases hits <;> cases restores <;> exact same rfl
      · exact untouched other later hits

theorem undoable_push {committed : Db} {log : List (List Str)} {db : Db} {key : Str}
    {entry : List Str} (new : Option Str) (undoable : Undoable committed log db)
    (restores : Restores committed key entry) :
    Undoable committed (log ++ [entry]) (Function.update db key new) := by
  constructor
  · intro other member
    rcases List.mem_append.mp member with old | last
    · exact undoable.entries other old
    · rw [List.mem_singleton.mp last]
      exact ⟨key, restores⟩
  · intro k untouched
    have differs : k ≠ key := by
      rintro rfl
      exact untouched entry (by simp) restores
    rw [Function.update_of_ne differs]
    exact undoable.others k (fun other member => untouched other (by simp [member]))

/-- Four fields in each logged operation, as the commit code reads them. -/
def Logged (operationLog : List (List Str)) : Prop :=
  operationLog ≠ [] ∧ ∀ operation ∈ operationLog, ∃ t method key result, operation = [t, method, key, result]

theorem loggedMethod_isSome {p : Participant} (logged : Logged p.operationLog) :
    ∃ method, loggedMethod p = some method := by
  obtain ⟨nonempty, shape⟩ := logged
  cases log : p.operationLog with
  | nil => exact absurd log nonempty
  | cons operation rest =>
    obtain ⟨t, method, key, result, same⟩ := shape operation (by simp [log])
    exact ⟨method, by simp [loggedMethod, log, same]⟩

theorem ackCount_isSome {operationLog : List (List Str)} (logged : Logged operationLog) :
    ∃ count, ackCount operationLog = some count := by
  have shape := logged.2
  unfold ackCount
  generalize (0 : Nat) = start
  clear logged
  induction operationLog generalizing start with
  | nil => exact ⟨start, rfl⟩
  | cons operation rest ih =>
    obtain ⟨t, method, key, result, rfl⟩ := shape operation (by simp)
    simp only [List.foldlM_cons]
    exact ih (fun other member => shape other (List.mem_cons_of_mem _ member)) _

/-- In phase 1 the store is the committed one; in phase 2 the log leads back to it. -/
structure Consistent (p : Participant) (committed : Db) : Prop where
  phase : p.phase = 1 ∨ p.phase = 2
  clean : p.phase = 1 → p.db = committed
  undoable : p.phase = 2 → Undoable committed p.rollbackLog p.db
  logged : p.phase = 2 → Logged p.operationLog

theorem rollBack_consistent {p : Participant} {committed : Db} (consistent : Consistent p committed)
    (pending : p.phase = 2) : rollBack p = some { p with db := committed, rollbackLog := [] } := by
  simp [rollBack, replay_undoable (consistent.undoable pending)]

theorem consistent_clean {p : Participant} {committed : Db} (phase : p.phase = 1)
    (same : p.db = committed) : Consistent p committed :=
  ⟨Or.inl phase, fun _ => same, fun h => absurd (h.symm.trans phase) (by decide),
    fun h => absurd (h.symm.trans phase) (by decide)⟩

theorem consistent_pending {p : Participant} {committed : Db} (phase : p.phase = 2)
    (undoable : Undoable committed p.rollbackLog p.db) (logged : Logged p.operationLog) :
    Consistent p committed :=
  ⟨Or.inr phase, fun h => absurd (h.symm.trans phase) (by decide), fun _ => undoable, fun _ => logged⟩

theorem consistent_prepareSET (p : Participant) (id : Int) (key value : Str) :
    Consistent (prepareSET (beginTransaction p id) key value) p.db := by
  have start : Undoable p.db [] p.db := ⟨by simp, fun _ _ => rfl⟩
  refine consistent_pending rfl ?_ ⟨by simp [prepareSET], ?_⟩
  · cases old : p.db key with
    | none =>
      have pushed := undoable_push (some value) start (Restores.del (decimal id) key old)
      simpa [prepareSET, beginTransaction, old] using pushed
    | some previous =>
      have pushed := undoable_push (some value) start (Restores.set (decimal id) key previous old)
      simpa [prepareSET, beginTransaction, old] using pushed
  · intro operation member
    simp only [prepareSET, beginTransaction, List.nil_append, List.mem_singleton] at member
    exact ⟨_, _, _, _, member⟩

/-- While DEL deletes key after key, what is still stored is committed, so each entry
pushed on the log restores a committed value, also when a key is listed twice. -/
theorem deleteKeys_undoable (committed : Db) (keys : List Str) (p : Participant)
    (undoable : Undoable committed p.rollbackLog p.db)
    (stored : ∀ key value, p.db key = some value → committed key = some value) :
    Undoable committed (keys.foldl deleteKey p).rollbackLog (keys.foldl deleteKey p).db := by
  induction keys generalizing p with
  | nil => exact undoable
  | cons key keys ih =>
    rw [List.foldl_cons]
    cases present : p.db key with
    | none =>
      exact ih _ (by simpa [deleteKey, present] using undoable)
        (by simpa [deleteKey, present] using stored)
    | some value =>
      have pushed := undoable_push none undoable
        (Restores.set (decimal p.id) key value (stored key value present))
      refine ih _ (by simpa [deleteKey, present] using pushed) ?_
      intro k v found
      simp only [deleteKey, present] at found
      by_cases same : k = key
      · simp [same] at found
      · rw [Function.update_of_ne same] at found
        exact stored k v found

theorem deleteKey_log (p : Participant) (key : Str) :
    ∃ result, (deleteKey p key).operationLog = p.operationLog ++ [[decimal p.id, DEL, key, result]] := by
  cases present : p.db key with
  | none => exact ⟨WRONG, by simp [deleteKey, present]⟩
  | some value => exact ⟨ACK, by simp [deleteKey, present]⟩

theorem deleteKeys_logged (keys : List Str) (p : Participant) (logged : Logged p.operationLog) :
    Logged (keys.foldl deleteKey p).operationLog := by
  induction keys generalizing p with
  | nil => exact logged
  | cons key keys ih =>
    refine ih _ ?_
    obtain ⟨result, log⟩ := deleteKey_log p key
    refine ⟨by simp [log], ?_⟩
    intro operation member
    rw [log] at member
    rcases List.mem_append.mp member with old | last
    · exact logged.2 operation old
    · exact ⟨_, _, _, _, List.mem_singleton.mp last⟩

theorem consistent_prepareDEL (p : Participant) (id : Int) (key : Str) (keys : List Str) :
    Consistent (prepareDEL (beginTransaction p id) (key :: keys)) p.db := by
  have start : Undoable p.db [] p.db := ⟨by simp, fun _ _ => rfl⟩
  refine consistent_pending rfl ?_ ?_
  · exact deleteKeys_undoable p.db (key :: keys) (beginTransaction p id) start (fun _ _ found => found)
  · refine deleteKeys_logged keys (deleteKey (beginTransaction p id) key) ?_
    obtain ⟨result, log⟩ := deleteKey_log (beginTransaction p id) key
    refine ⟨by simp [log], ?_⟩
    intro operation member
    rw [log] at member
    simp only [beginTransaction, List.nil_append, List.mem_singleton] at member
    exact ⟨_, _, _, _, member⟩

def committedBy (p : Participant) (split_message : List Str) (committed : Db) : Db :=
  if p.phase = 2 ∧ split_message[0]? = some COMMIT then p.db else committed

theorem Parsed.read {split_message : List Str} (parsed : Parsed split_message) :
    ∃ kind idStr fields id, split_message = kind :: idStr :: fields ∧ stoi idStr = some id := by
  cases parsed with
  | set idStr key value read | get idStr key read | del idStr key keys read | commit idStr read
  | abort idStr read =>
    obtain ⟨id, same⟩ := Option.isSome_iff_exists.mp read
    exact ⟨_, _, _, id, rfl, same⟩

theorem handlePreparePhase_consistent {p : Participant} {idStr : Str} {fields : List Str}
    (parsed : Parsed (PREPARED_REQUEST :: idStr :: fields)) (phase : p.phase = 1) :
    ∃ answer, handlePreparePhase p (PREPARED_REQUEST :: idStr :: fields) = some answer ∧
      Consistent answer.2 p.db := by
  obtain ⟨_, _, _, id, same, read⟩ := parsed.read
  obtain ⟨rfl, rfl, rfl⟩ : _ = PREPARED_REQUEST ∧ _ = idStr ∧ _ = fields := by
    simpa [eq_comm] using same
  cases parsed with
  | set _ key value _ =>
    exact ⟨_, handlePreparePhase_set read key value [], consistent_prepareSET p id key value⟩
  | get _ key _ => exact ⟨_, handlePreparePhase_get read key [], consistent_clean phase rfl⟩
  | del _ key keys _ =>
    exact ⟨_, handlePreparePhase_del read (key :: keys), consistent_prepareDEL p id key keys⟩

theorem consistent_respond {next : Next} {answer : Str × Participant} {committed : Db}
    (consistent : Consistent answer.2 committed) : Consistent (respond next answer).state committed :=
  ⟨consistent.phase, consistent.clean, consistent.undoable, consistent.logged⟩

theorem handleDecision_consistent {p : Participant} {committed : Db} {kind : Str}
    (decision : kind = COMMIT ∨ kind = ABORT) (consistent : Consistent p committed)
    (pending : p.phase = 2) (fields : List Str) :
    ∃ answer, handleCommitOrAbortPhase p (kind :: fields) = some answer ∧ answer.2.phase = 1 ∧
      answer.2.db = if kind = COMMIT then p.db else committed := by
  obtain ⟨method, logged⟩ := loggedMethod_isSome (consistent.logged pending)
  obtain ⟨count, counted⟩ := ackCount_isSome (consistent.logged pending)
  rcases decision with rfl | rfl
  · rw [handleCommit_eq]
    by_cases del : method = DEL
    · exact ⟨(getClusterDoneMsg p.id DEL (decimal count), { p with phase := 1 }),
        by simp [logged, counted, del], rfl, by simp⟩
    · exact ⟨(getClusterDoneMsg p.id method [], { p with phase := 1 }),
        by simp [logged, del], rfl, by simp⟩
  · have undone := rollBack_consistent consistent pending
    rw [handleAbort_eq undone]
    refine ⟨(getClusterDoneMsg p.id method [],
      { p with db := committed, rollbackLog := [], phase := 1 }), ?_, rfl, by simp⟩
    have same : loggedMethod { p with db := committed, rollbackLog := [] } = loggedMethod p := rfl
    simp [same, logged]

theorem handleMessage_consistent {p : Participant} {committed : Db} {split_message : List Str}
    (parsed : Parsed split_message) (consistent : Consistent p committed) :
    ∃ handled, handleMessage p split_message = some handled ∧
      Consistent handled.state (committedBy p split_message committed) := by
  have request : ∀ idStr fields, Parsed (PREPARED_REQUEST :: idStr :: fields) →
      ∃ handled, handleMessage p (PREPARED_REQUEST :: idStr :: fields) = some handled ∧
        Consistent handled.state (committedBy p (PREPARED_REQUEST :: idStr :: fields) committed) := by
    intro idStr fields parsed
    obtain ⟨_, _, _, id, same, read⟩ := parsed.read
    obtain ⟨rfl, rfl, rfl⟩ : _ = PREPARED_REQUEST ∧ _ = idStr ∧ _ = fields := by
      simpa [eq_comm] using same
    simp only [committedBy, List.getElem?_cons_zero, Option.some.injEq,
      PREPARED_REQUEST_ne_COMMIT, and_false, if_false]
    rcases consistent.phase with clean | pending
    · obtain ⟨answer, prepared, kept⟩ := handlePreparePhase_consistent parsed clean
      rw [consistent.clean clean] at kept
      exact ⟨_, by rw [handleMessage_request_clean clean, prepared]; rfl, consistent_respond kept⟩
    · by_cases copy : id = p.id
      · exact ⟨_, handleMessage_request_same pending (copy ▸ read) _, consistent⟩
      · have undone := rollBack_consistent consistent pending
        obtain ⟨answer, prepared, kept⟩ := handlePreparePhase_consistent
          (p := { p with db := committed, rollbackLog := [], phase := 1 }) parsed rfl
        exact ⟨_, by rw [handleMessage_request_other pending read copy undone, prepared]; rfl,
          consistent_respond kept⟩
  have decide : ∀ kind idStr, kind = COMMIT ∨ kind = ABORT → (stoi idStr).isSome →
      ∃ handled, handleMessage p [kind, idStr] = some handled ∧
        Consistent handled.state (committedBy p [kind, idStr] committed) := by
    intro kind idStr decision readable
    obtain ⟨id, read⟩ := Option.isSome_iff_exists.mp readable
    rcases consistent.phase with clean | pending
    · rw [handleMessage_decision_clean clean decision read]
      simp only [committedBy, clean, show ¬ (1 : Nat) = 2 by decide, false_and, if_false]
      by_cases last : p.id = id
      · exact ⟨_, if_pos last, consistent⟩
      · exact ⟨_, if_neg last, consistent⟩
    · obtain ⟨answer, handled, phase, store⟩ := handleDecision_consistent decision consistent pending [idStr]
      refine ⟨_, by rw [handleMessage_decision_pending pending decision, handled]; rfl, ?_⟩
      refine consistent_respond (consistent_clean phase ?_)
      rcases decision with rfl | rfl <;> simp [committedBy, pending, store]
  cases parsed with
  | set idStr key value read => exact request _ _ (.set idStr key value read)
  | get idStr key read => exact request _ _ (.get idStr key read)
  | del idStr key keys read => exact request _ _ (.del idStr key keys read)
  | commit idStr read => exact decide _ _ (Or.inl rfl) read
  | abort idStr read => exact decide _ _ (Or.inr rfl) read

def Tracked (s : Participant × Db) (split_message : List Str) (t : Participant × Db) : Prop :=
  Parsed split_message ∧ ∃ handled, handleMessage s.1 split_message = some handled ∧
    handled.next ≠ .shutdown ∧ t = (handled.state, committedBy s.1 split_message s.2)

theorem tracked_consistent (s : Participant × Db) (split_message : List Str) (t : Participant × Db)
    (consistent : Consistent s.1 s.2) (step : Tracked s split_message t) : Consistent t.1 t.2 := by
  obtain ⟨parsed, handled, same, _, rfl⟩ := step
  obtain ⟨_, again, kept⟩ := handleMessage_consistent parsed consistent
  rw [same] at again
  cases again
  exact kept

theorem get_reply_committed {p : Participant} {committed : Db} {idStr key : Str} {handled : Handled}
    (consistent : Consistent p committed) (readable : (stoi idStr).isSome)
    (fresh : p.phase = 2 → stoi idStr ≠ some p.id)
    (same : handleMessage p [PREPARED_REQUEST, idStr, GET, key] = some handled) :
    ∃ id, stoi idStr = some id ∧
      handled.sent = [getClusterDoneMsg id GET ((committed key).getD NIL)] := by
  obtain ⟨id, read⟩ := Option.isSome_iff_exists.mp readable
  have nonempty : getClusterDoneMsg id GET ((committed key).getD NIL) ≠ [] := by
    rw [done_wire]
    exact wire_ne_nil (by simp)
  refine ⟨id, read, ?_⟩
  rcases consistent.phase with clean | pending
  · rw [handleMessage_request_clean clean, handlePreparePhase_get read] at same
    cases same
    rw [consistent.clean clean]
    simp only [respond, sendMessage, if_neg nonempty]
  · have other : id ≠ p.id := by
      rintro rfl
      exact fresh pending read
    rw [handleMessage_request_other pending read other (rollBack_consistent consistent pending),
      handlePreparePhase_get read] at same
    cases same
    simp only [respond, sendMessage, if_neg nonempty]

/-- Over every run from phase 1: no message stops the participant with a read out of range,
the store is the committed one in phase 1, rolling back leads to it in phase 2, and a newly
answered GET reports it. -/
theorem rollback_invariant (p₀ p : Participant) (committed : Db) (messages : List (List Str))
    (start : p₀.phase = 1) (run : Run Tracked (p₀, p₀.db) messages (p, committed)) :
    (p.phase = 1 ∨ p.phase = 2) ∧ (p.phase = 1 → p.db = committed) ∧
      (p.phase = 2 → (rollBack p).map Participant.db = some committed) ∧
      (∀ split_message, Parsed split_message → (handleMessage p split_message).isSome) ∧
      ∀ idStr key handled, (stoi idStr).isSome → (p.phase = 2 → stoi idStr ≠ some p.id) →
        handleMessage p [PREPARED_REQUEST, idStr, GET, key] = some handled →
        ∃ id, stoi idStr = some id ∧
          handled.sent = [getClusterDoneMsg id GET ((committed key).getD NIL)] := by
  have consistent : Consistent p committed :=
    run.invariant (fun s => Consistent s.1 s.2) tracked_consistent (consistent_clean start rfl)
  refine ⟨consistent.phase, consistent.clean, ?_, ?_, ?_⟩
  · intro pending
    rw [rollBack_consistent consistent pending]
    rfl
  · intro split_message parsed
    obtain ⟨handled, same, _⟩ := handleMessage_consistent parsed consistent
    exact Option.isSome_of_eq_some same
  · intro idStr key handled readable fresh same
    exact get_reply_committed consistent readable fresh same

/-- `DEL k k` is pending on a store that has `k`: the second time there is nothing to delete. -/
theorem rollback_invariant_key_twice :
    let messages := [[PREPARED_REQUEST, "7".toList, SET, "k".toList, "v".toList], [COMMIT, "7".toList],
      [PREPARED_REQUEST, "8".toList, DEL, "k".toList, "k".toList]]
    ∃ p committed, Run Tracked (Participant.init, Participant.init.db) messages (p, committed) ∧
      committed "k".toList = some "v".toList ∧ p.db "k".toList = none ∧
      (rollBack p).map Participant.db = some committed := by
  have seven : stoi "7".toList = some 7 := by decide
  have eight : stoi "8".toList = some 8 := by decide
  let stored := prepareSET (beginTransaction Participant.init 7) "k".toList "v".toList
  let done : Participant := { stored with phase := 1, lastResponseMsg := getClusterDoneMsg 7 SET [] }
  have set : Run Tracked (Participant.init, Participant.init.db)
      [[PREPARED_REQUEST, "7".toList, SET, "k".toList, "v".toList]] (_, fun _ => none) :=
    Run.single ⟨Parsed.set _ _ _ (Option.isSome_of_eq_some seven), _,
      by rw [handleMessage_request_clean rfl, handlePreparePhase_set seven]; rfl, by decide, rfl⟩
  have commit : Run Tracked ({ stored with lastResponseMsg := getClusterPrepareMsg 7 SET }, fun _ => none)
      [[COMMIT, "7".toList]] (done, stored.db) :=
    Run.single ⟨Parsed.commit _ (Option.isSome_of_eq_some seven), _,
      by rw [handleMessage_decision_pending rfl (Or.inl rfl), handleCommit_eq]; rfl, by decide, rfl⟩
  have del : Run Tracked (done, stored.db) [[PREPARED_REQUEST, "8".toList, DEL, "k".toList, "k".toList]]
      (_, stored.db) :=
    Run.single ⟨Parsed.del _ _ _ (Option.isSome_of_eq_some eight), _,
      by rw [handleMessage_request_clean rfl, handlePreparePhase_del eight]; rfl, by decide, rfl⟩
  have run := (set.trans commit).trans del
  refine ⟨_, stored.db, run, by decide, by decide, ?_⟩
  exact (rollback_invariant Participant.init _ _ _ rfl run).2.2.1 rfl

end CloudLab.TwoPC
