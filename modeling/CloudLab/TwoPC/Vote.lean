import CloudLab.TwoPC.Transaction

/-! What a PREPARED vote stands for. A participant in phase 2 compares only the id of a
request with the pending one, so its vote can be about an older request. -/

namespace CloudLab.TwoPC
open Text ByteStream

/-- A participant and its committed store on any message whatever. A shutdown ends the run. -/
def Handles (s : Participant × Db) (split_message : List Str) (t : Participant × Db) : Prop :=
  ∃ handled, handleMessage s.1 split_message = some handled ∧ handled.next ≠ .shutdown ∧
    t = (handled.state, committedBy s.1 split_message s.2)

def deletions (id : Int) : Db → List Str → List (List Str)
  | _, [] => []
  | db, key :: keys =>
      [decimal id, DEL, key, if db key = none then WRONG else ACK] ::
        deletions id (Function.update db key none) keys

def Op.entries (id : Int) (db : Db) : Op → List (List Str)
  | .set key value => [[decimal id, SET, key, value]]
  | .del key keys => deletions id db (key :: keys)

def Op.Asked : Op → List Str → Prop
  | .set key value, asked => ∃ rest, asked = SET :: key :: value :: rest
  | .del key keys, asked => asked = DEL :: key :: keys

/-- What a request for `asked` leaves behind in phase 2, prepared on the committed store. -/
inductive LeftPending (committed : Db) : List Str → Participant → Prop
  | set (before : Participant) (same : before.db = committed) (id : Int) (key value : Str)
      (rest : List Str) : LeftPending committed (SET :: key :: value :: rest)
        { prepareSET (beginTransaction before id) key value with
          lastResponseMsg := getClusterPrepareMsg id SET }
  | del (before : Participant) (same : before.db = committed) (id : Int) (keys : List Str) :
      LeftPending committed (DEL :: keys)
        { prepareDEL (beginTransaction before id) keys with
          lastResponseMsg := getClusterPrepareMsg id DEL }

/-- The vote is about the operation: its log and its change of the committed store are
pending, and a COMMIT makes it permanent. -/
structure VoteAbout (committed : Db) (id : Int) (op : Op) (p : Participant) : Prop where
  log : p.operationLog = op.entries id committed
  change : p.db = op.apply committed
  permanent : ∃ handled, handleMessage p [COMMIT, decimal id] = some handled ∧
    handled.state.phase = 1 ∧ handled.state.db = op.apply committed

/-! The logs. -/

theorem deleteKeys_operationLog (keys : List Str) (p : Participant) :
    (keys.foldl deleteKey p).operationLog = p.operationLog ++ deletions p.id p.db keys := by
  induction keys generalizing p with
  | nil => simp [deletions]
  | cons key keys ih =>
    have id : (deleteKey p key).id = p.id := deleteKeys_id [key] p
    rw [List.foldl_cons, ih, deleteKey_db, id, deletions]
    cases present : p.db key <;> simp [deleteKey, present]

theorem deletions_keys (id : Int) (keys : List Str) (db : Db) :
    (deletions id db keys).map (fun entry => entry[2]?) = keys.map some := by
  induction keys generalizing db with
  | nil => rfl
  | cons key keys ih => rw [deletions, List.map_cons, ih, List.map_cons]; rfl

theorem deletions_injective {id : Int} {db : Db} {first second : List Str}
    (same : deletions id db first = deletions id db second) : first = second := by
  have keys := congrArg (List.map fun entry => entry[2]?) same
  rw [deletions_keys, deletions_keys] at keys
  exact (List.map_inj_right fun _ _ => Option.some.inj).mp keys

theorem deletions_ne_set {id : Int} {db : Db} {keys : List Str} {t key value : Str} :
    deletions id db keys ≠ [[t, SET, key, value]] := by
  intro same
  cases keys with
  | nil => cases same
  | cons first keys =>
    rw [deletions, List.cons.injEq] at same
    have method := congrArg (fun entry => entry[1]?) same.1
    simp at method

/-! One request at a participant in phase 1. -/

theorem handlePreparePhase_cases {p : Participant} {split_message : List Str} {answer : Str × Participant}
    (prepared : handlePreparePhase p split_message = some answer) :
    (answer.2.phase = p.phase ∧ answer.2.db = p.db) ∨
      ∃ asked, LeftPending p.db asked { answer.2 with lastResponseMsg := answer.1 } := by
  simp only [handlePreparePhase, Option.bind_eq_bind, Option.bind_eq_some_iff] at prepared
  obtain ⟨idStr, _, id, _, command, _, branch⟩ := prepared
  by_cases set : command = SET
  · rw [if_pos set] at branch
    simp only [Option.bind_eq_some_iff] at branch
    obtain ⟨key, _, value, _, same⟩ := branch
    cases same
    exact Or.inr ⟨_, .set p rfl id key value []⟩
  rw [if_neg set] at branch
  by_cases get : command = GET
  · rw [if_pos get, Option.bind_eq_some_iff] at branch
    obtain ⟨key, _, same⟩ := branch
    cases same
    exact Or.inl ⟨rfl, rfl⟩
  rw [if_neg get] at branch
  by_cases del : command = DEL
  · rw [if_pos del] at branch
    cases branch
    exact Or.inr ⟨_, .del p rfl id (split_message.drop 3)⟩
  · rw [if_neg del] at branch
    cases branch
    exact Or.inl ⟨rfl, rfl⟩

/-! A pending participant. -/

namespace LeftPending

variable {committed : Db} {asked : List Str} {p : Participant}

theorem phase (left : LeftPending committed asked p) : p.phase = 2 := by
  cases left <;> rfl

theorem undoable (left : LeftPending committed asked p) : Undoable committed p.rollbackLog p.db := by
  cases left with
  | set before same id key value rest =>
    have consistent := consistent_prepareSET before id key value
    rw [same] at consistent
    exact consistent.undoable rfl
  | del before same id keys =>
    have start : Undoable committed [] before.db := ⟨by simp, fun _ _ => by rw [same]⟩
    refine deleteKeys_undoable committed keys (beginTransaction before id) start ?_
    intro key value found
    rw [← same]
    exact found

theorem rolledBack (left : LeftPending committed asked p) :
    rollBack p = some { p with db := committed, rollbackLog := [] } := by
  simp [rollBack, replay_undoable left.undoable]

theorem answer (left : LeftPending committed asked p) :
    ∃ method, p.lastResponseMsg = getClusterPrepareMsg p.id method := by
  cases left with
  | set before same id key value rest => exact ⟨SET, rfl⟩
  | del before same id keys =>
    refine ⟨DEL, ?_⟩
    change getClusterPrepareMsg id DEL = getClusterPrepareMsg (keys.foldl deleteKey (beginTransaction before id)).id DEL
    rw [deleteKeys_id]
    rfl

theorem of_asked (left : LeftPending committed asked p) {op : Op} (asks : op.Asked asked) :
    ∃ before : Participant, before.db = committed ∧ p = op.prepare before p.id := by
  cases op with
  | set key value =>
    obtain ⟨rest, same⟩ := asks
    subst same
    cases left with
    | set before same id => exact ⟨before, same, rfl⟩
  | del key keys =>
    change asked = DEL :: key :: keys at asks
    subst asks
    cases left with
    | del before same id =>
      refine ⟨before, same, ?_⟩
      have named : (prepareDEL (beginTransaction before id) (key :: keys)).id = id :=
        deleteKeys_id (key :: keys) (beginTransaction before id)
      change _ = Op.prepare before (prepareDEL (beginTransaction before id) (key :: keys)).id (.del key keys)
      rw [named]
      rfl

theorem asked_of_log (left : LeftPending committed asked p) {op : Op}
    (log : p.operationLog = op.entries p.id committed) : op.Asked asked := by
  cases left with
  | set before same id key value rest =>
    change [[decimal id, SET, key, value]] = _ at log
    cases op with
    | set otherKey otherValue =>
      simp only [Op.entries, List.cons.injEq, true_and, and_true] at log
      exact ⟨rest, by rw [log.2.1, log.2.2]⟩
    | del otherKey keys => exact absurd log.symm deletions_ne_set
  | del before same id keys =>
    have entries : (keys.foldl deleteKey (beginTransaction before id)).operationLog =
        deletions id before.db keys := deleteKeys_operationLog keys (beginTransaction before id)
    have named : (keys.foldl deleteKey (beginTransaction before id)).id = id :=
      deleteKeys_id keys (beginTransaction before id)
    change (keys.foldl deleteKey (beginTransaction before id)).operationLog =
      op.entries (keys.foldl deleteKey (beginTransaction before id)).id committed at log
    rw [entries, named, same] at log
    cases op with
    | set otherKey otherValue => exact absurd log deletions_ne_set
    | del otherKey otherKeys =>
      change DEL :: keys = DEL :: otherKey :: otherKeys
      rw [deletions_injective log]

end LeftPending

/-- In phase 1 the store is the committed one; in phase 2 a request is pending on it. -/
def Traceable (p : Participant) (committed : Db) : Prop :=
  (p.phase = 1 ∧ p.db = committed) ∨ ∃ asked, LeftPending committed asked p

theorem Traceable.prepare {p : Participant} {split_message : List Str} {answer : Str × Participant}
    (phase : p.phase = 1) (prepared : handlePreparePhase p split_message = some answer) :
    Traceable (respond .again answer).state p.db := by
  rcases handlePreparePhase_cases prepared with ⟨same, store⟩ | pending
  · exact Or.inl ⟨same.trans phase, store⟩
  · exact Or.inr pending

theorem LeftPending.decide {p : Participant} {committed : Db} {asked split_message : List Str}
    {kind : Str} {answer : Str × Participant} (left : LeftPending committed asked p)
    (head : split_message[0]? = some kind) (decision : kind = COMMIT ∨ kind = ABORT)
    (decided : handleCommitOrAbortPhase p split_message = some answer) :
    answer.2.phase = 1 ∧ answer.2.db = if kind = COMMIT then p.db else committed := by
  obtain ⟨first, fields, rfl⟩ : ∃ first fields, split_message = first :: fields := by
    cases split_message with
    | nil => cases head
    | cons first fields => exact ⟨first, fields, rfl⟩
  simp only [List.getElem?_cons_zero, Option.some.injEq] at head
  subst head
  rcases decision with rfl | rfl
  · rw [handleCommit_eq] at decided
    simp only [Option.bind_eq_bind, Option.bind_eq_some_iff] at decided
    obtain ⟨method, _, branch⟩ := decided
    split at branch
    · obtain ⟨count, _, same⟩ := Option.bind_eq_some_iff.mp branch
      cases same
      exact ⟨rfl, rfl⟩
    · cases branch
      exact ⟨rfl, rfl⟩
  · rw [handleAbort_eq left.rolledBack] at decided
    obtain ⟨method, _, same⟩ := Option.bind_eq_some_iff.mp decided
    cases same
    exact ⟨rfl, by rw [if_neg ABORT_ne_COMMIT]⟩

/-- Whatever arrives, what is pending can be traced to one request. -/
theorem handles_traceable (s : Participant × Db) (split_message : List Str) (t : Participant × Db)
    (traceable : Traceable s.1 s.2) (step : Handles s split_message t) : Traceable t.1 t.2 := by
  obtain ⟨p, committed⟩ := s
  obtain ⟨handled, same, _, rfl⟩ := step
  change Traceable handled.state (committedBy p split_message committed)
  simp only [handleMessage, Option.bind_eq_bind, Option.bind_eq_some_iff] at same
  obtain ⟨kind, head, branch⟩ := same
  rcases traceable with ⟨clean, store⟩ | ⟨asked, left⟩
  · have kept : committedBy p split_message committed = committed := by
      simp [committedBy, show p.phase = 1 from clean]
    rw [kept]
    change p.db = committed at store
    rw [if_pos clean] at branch
    split at branch
    · obtain ⟨answer, prepared, same⟩ := Option.bind_eq_some_iff.mp branch
      cases same
      rw [← store]
      exact Traceable.prepare clean prepared
    · obtain ⟨idStr, _, branch⟩ := Option.bind_eq_some_iff.mp branch
      obtain ⟨msg_id, _, branch⟩ := Option.bind_eq_some_iff.mp branch
      split at branch
      · cases branch
        exact Or.inl ⟨clean, store⟩
      · cases branch
        exact Or.inl ⟨clean, store⟩
  · have pending := left.phase
    rw [if_neg (by rw [pending]; decide), if_pos pending] at branch
    by_cases decision : kind = COMMIT ∨ kind = ABORT
    · rw [if_pos decision] at branch
      obtain ⟨answer, decided, same⟩ := Option.bind_eq_some_iff.mp branch
      cases same
      obtain ⟨phase, result⟩ := left.decide head decision decided
      refine Or.inl ⟨phase, result.trans ?_⟩
      simp only [committedBy, show p.phase = 2 from pending, true_and, head, Option.some.injEq]
    · rw [if_neg decision] at branch
      have kept : committedBy p split_message committed = committed := by
        have other : kind ≠ COMMIT := fun same => decision (Or.inl same)
        simp [committedBy, head, other]
      rw [kept]
      obtain ⟨idStr, _, branch⟩ := Option.bind_eq_some_iff.mp branch
      obtain ⟨msg_id, _, branch⟩ := Option.bind_eq_some_iff.mp branch
      split at branch
      · cases branch
        exact Or.inr ⟨asked, left⟩
      · rw [left.rolledBack, Option.bind_some] at branch
        obtain ⟨answer, prepared, same⟩ := Option.bind_eq_some_iff.mp branch
        cases same
        exact Traceable.prepare rfl prepared

/-! The vote. -/

theorem Op.prepare_operationLog (op : Op) (before : Participant) (id : Int) :
    (op.prepare before id).operationLog = op.entries id before.db := by
  cases op with
  | set key value => rfl
  | del key keys => exact deleteKeys_operationLog (key :: keys) (beginTransaction before id)

theorem Op.prepare_voteAbout (op : Op) (before : Participant) (id : Int) :
    VoteAbout before.db id op (op.prepare before id) := by
  constructor
  · exact op.prepare_operationLog before id
  · exact op.prepare_db before id
  · have decided := handleMessage_decision_pending (op.prepare_phase before id) (Or.inl rfl) [decimal id]
    rw [op.prepare_commit before id, Option.map_some] at decided
    exact ⟨_, decided, rfl, op.prepare_db before id⟩

theorem Op.request_fresh (op : Op) {p : Participant} {id : Int} (phase : p.phase = 1)
    (read : stoi (decimal id) = some id) :
    handleMessage p (PREPARED_REQUEST :: decimal id :: op.fields) =
      some { next := .again, sent := [getClusterPrepareMsg id op.method], state := op.prepare p id } := by
  rw [handleMessage_request_clean phase]
  exact op.handlePreparePhase_eq p read

/-- In every state reached by any messages: a SET or DEL is answered with PREPARED, and the
vote is about it exactly when no other operation is pending under the same id. -/
theorem vote_about_request_iff (messages : List (List Str)) (p : Participant) (committed : Db)
    (run : Run Handles (Participant.init, Participant.init.db) messages (p, committed))
    (op : Op) (id : Int) (low : 0 ≤ id) (high : id ≤ 9999) :
    ∃ handled, handleMessage p (PREPARED_REQUEST :: decimal id :: op.fields) = some handled ∧
      (∃ method, handled.sent = [getClusterPrepareMsg id method]) ∧
      (VoteAbout committed id op handled.state ↔
        ∀ asked, LeftPending committed asked p → p.id = id → op.Asked asked) := by
  have read : stoi (decimal id) = some id := stoi_decimal (by omega) (by omega)
  have traceable : Traceable p committed :=
    run.invariant (fun s => Traceable s.1 s.2) handles_traceable (Or.inl ⟨rfl, rfl⟩)
  rcases traceable with ⟨clean, store⟩ | ⟨pending, left⟩
  · refine ⟨_, op.request_fresh clean read, ⟨op.method, rfl⟩, iff_of_true ?_ ?_⟩
    · rw [← store]
      exact op.prepare_voteAbout p id
    · intro asked left
      rw [left.phase] at clean
      cases clean
  by_cases copy : p.id = id
  · obtain ⟨method, answer⟩ := left.answer
    rw [← copy] at read ⊢
    refine ⟨_, handleMessage_request_same left.phase read op.fields, ⟨method, ?_⟩, ?_⟩
    · rw [answer, sendMessage, if_neg (prepareMsg_ne_nil _ _)]
    · constructor
      · intro about asked other _
        exact other.asked_of_log about.log
      · intro same
        obtain ⟨before, store, shape⟩ := left.of_asked (same pending left rfl)
        have about := op.prepare_voteAbout before p.id
        rw [← shape, store] at about
        exact about
  · let rolled : Participant := { p with db := committed, rollbackLog := [], phase := 1 }
    have clean : rolled.phase = 1 := rfl
    have fresh := op.request_fresh clean read
    rw [handleMessage_request_clean clean] at fresh
    have about : VoteAbout committed id op (op.prepare rolled id) := op.prepare_voteAbout rolled id
    have answered := handleMessage_request_other left.phase read (Ne.symm copy) left.rolledBack op.fields
    exact ⟨_, answered.trans fresh, ⟨op.method, rfl⟩,
      iff_of_true about fun _ _ same => absurd same copy⟩

def setSeven : List Str := [PREPARED_REQUEST, "7".toList, SET, "a".toList, "1".toList]

/-- `SET a 1` is left pending under id 7. -/
def pendingSeven : Participant := (Op.set "a".toList "1".toList).prepare Participant.init 7

theorem run_setSeven :
    Run Handles (Participant.init, Participant.init.db) [setSeven] (pendingSeven, fun _ => none) := by
  have read : stoi (decimal 7) = some 7 := by decide
  have fresh := (Op.set "a".toList "1".toList).request_fresh (p := Participant.init) rfl read
  exact Run.single ⟨_, fresh, by decide, rfl⟩

/-- `SET a 1` is left pending under id 7 by a coordinator that was killed; the next
coordinator draws 7 for `DEL b` and is told PREPARED for a SET it never sent. -/
theorem vote_about_older_request :
    let set := [PREPARED_REQUEST, "7".toList, SET, "a".toList, "1".toList]
    ∃ p handled, Run Handles (Participant.init, Participant.init.db) [set] (p, fun _ => none) ∧
      handleMessage p (PREPARED_REQUEST :: decimal 7 :: (Op.del "b".toList []).fields) = some handled ∧
      handled.sent = [getClusterPrepareMsg 7 SET] ∧
      ¬ VoteAbout (fun _ => none) 7 (.del "b".toList []) handled.state := by
  have read : stoi (decimal 7) = some 7 := by decide
  have copy := handleMessage_request_same (p := pendingSeven) rfl read (Op.del "b".toList []).fields
  refine ⟨pendingSeven, _, run_setSeven, copy, ?_, ?_⟩
  · show sendMessage (getClusterPrepareMsg 7 SET) = _
    rw [sendMessage, if_neg (prepareMsg_ne_nil _ _)]
  · intro about
    have kept := congrFun about.change "a".toList
    cases kept

/-- A request under another id, at a participant with a transaction pending. -/
theorem vote_about_request_iff_pending :
    ∃ handled, handleMessage pendingSeven
        (PREPARED_REQUEST :: decimal 8 :: (Op.del "b".toList []).fields) = some handled ∧
      (∃ method, handled.sent = [getClusterPrepareMsg 8 method]) ∧
      (VoteAbout (fun _ => none) 8 (.del "b".toList []) handled.state ↔
        ∀ asked, LeftPending (fun _ => none) asked pendingSeven →
          pendingSeven.id = 8 → (Op.del "b".toList []).Asked asked) :=
  vote_about_request_iff [setSeven] pendingSeven (fun _ => none) run_setSeven (.del "b".toList []) 8
    (by decide) (by decide)

end CloudLab.TwoPC
