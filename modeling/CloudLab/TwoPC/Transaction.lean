import CloudLab.TwoPC.Coordinator
import CloudLab.TwoPC.Rollback

/-! One transaction at one participant: before it has read the request, when it is
prepared, and when it has carried the decision out. -/

namespace CloudLab.TwoPC
open Text ByteStream

/-- A SET or DEL with all its fields. -/
inductive Op where
  | set (key value : Str)
  | del (key : Str) (keys : List Str)
  deriving DecidableEq

def countDeleted (db : Db) : List Str → Nat
  | [] => 0
  | key :: keys =>
      if db key = none then countDeleted db keys
      else countDeleted (Function.update db key none) keys + 1

def eraseAll (db : Db) (keys : List Str) : Db :=
  keys.foldl (fun db key => Function.update db key none) db

namespace Op

def method : Op → Str
  | .set _ _ => SET
  | .del _ _ => DEL

def fields : Op → List Str
  | .set key value => [SET, key, value]
  | .del key keys => DEL :: key :: keys

def apply (db : Db) : Op → Db
  | .set key value => Function.update db key (some value)
  | .del key keys => eraseAll db (key :: keys)

def prepare (p : Participant) (id : Int) (op : Op) : Participant :=
  { (match op with
      | .set key value => prepareSET (beginTransaction p id) key value
      | .del key keys => prepareDEL (beginTransaction p id) (key :: keys)) with
    lastResponseMsg := getClusterPrepareMsg id op.method }

def done (db : Db) (id : Int) (commit : Bool) (op : Op) : Str :=
  match op, commit with
  | .del key keys, true => getClusterDoneMsg id DEL (decimal (countDeleted db (key :: keys)))
  | _, _ => getClusterDoneMsg id op.method []

end Op

/-! What DEL leaves behind. -/

theorem deleteKey_db (p : Participant) (key : Str) :
    (deleteKey p key).db = Function.update p.db key none := by
  cases present : p.db key with
  | none =>
    have same : Function.update p.db key none = p.db := by
      rw [← present]
      exact Function.update_eq_self key p.db
    simp only [deleteKey, present, same]
  | some value => simp [deleteKey, present]

theorem deleteKeys_db (keys : List Str) (p : Participant) :
    (keys.foldl deleteKey p).db = eraseAll p.db keys := by
  induction keys generalizing p with
  | nil => rfl
  | cons key keys ih => rw [List.foldl_cons, ih, deleteKey_db, eraseAll, eraseAll, List.foldl_cons]

theorem deleteKeys_id (keys : List Str) (p : Participant) : (keys.foldl deleteKey p).id = p.id := by
  induction keys generalizing p with
  | nil => rfl
  | cons key keys ih =>
    rw [List.foldl_cons, ih]
    cases present : p.db key <;> simp [deleteKey, present]

theorem deleteKeys_log (keys : List Str) (p : Participant) :
    ∃ more, (keys.foldl deleteKey p).operationLog = p.operationLog ++ more := by
  induction keys generalizing p with
  | nil => exact ⟨[], by simp⟩
  | cons key keys ih =>
    obtain ⟨result, first⟩ := deleteKey_log p key
    obtain ⟨more, rest⟩ := ih (deleteKey p key)
    exact ⟨[decimal p.id, DEL, key, result] :: more, by rw [List.foldl_cons, rest, first]; simp⟩

theorem ackCount_append {log : List (List Str)} {count : Nat} (counted : ackCount log = some count)
    (t method key result : Str) :
    ackCount (log ++ [[t, method, key, result]]) =
      some (if result = ACK then count + 1 else count) := by
  rw [ackCount] at counted ⊢
  rw [List.foldlM_append, counted]
  rfl

theorem ackCount_deleteKeys (keys : List Str) (p : Participant) (count : Nat)
    (counted : ackCount p.operationLog = some count) :
    ackCount (keys.foldl deleteKey p).operationLog = some (count + countDeleted p.db keys) := by
  induction keys generalizing p count with
  | nil => simpa [countDeleted] using counted
  | cons key keys ih =>
    rw [List.foldl_cons, countDeleted]
    cases present : p.db key with
    | none =>
      have log : ackCount (deleteKey p key).operationLog = some count := by
        have wrong : WRONG ≠ ACK := by decide
        have pushed := ackCount_append counted (decimal p.id) DEL key WRONG
        rw [if_neg wrong] at pushed
        simpa [deleteKey, present] using pushed
      have store : (deleteKey p key).db = p.db := by simp [deleteKey, present]
      rw [ih _ count log, store, if_pos rfl]
    | some value =>
      have log : ackCount (deleteKey p key).operationLog = some (count + 1) := by
        have pushed := ackCount_append counted (decimal p.id) DEL key ACK
        rw [if_pos rfl] at pushed
        simpa [deleteKey, present] using pushed
      rw [ih _ (count + 1) log, deleteKey_db, if_neg (by simp)]
      congr 1
      omega

namespace Op

variable (p : Participant) (id : Int) (op : Op)

@[simp] theorem prepare_phase : (op.prepare p id).phase = 2 := by
  cases op <;> rfl

@[simp] theorem prepare_id : (op.prepare p id).id = id := by
  cases op with
  | set => rfl
  | del key keys => exact deleteKeys_id (key :: keys) (beginTransaction p id)

@[simp] theorem prepare_lastResponseMsg :
    (op.prepare p id).lastResponseMsg = getClusterPrepareMsg id op.method := rfl

theorem prepare_db : (op.prepare p id).db = op.apply p.db := by
  cases op with
  | set => rfl
  | del key keys => exact deleteKeys_db (key :: keys) (beginTransaction p id)

theorem prepare_consistent : Consistent (op.prepare p id) p.db := by
  cases op with
  | set key value =>
    have pending := consistent_prepareSET p id key value
    exact ⟨pending.phase, pending.clean, pending.undoable, pending.logged⟩
  | del key keys =>
    have pending := consistent_prepareDEL p id key keys
    exact ⟨pending.phase, pending.clean, pending.undoable, pending.logged⟩

theorem prepare_loggedMethod : loggedMethod (op.prepare p id) = some op.method := by
  cases op with
  | set => rfl
  | del key keys =>
    obtain ⟨result, first⟩ := deleteKey_log (beginTransaction p id) key
    obtain ⟨more, rest⟩ := deleteKeys_log keys (deleteKey (beginTransaction p id) key)
    rw [first] at rest
    have log : (prepare p id (.del key keys)).operationLog =
        [decimal id, DEL, key, result] :: more := rest
    rw [loggedMethod, log]
    rfl

theorem prepare_commit (fields : List Str) :
    handleCommitOrAbortPhase (op.prepare p id) (COMMIT :: fields) =
      some (op.done p.db id true, { op.prepare p id with phase := 1 }) := by
  have logged := prepare_loggedMethod p id op
  rw [handleCommit_eq, logged]
  cases op with
  | set => rfl
  | del key keys =>
    have counted : ackCount (prepare p id (.del key keys)).operationLog =
        some (0 + countDeleted p.db (key :: keys)) :=
      ackCount_deleteKeys (key :: keys) (beginTransaction p id) 0 rfl
    simp only [method, Option.bind_eq_bind, Option.bind_some, if_true, counted, Nat.zero_add,
      prepare_id, done]

theorem prepare_abort (fields : List Str) :
    handleCommitOrAbortPhase (op.prepare p id) (ABORT :: fields) =
      some (op.done p.db id false, { op.prepare p id with phase := 1, db := p.db, rollbackLog := [] }) := by
  have undone := rollBack_consistent (prepare_consistent p id op) (prepare_phase p id op)
  have logged := prepare_loggedMethod p id op
  rw [loggedMethod] at logged
  rw [handleAbort_eq undone, loggedMethod, logged]
  simp only [Option.bind_eq_bind, Option.bind_some, prepare_id]
  cases op <;> rfl

end Op

/-! The requests and decisions of the coordinator, as a participant reads them. -/

/-- A transaction as `handleConnection` starts it: an id that `getRandomID` can draw, and
fields that hold no line end. -/
structure Txn.Valid (t : Txn) : Prop where
  low : 0 ≤ t.id
  high : t.id ≤ 9999
  lines : ∀ line ∈ t.split_message, '\n' ∉ line
  nonempty : t.split_message ≠ []

def Txn.Writes (t : Txn) : Prop :=
  (∃ op : Op, t.split_message = op.fields) ∨ ∃ key, t.split_message = [SET, key]

def Txn.Reads (t : Txn) : Prop := ∃ key rest, t.split_message = GET :: key :: rest

def Txn.op (t : Txn) : Option Op :=
  match t.split_message with
  | command :: key :: rest =>
      if command = DEL then some (.del key rest)
      else if command = SET then rest.head?.map (.set key)
      else none
  | _ => none

def Txn.apply (t : Txn) (db : Db) : Db :=
  match t.op with
  | some op => op.apply db
  | none => db

theorem Txn.op_eq {t : Txn} {op : Op} (fields : t.split_message = op.fields) : t.op = some op := by
  cases op <;> simp [Txn.op, fields, Op.fields]

theorem Txn.apply_eq {t : Txn} {op : Op} (fields : t.split_message = op.fields) (db : Db) :
    t.apply db = op.apply db := by
  rw [Txn.apply, Txn.op_eq fields]

theorem Txn.Valid.read {t : Txn} (valid : t.Valid) : stoi (decimal t.id) = some t.id := by
  have low := valid.low
  have high := valid.high
  exact stoi_decimal (by omega) (by omega)

theorem no_newline_words : ∀ word ∈ [PREPARED_REQUEST, COMMIT, ABORT, PREPARED, DONE, SET, GET, DEL],
    '\n' ∉ word := by decide

theorem handle_wire (s : Site) {kind second : Str} {rest : List Str}
    (plain : ∀ line ∈ kind :: second :: rest, '\n' ∉ line) :
    s.handle (wire (kind :: second :: rest)) =
      (handleMessage s.process (kind :: second :: rest)).map fun handled =>
        (handled, { process := handled.state,
                    commits := if s.process.phase = 2 ∧ kind = COMMIT then s.process.id :: s.commits
                               else s.commits }) := by
  have parsed : parseClusterMsg (wire (kind :: second :: rest)) = some (true, kind :: second :: rest) := by
    rw [parseClusterMsg_wire (by simp) plain]
    simp
  simp only [Site.handle, handleData, executesCommit, parsed, Option.bind_eq_bind, Option.bind_some,
    if_true, decide_eq_true_eq]
  cases handleMessage s.process (kind :: second :: rest) <;> rfl

theorem request_plain {t : Txn} (valid : t.Valid) :
    ∀ line ∈ PREPARED_REQUEST :: decimal t.id :: t.split_message, '\n' ∉ line := by
  intro line member
  rcases List.mem_cons.mp member with rfl | member
  · exact no_newline_words _ (by simp)
  · rcases List.mem_cons.mp member with rfl | member
    · exact newline_not_mem_decimal t.id
    · exact valid.lines line member

/-- A request never commits anything by itself. -/
theorem handle_request {t : Txn} (valid : t.Valid) (s : Site) :
    s.handle (requestMsg t) =
      (handleMessage s.process (PREPARED_REQUEST :: decimal t.id :: t.split_message)).map
        fun handled => (handled, { process := handled.state, commits := s.commits }) := by
  rw [requestMsg, prepareRequest_wire, handle_wire s (request_plain valid)]
  simp

def decisionWord (commit : Bool) : Str := if commit then COMMIT else ABORT

theorem decisionWord_cases (commit : Bool) : decisionWord commit = COMMIT ∨ decisionWord commit = ABORT := by
  cases commit
  · exact Or.inr rfl
  · exact Or.inl rfl

theorem handle_decision (t : Txn) (commit : Bool) (s : Site) :
    s.handle (decisionMsg t commit) =
      (handleMessage s.process [decisionWord commit, decimal t.id]).map fun handled =>
        (handled, { process := handled.state,
                    commits := if s.process.phase = 2 ∧ commit = true then s.process.id :: s.commits
                               else s.commits }) := by
  have plain : ∀ line ∈ [decisionWord commit, decimal t.id], '\n' ∉ line := by
    intro line member
    rcases List.mem_cons.mp member with rfl | last
    · cases commit <;> exact no_newline_words _ (by simp [decisionWord])
    · rw [List.mem_singleton.mp last]
      exact newline_not_mem_decimal t.id
  have text : decisionMsg t commit = wire [decisionWord commit, decimal t.id] := by
    cases commit
    · exact abort_wire t.id
    · exact commit_wire t.id
  rw [text, handle_wire s plain]
  cases commit <;> simp [decisionWord]

/-! The stages of a transaction. `pend` allows participants that an earlier coordinator
left in phase 2; without it the ids committed since the request are followed too. -/

section stages
variable (pend : Prop) (db : Db) (t : Txn) (commit : Bool)

/-- The participant holds `db`, or will after rolling back. -/
def Settled (s : Site) : Prop :=
  (s.process.phase = 1 ∧ s.process.db = db) ∨ (pend ∧ Consistent s.process db)

/-- It has not read the request, and is not pending under the same id. -/
def Fresh (s : Site) : Prop :=
  Settled pend db s ∧ (s.process.phase = 2 → s.process.id ≠ t.id) ∧ (¬ pend → s.commits = [])

/-- It has executed the request tentatively. -/
def Prepared (s : Site) : Prop :=
  ∃ (op : Op) (p : Participant), t.split_message = op.fields ∧ p.db = db ∧ s.process = op.prepare p t.id ∧
    (¬ pend → s.commits = [])

/-- It has carried out the decision. -/
def Decided (s : Site) : Prop :=
  ∃ op : Op, t.split_message = op.fields ∧ s.process.phase = 1 ∧ s.process.id = t.id ∧
    s.process.db = (if commit then op.apply db else db) ∧
    s.process.lastResponseMsg = op.done db t.id commit ∧
    (¬ pend → s.commits = if commit then [t.id] else [])

end stages

section turns
variable {pend : Prop} {db : Db} {t : Txn} {commit : Bool} {s s' : Site} {handled : Handled}

theorem Settled.consistent (settled : Settled pend db s) : Consistent s.process db := by
  rcases settled with ⟨phase, store⟩ | ⟨_, consistent⟩
  · exact consistent_clean phase store
  · exact consistent

theorem Prepared.consistent (prepared : Prepared pend db t s) : Consistent s.process db := by
  obtain ⟨op, p, _, rfl, process, _⟩ := prepared
  rw [process]
  exact op.prepare_consistent p t.id

theorem done_ne_nil (op : Op) : op.done db t.id commit ≠ [] := by
  have nonempty : ∀ addition, getClusterDoneMsg t.id op.method addition ≠ [] := by
    intro addition
    rw [done_wire]
    exact wire_ne_nil (by simp)
  have deleted : ∀ addition, getClusterDoneMsg t.id DEL addition ≠ [] := by
    intro addition
    rw [done_wire]
    exact wire_ne_nil (by simp)
  cases op with
  | set => exact nonempty []
  | del =>
    cases commit
    · exact nonempty []
    · exact deleted _

theorem prepareMsg_ne_nil (id : Int) (method : Str) : getClusterPrepareMsg id method ≠ [] := by
  rw [prepare_wire]
  exact wire_ne_nil (by simp)

theorem Decided.settled (decided : Decided pend db t commit s) :
    Settled pend (if commit then t.apply db else db) s := by
  obtain ⟨op, fields, phase, _, store, _⟩ := decided
  rw [Txn.apply_eq fields]
  exact Or.inl ⟨phase, store⟩

def preparedMsg (t : Txn) : Str := getClusterPrepareMsg t.id (t.split_message.headD [])

theorem Op.head_fields (op : Op) : op.fields.headD [] = op.method := by
  cases op <;> rfl

theorem Op.handlePreparePhase_eq (op : Op) (p : Participant) {id : Int} (read : stoi (decimal id) = some id) :
    (handlePreparePhase p (PREPARED_REQUEST :: decimal id :: op.fields)).map (respond .again) =
      some { next := .again, sent := [getClusterPrepareMsg id op.method], state := op.prepare p id } := by
  cases op with
  | set key value =>
    rw [Op.fields, handlePreparePhase_set read, Option.map_some, respond, sendMessage,
      if_neg (prepareMsg_ne_nil _ _)]
    rfl
  | del key keys =>
    rw [Op.fields, handlePreparePhase_del read, Option.map_some, respond, sendMessage,
      if_neg (prepareMsg_ne_nil _ _)]
    rfl

theorem handlePreparePhase_op (valid : t.Valid) {op : Op} (fields : t.split_message = op.fields)
    (p : Participant) :
    (handlePreparePhase p (PREPARED_REQUEST :: decimal t.id :: t.split_message)).map (respond .again) =
      some { next := .again, sent := [preparedMsg t], state := op.prepare p t.id } := by
  rw [preparedMsg, fields, op.head_fields]
  exact op.handlePreparePhase_eq p valid.read

theorem handlePreparePhase_short (p : Participant) (idStr key : Str) :
    handlePreparePhase p [PREPARED_REQUEST, idStr, SET, key] = none := by
  cases stoi idStr <;> simp [handlePreparePhase]

theorem Fresh.request (fresh : Fresh pend db t s) (valid : t.Valid) (writes : t.Writes)
    (turn : s.handle (requestMsg t) = some (handled, s')) :
    handled.next = .again ∧ handled.sent = [preparedMsg t] ∧ Prepared pend db t s' := by
  obtain ⟨settled, other, commits⟩ := fresh
  have consistent := settled.consistent
  -- in either phase the request is executed in phase 1 on the committed store
  have executed : ∃ p : Participant, p.db = db ∧
      handleMessage s.process (PREPARED_REQUEST :: decimal t.id :: t.split_message) =
        (handlePreparePhase p (PREPARED_REQUEST :: decimal t.id :: t.split_message)).map
          (respond .again) := by
    rcases consistent.phase with clean | pending
    · exact ⟨s.process, consistent.clean clean, handleMessage_request_clean clean _⟩
    · exact ⟨_, rfl, handleMessage_request_other pending valid.read (Ne.symm (other pending))
        (rollBack_consistent consistent pending) _⟩
  obtain ⟨p, store, result⟩ := executed
  rw [handle_request valid, result] at turn
  rcases writes with ⟨op, fields⟩ | ⟨key, short⟩
  · rw [handlePreparePhase_op valid fields, Option.map_some, Option.some.injEq, Prod.mk.injEq] at turn
    obtain ⟨rfl, rfl⟩ := turn
    exact ⟨rfl, rfl, op, p, fields, store, rfl, commits⟩
  · rw [short, handlePreparePhase_short] at turn
    cases turn

theorem Prepared.request (prepared : Prepared pend db t s) (valid : t.Valid)
    (turn : s.handle (requestMsg t) = some (handled, s')) :
    handled.next = .again ∧ handled.sent = [preparedMsg t] ∧ s' = s := by
  obtain ⟨op, p, fields, store, process, commits⟩ := prepared
  have pending : s.process.phase = 2 := by rw [process, op.prepare_phase]
  have read : stoi (decimal t.id) = some s.process.id := by rw [process, op.prepare_id, valid.read]
  have last : s.process.lastResponseMsg = preparedMsg t := by
    rw [process, op.prepare_lastResponseMsg, preparedMsg, fields, op.head_fields]
  have nonempty : preparedMsg t ≠ [] := prepareMsg_ne_nil _ _
  rw [handle_request valid, handleMessage_request_same pending read, last, sendMessage,
    if_neg nonempty, Option.map_some, Option.some.injEq, Prod.mk.injEq] at turn
  obtain ⟨rfl, rfl⟩ := turn
  exact ⟨rfl, rfl, rfl⟩

theorem Prepared.decision (prepared : Prepared pend db t s)
    (turn : s.handle (decisionMsg t commit) = some (handled, s')) :
    handled.next = .finish ∧ (∃ op : Op, t.split_message = op.fields ∧ handled.sent = [op.done db t.id commit]) ∧
      Decided pend db t commit s' := by
  obtain ⟨op, p, fields, store, process, commits⟩ := prepared
  have pending : s.process.phase = 2 := by rw [process, op.prepare_phase]
  have ident : s.process.id = t.id := by rw [process, op.prepare_id]
  have nonempty : op.done db t.id commit ≠ [] := done_ne_nil op
  have answer : ∃ q : Participant, q.phase = 1 ∧ q.id = t.id ∧ q.db = (if commit then op.apply db else db) ∧
      handleCommitOrAbortPhase s.process [decisionWord commit, decimal t.id] =
        some (op.done db t.id commit, q) := by
    rw [process, ← store]
    cases commit with
    | true =>
      exact ⟨{ op.prepare p t.id with phase := 1 }, rfl, op.prepare_id p t.id, op.prepare_db p t.id,
        op.prepare_commit p t.id _⟩
    | false =>
      exact ⟨{ op.prepare p t.id with phase := 1, db := p.db, rollbackLog := [] }, rfl,
        op.prepare_id p t.id, rfl, op.prepare_abort p t.id _⟩
  obtain ⟨q, phase, same, final, result⟩ := answer
  rw [handle_decision, handleMessage_decision_pending pending (decisionWord_cases commit), result] at turn
  simp only [Option.map_some, respond, sendMessage, if_neg nonempty, Option.some.injEq,
    Prod.mk.injEq] at turn
  obtain ⟨rfl, rfl⟩ := turn
  refine ⟨rfl, ⟨op, fields, rfl⟩, op, fields, phase, same, final, rfl, ?_⟩
  intro strict
  simp only [pending, commits strict, ident, true_and]

theorem Decided.decision (decided : Decided pend db t commit s) (valid : t.Valid)
    (turn : s.handle (decisionMsg t commit) = some (handled, s')) :
    handled.next = .finish ∧ (∃ op : Op, t.split_message = op.fields ∧ handled.sent = [op.done db t.id commit]) ∧
      s' = s := by
  obtain ⟨op, fields, clean, ident, store, last, commits⟩ := decided
  have notPending : ¬ s.process.phase = 2 := by
    rw [clean]
    decide
  rw [handle_decision, handleMessage_decision_clean clean (decisionWord_cases commit) valid.read,
    if_pos ident, last, sendMessage, if_neg (done_ne_nil op), Option.map_some, Option.some.injEq,
    Prod.mk.injEq] at turn
  obtain ⟨rfl, rfl⟩ := turn
  refine ⟨rfl, ⟨op, fields, rfl⟩, ?_⟩
  simp only [notPending, false_and, if_false]

theorem Settled.get (settled : Settled pend db s) (valid : t.Valid) (reads : t.Reads)
    (turn : s.handle (requestMsg t) = some (handled, s')) :
    handled.next = .again ∧ Settled pend db s' ∧ s'.commits = s.commits ∧
      (¬ pend → ∃ key, t.split_message[1]? = some key ∧
        handled.sent = [getClusterDoneMsg t.id GET ((db key).getD NIL)]) := by
  obtain ⟨key, rest, fields⟩ := reads
  have nonempty : ∀ value, getClusterDoneMsg t.id GET value ≠ [] := by
    intro value
    rw [done_wire]
    exact wire_ne_nil (by simp)
  rw [handle_request valid, fields] at turn
  have consistent := settled.consistent
  rcases settled with ⟨clean, store⟩ | ⟨allowed, _⟩
  · rw [handleMessage_request_clean clean, handlePreparePhase_get valid.read] at turn
    simp only [Option.map_some, respond, sendMessage, if_neg (nonempty _), Option.some.injEq,
      Prod.mk.injEq] at turn
    obtain ⟨rfl, rfl⟩ := turn
    refine ⟨rfl, Or.inl ⟨clean, store⟩, rfl, fun _ => ⟨key, by simp [fields], ?_⟩⟩
    rw [store]
  · rcases consistent.phase with clean | pending
    · rw [handleMessage_request_clean clean, handlePreparePhase_get valid.read] at turn
      simp only [Option.map_some, respond, Option.some.injEq, Prod.mk.injEq] at turn
      obtain ⟨rfl, rfl⟩ := turn
      exact ⟨rfl, Or.inl ⟨clean, consistent.clean clean⟩, rfl, fun strict => absurd allowed strict⟩
    · by_cases copy : t.id = s.process.id
      · rw [handleMessage_request_same pending (copy ▸ valid.read)] at turn
        simp only [Option.map_some, Option.some.injEq, Prod.mk.injEq] at turn
        obtain ⟨rfl, rfl⟩ := turn
        exact ⟨rfl, Or.inr ⟨allowed, consistent⟩, rfl, fun strict => absurd allowed strict⟩
      · rw [handleMessage_request_other pending valid.read copy
          (rollBack_consistent consistent pending), handlePreparePhase_get valid.read] at turn
        simp only [Option.map_some, respond, Option.some.injEq, Prod.mk.injEq] at turn
        obtain ⟨rfl, rfl⟩ := turn
        exact ⟨rfl, Or.inl ⟨rfl, rfl⟩, rfl, fun strict => absurd allowed strict⟩

end turns

end CloudLab.TwoPC
