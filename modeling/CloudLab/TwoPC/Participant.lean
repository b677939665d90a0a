import CloudLab.Library.ByteStream
import CloudLab.TwoPC.Message

/-! The participant: its store, its two logs and the handlers of both phases.
`none` stands for the undefined behaviour of an index out of range and for the
exception of `stoi`; either ends the process. -/

namespace CloudLab.TwoPC
open Text ByteStream

abbrev Db := Str → Option Str

structure Participant where
  phase : Nat
  id : Int
  lastResponseMsg : Str
  db : Db
  operationLog : List (List Str)
  rollbackLog : List (List Str)

def Participant.init : Participant :=
  { phase := 1, id := -1, lastResponseMsg := [], db := fun _ => none,
    operationLog := [], rollbackLog := [] }

def ACK : Str := "ACK".toList
def WRONG : Str := "WRONG".toList
def NIL : Str := "nil".toList

def deleteKey (p : Participant) (key : Str) : Participant :=
  match p.db key with
  | some value =>
      { p with
        operationLog := p.operationLog ++ [[decimal p.id, DEL, key, ACK]]
        rollbackLog := p.rollbackLog ++ [[decimal p.id, SET, key, value]]
        db := Function.update p.db key none }
  | none => { p with operationLog := p.operationLog ++ [[decimal p.id, DEL, key, WRONG]] }

def beginTransaction (p : Participant) (id : Int) : Participant :=
  { p with id := id, operationLog := [], rollbackLog := [] }

def prepareSET (p : Participant) (key value : Str) : Participant :=
  { p with
    operationLog := p.operationLog ++ [[decimal p.id, SET, key, value]]
    rollbackLog := p.rollbackLog ++ [match p.db key with
      | none => [decimal p.id, DEL, key]
      | some old => [decimal p.id, SET, key, old]]
    db := Function.update p.db key (some value)
    phase := 2 }

def prepareGET (p : Participant) (key : Str) : Participant :=
  { p with operationLog := p.operationLog ++ [[decimal p.id, GET, key]] }

def prepareDEL (p : Participant) (keys : List Str) : Participant :=
  { keys.foldl deleteKey p with phase := 2 }

/-- The reply of the GET branch: the stored value, or `nil`. -/
def getReply (p : Participant) (key : Str) : Str :=
  getClusterDoneMsg p.id GET ((p.db key).getD NIL)

def handlePreparePhase (p : Participant) (split_message : List Str) : Option (Str × Participant) := do
  let id ← stoi (← split_message[1]?)
  let p := beginTransaction p id
  let command ← split_message[2]?
  if command = SET then
    let key ← split_message[3]?
    let value ← split_message[4]?
    some (getClusterPrepareMsg p.id SET, prepareSET p key value)
  else if command = GET then
    let key ← split_message[3]?
    some (getReply p key, prepareGET p key)
  else if command = DEL then
    some (getClusterPrepareMsg p.id DEL, prepareDEL p (split_message.drop 3))
  else some ([], p)

def undo (db : Db) (operation : List Str) : Option Db := do
  let command ← operation[1]?
  if command = SET then
    let key ← operation[2]?
    let value ← operation[3]?
    some (Function.update db key (some value))
  else if command = DEL then
    let key ← operation[2]?
    some (Function.update db key none)
  else some db

def rollBack (p : Participant) : Option Participant := do
  let db ← p.rollbackLog.foldlM undo p.db
  some { p with db := db, rollbackLog := [] }

/-- The number of operations of the log whose fourth field is `ACK`. -/
def ackCount (operationLog : List (List Str)) : Option Nat :=
  operationLog.foldlM (fun count operation => do
    let result ← operation[3]?
    some (if result = ACK then count + 1 else count)) 0

def loggedMethod (p : Participant) : Option Str := do
  let operation ← p.operationLog[0]?
  operation[1]?

def handleCommitOrAbortPhase (p : Participant) (split_message : List Str) :
    Option (Str × Participant) := do
  let p := { p with phase := 1 }
  let decision ← split_message[0]?
  if decision = COMMIT then
    let method ← loggedMethod p
    if method = DEL then
      let count ← ackCount p.operationLog
      some (getClusterDoneMsg p.id DEL (decimal count), p)
    else some (getClusterDoneMsg p.id method [], p)
  else if decision = ABORT then
    let p ← rollBack p
    let method ← loggedMethod p
    some (getClusterDoneMsg p.id method [], p)
  else some ([], p)

def sendMessage (data : Str) : List Str := if data = [] then [] else [data]

/-- One parsed message in `handleConnection`: whether the loop reads the next message,
returns 1 to wait for the next connection or returns -1 to end the process, what is sent
back, and the new state. -/
structure Handled where
  next : Next
  sent : List Str
  state : Participant

def respond (next : Next) (answer : Str × Participant) : Handled :=
  { next := next, sent := sendMessage answer.1,
    state := { answer.2 with lastResponseMsg := answer.1 } }

def handleMessage (p : Participant) (split_message : List Str) : Option Handled := do
  let kind ← split_message[0]?
  if p.phase = 1 then
    if kind = PREPARED_REQUEST then
      some (respond .again (← handlePreparePhase p split_message))
    else
      let msg_id ← stoi (← split_message[1]?)
      if p.id = msg_id then
        some { next := .finish, sent := sendMessage p.lastResponseMsg, state := p }
      else some { next := .shutdown, sent := [], state := p }
  else if p.phase = 2 then
    if kind = COMMIT ∨ kind = ABORT then
      some (respond .finish (← handleCommitOrAbortPhase p split_message))
    else
      let msg_id ← stoi (← split_message[1]?)
      if msg_id = p.id then
        some { next := .again, sent := sendMessage p.lastResponseMsg, state := p }
      else
        let rolled ← rollBack p
        some (respond .again (← handlePreparePhase { rolled with phase := 1 } split_message))
  else some { next := .again, sent := [], state := p }

def handleData (p : Participant) (data : Str) : Option Handled := do
  let parsed ← parseClusterMsg data
  if parsed.1 then handleMessage p parsed.2
  else some { next := .finish, sent := [], state := p }

/-! What each handler does on the messages its callers send. -/

section handlers
variable {p : Participant} {idStr : Str} {id : Int}

theorem handlePreparePhase_set (read : stoi idStr = some id) (key value : Str) (rest : List Str) :
    handlePreparePhase p (PREPARED_REQUEST :: idStr :: SET :: key :: value :: rest) =
      some (getClusterPrepareMsg id SET, prepareSET (beginTransaction p id) key value) := by
  simp [handlePreparePhase, read, beginTransaction]

theorem handlePreparePhase_get (read : stoi idStr = some id) (key : Str) (rest : List Str) :
    handlePreparePhase p (PREPARED_REQUEST :: idStr :: GET :: key :: rest) =
      some (getClusterDoneMsg id GET ((p.db key).getD NIL), prepareGET (beginTransaction p id) key) := by
  simp [handlePreparePhase, read, beginTransaction, getReply]

theorem handlePreparePhase_del (read : stoi idStr = some id) (keys : List Str) :
    handlePreparePhase p (PREPARED_REQUEST :: idStr :: DEL :: keys) =
      some (getClusterPrepareMsg id DEL, prepareDEL (beginTransaction p id) keys) := by
  simp [handlePreparePhase, read, beginTransaction]

theorem handleMessage_request_clean (phase : p.phase = 1) (fields : List Str) :
    handleMessage p (PREPARED_REQUEST :: fields) =
      (handlePreparePhase p (PREPARED_REQUEST :: fields)).map (respond .again) := by
  simp only [handleMessage, List.getElem?_cons_zero, phase, if_true]
  cases handlePreparePhase p (PREPARED_REQUEST :: fields) <;> rfl

/-- A request with the pending id is taken for a copy: the last answer is sent again. -/
theorem handleMessage_request_same (phase : p.phase = 2) (read : stoi idStr = some p.id)
    (fields : List Str) :
    handleMessage p (PREPARED_REQUEST :: idStr :: fields) =
      some { next := .again, sent := sendMessage p.lastResponseMsg, state := p } := by
  simp [handleMessage, phase, read]

theorem handleMessage_request_other (phase : p.phase = 2) (read : stoi idStr = some id)
    (other : id ≠ p.id) {rolled : Participant} (undone : rollBack p = some rolled) (fields : List Str) :
    handleMessage p (PREPARED_REQUEST :: idStr :: fields) =
      (handlePreparePhase { rolled with phase := 1 } (PREPARED_REQUEST :: idStr :: fields)).map
        (respond .again) := by
  simp only [handleMessage, List.getElem?_cons_zero, List.getElem?_cons_succ, phase, read,
    Option.bind_eq_bind, Option.bind_some, PREPARED_REQUEST_ne_COMMIT, PREPARED_REQUEST_ne_ABORT,
    or_self, if_neg other, undone, if_true, if_false, show ¬ (2 : Nat) = 1 by decide]
  cases handlePreparePhase { rolled with phase := 1 } (PREPARED_REQUEST :: idStr :: fields) <;> rfl

theorem handleMessage_decision_pending (phase : p.phase = 2) {kind : Str}
    (decision : kind = COMMIT ∨ kind = ABORT) (fields : List Str) :
    handleMessage p (kind :: fields) =
      (handleCommitOrAbortPhase p (kind :: fields)).map (respond .finish) := by
  simp only [handleMessage, List.getElem?_cons_zero, phase, Option.bind_eq_bind, Option.bind_some,
    if_pos decision, if_true, if_false, show ¬ (2 : Nat) = 1 by decide]
  cases handleCommitOrAbortPhase p (kind :: fields) <;> rfl

/-- In phase 1 a decision is a copy when the id is the last one, and fatal otherwise. -/
theorem handleMessage_decision_clean (phase : p.phase = 1) {kind : Str}
    (decision : kind = COMMIT ∨ kind = ABORT) (read : stoi idStr = some id) (fields : List Str) :
    handleMessage p (kind :: idStr :: fields) =
      if p.id = id then some { next := .finish, sent := sendMessage p.lastResponseMsg, state := p }
      else some { next := .shutdown, sent := [], state := p } := by
  have notRequest : kind ≠ PREPARED_REQUEST := by
    rcases decision with rfl | rfl <;> simp
  simp [handleMessage, phase, read, notRequest]

theorem handleCommit_eq (fields : List Str) :
    handleCommitOrAbortPhase p (COMMIT :: fields) = (do
      let method ← loggedMethod p
      if method = DEL then
        let count ← ackCount p.operationLog
        some (getClusterDoneMsg p.id DEL (decimal count), { p with phase := 1 })
      else some (getClusterDoneMsg p.id method [], { p with phase := 1 })) := by
  simp [handleCommitOrAbortPhase, loggedMethod]

theorem handleAbort_eq {rolled : Participant} (undone : rollBack p = some rolled) (fields : List Str) :
    handleCommitOrAbortPhase p (ABORT :: fields) = (do
      let method ← loggedMethod rolled
      some (getClusterDoneMsg rolled.id method [], { rolled with phase := 1 })) := by
  have rolledPhase : rollBack { p with phase := 1 } = some { rolled with phase := 1 } := by
    simp only [rollBack, Option.bind_eq_bind, Option.bind_eq_some_iff] at undone ⊢
    obtain ⟨db, replayed, same⟩ := undone
    exact ⟨db, replayed, by cases same; rfl⟩
  simp [handleCommitOrAbortPhase, rolledPhase, loggedMethod]

end handlers

end CloudLab.TwoPC
