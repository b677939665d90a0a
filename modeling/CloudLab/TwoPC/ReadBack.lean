import CloudLab.TwoPC.Request
import CloudLab.TwoPC.Sequential

/-! Whether a stored value can be read back. An answer to a GET has its value on the fourth
line, and the encoder leaves that line out when the value is empty. -/

namespace CloudLab.TwoPC
open Text

/-- What a participant receives: requests that `parseClientMsg` accepts, a SET among them
with its value, and decisions. -/
inductive Arrives : List Str → Prop
  | request (data : Str) (fields : List Str) (id : Int) : parseClientMsg data = some (true, fields) →
      (fields[0]? = some SET → 3 ≤ fields.length) → Arrives (PREPARED_REQUEST :: decimal id :: fields)
  | commit (id : Int) : Arrives [COMMIT, decimal id]
  | abort (id : Int) : Arrives [ABORT, decimal id]

def Serves (p : Participant) (split_message : List Str) (p' : Participant) : Prop :=
  Arrives split_message ∧
    ∃ handled, handleMessage p split_message = some handled ∧ handled.next ≠ .shutdown ∧ p' = handled.state

/-- What the client is told of a GET once the participant has answered. -/
def readBack (p : Participant) (id : Int) (key : Str) : Option Str := do
  let answer ← handlePreparePhase p [PREPARED_REQUEST, decimal id, GET, key]
  let response ← parseClusterMsg answer.1
  some (getClientGetOrDelMsg id (if response.1 then response.2 else []))

/-- Each stored value is one line, and so is each value that a rollback would store. -/
structure Lines (p : Participant) : Prop where
  db : ∀ key value, p.db key = some value → '\n' ∉ value
  rollbackLog : ∀ operation ∈ p.rollbackLog, ∀ s ∈ operation, '\n' ∉ s

theorem Arrives.plain {split_message : List Str} (arrives : Arrives split_message) :
    ∀ s ∈ split_message, '\n' ∉ s := by
  have commands : ∀ s ∈ [PREPARED_REQUEST, COMMIT, ABORT], '\n' ∉ s := by decide
  cases arrives with
  | request data fields id parsed _ =>
    have lines := (parseClientMsg_true parsed).1
    exact List.forall_mem_cons.mpr ⟨commands _ (by simp),
      List.forall_mem_cons.mpr ⟨newline_not_mem_decimal id, lines⟩⟩
  | commit id =>
    exact List.forall_mem_cons.mpr ⟨commands _ (by simp),
      List.forall_mem_singleton.mpr (newline_not_mem_decimal id)⟩
  | abort id =>
    exact List.forall_mem_cons.mpr ⟨commands _ (by simp),
      List.forall_mem_singleton.mpr (newline_not_mem_decimal id)⟩

theorem plain_update {db : Db} (plain : ∀ key value, db key = some value → '\n' ∉ value) (key : Str)
    {new : Option Str} (line : ∀ value, new = some value → '\n' ∉ value) :
    ∀ other value, Function.update db key new other = some value → '\n' ∉ value := by
  intro other value found
  by_cases same : other = key
  · subst same
    rw [Function.update_self] at found
    exact line value found
  · rw [Function.update_of_ne same] at found
    exact plain other value found

namespace Lines

variable {p : Participant}

theorem begin (lines : Lines p) (id : Int) : Lines (beginTransaction p id) :=
  ⟨lines.db, fun _ member => absurd member List.not_mem_nil⟩

theorem append {log : List (List Str)} {operation : List Str}
    (before : ∀ operation ∈ log, ∀ s ∈ operation, '\n' ∉ s) (last : ∀ s ∈ operation, '\n' ∉ s) :
    ∀ other ∈ log ++ [operation], ∀ s ∈ other, '\n' ∉ s := by
  intro other member
  rcases List.mem_append.mp member with old | new
  · exact before other old
  · rw [List.mem_singleton.mp new]
    exact last

theorem prepareSET (lines : Lines p) {key value : Str} (keyLine : '\n' ∉ key) (valueLine : '\n' ∉ value) :
    Lines (prepareSET p key value) := by
  have commands : '\n' ∉ SET ∧ '\n' ∉ DEL := by decide
  have id := newline_not_mem_decimal p.id
  constructor
  · apply plain_update lines.db
    intro other same
    cases same
    exact valueLine
  · cases present : p.db key with
    | none =>
      simp only [TwoPC.prepareSET, present]
      exact append lines.rollbackLog (by simp [id, commands.2, keyLine])
    | some old =>
      simp only [TwoPC.prepareSET, present]
      exact append lines.rollbackLog (by simp [id, commands.1, keyLine, lines.db key old present])

theorem deleteKey (lines : Lines p) {key : Str} (keyLine : '\n' ∉ key) : Lines (deleteKey p key) := by
  have command : '\n' ∉ SET := by decide
  have id := newline_not_mem_decimal p.id
  cases present : p.db key with
  | none =>
    simp only [TwoPC.deleteKey, present]
    exact ⟨lines.db, lines.rollbackLog⟩
  | some value =>
    simp only [TwoPC.deleteKey, present]
    constructor
    · exact plain_update lines.db key fun _ same => by cases same
    · exact append lines.rollbackLog (by simp [id, command, keyLine, lines.db key value present])

theorem deleteKeys (lines : Lines p) {keys : List Str} (keyLines : ∀ key ∈ keys, '\n' ∉ key) :
    Lines (keys.foldl TwoPC.deleteKey p) := by
  induction keys generalizing p with
  | nil => exact lines
  | cons key keys ih =>
    rw [List.foldl_cons]
    exact ih (lines.deleteKey (keyLines key (by simp))) fun other member =>
      keyLines other (List.mem_cons_of_mem _ member)

theorem undo {db db' : Db} {operation : List Str} (plain : ∀ key value, db key = some value → '\n' ∉ value)
    (line : ∀ s ∈ operation, '\n' ∉ s) (undone : undo db operation = some db') :
    ∀ key value, db' key = some value → '\n' ∉ value := by
  simp only [TwoPC.undo, Option.bind_eq_bind, Option.bind_eq_some_iff] at undone
  obtain ⟨command, _, branch⟩ := undone
  split at branch
  · simp only [Option.bind_eq_some_iff] at branch
    obtain ⟨key, _, value, third, same⟩ := branch
    cases same
    apply plain_update plain
    intro other same
    cases same
    exact line value (List.mem_of_getElem? third)
  · split at branch
    · simp only [Option.bind_eq_some_iff] at branch
      obtain ⟨key, _, same⟩ := branch
      cases same
      exact plain_update plain key fun _ same => by cases same
    · cases branch
      exact plain

theorem rollBack {rolled : Participant} (lines : Lines p) (undone : rollBack p = some rolled) :
    Lines rolled := by
  simp only [TwoPC.rollBack, Option.bind_eq_bind, Option.bind_eq_some_iff] at undone
  obtain ⟨db, replayed, same⟩ := undone
  cases same
  refine ⟨?_, fun _ member => absurd member List.not_mem_nil⟩
  change ∀ key value, db key = some value → '\n' ∉ value
  obtain ⟨plain, entries⟩ := lines
  generalize p.db = start at plain replayed
  generalize p.rollbackLog = log at entries replayed
  induction log generalizing start with
  | nil =>
    cases replayed
    exact plain
  | cons operation log ih =>
    rw [List.foldlM_cons] at replayed
    obtain ⟨middle, first, rest⟩ := Option.bind_eq_some_iff.mp replayed
    exact ih middle (undo plain (entries operation (by simp)) first)
      (fun other member => entries other (List.mem_cons_of_mem _ member)) rest

theorem prepare {split_message : List Str} {answer : Str × Participant} (lines : Lines p)
    (plain : ∀ s ∈ split_message, '\n' ∉ s) (prepared : handlePreparePhase p split_message = some answer) :
    Lines answer.2 := by
  simp only [handlePreparePhase, Option.bind_eq_bind, Option.bind_eq_some_iff] at prepared
  obtain ⟨idStr, _, id, _, command, _, branch⟩ := prepared
  have started := lines.begin id
  split at branch
  · simp only [Option.bind_eq_some_iff] at branch
    obtain ⟨key, third, value, fourth, same⟩ := branch
    cases same
    exact started.prepareSET (plain key (List.mem_of_getElem? third))
      (plain value (List.mem_of_getElem? fourth))
  split at branch
  · simp only [Option.bind_eq_some_iff] at branch
    obtain ⟨key, _, same⟩ := branch
    cases same
    exact ⟨started.db, started.rollbackLog⟩
  split at branch
  · cases branch
    have named : ∀ key ∈ split_message.drop 3, '\n' ∉ key :=
      fun key member => plain key (List.mem_of_mem_drop member)
    have deleted := started.deleteKeys named
    exact ⟨deleted.db, deleted.rollbackLog⟩
  · cases branch
    exact started

theorem decide {split_message : List Str} {answer : Str × Participant} (lines : Lines p)
    (decided : handleCommitOrAbortPhase p split_message = some answer) : Lines answer.2 := by
  have closed : Lines { p with phase := 1 } := ⟨lines.db, lines.rollbackLog⟩
  simp only [handleCommitOrAbortPhase, Option.bind_eq_bind, Option.bind_eq_some_iff] at decided
  obtain ⟨decision, _, branch⟩ := decided
  split at branch
  · obtain ⟨method, _, branch⟩ := Option.bind_eq_some_iff.mp branch
    split at branch
    · obtain ⟨count, _, same⟩ := Option.bind_eq_some_iff.mp branch
      cases same
      exact closed
    · cases branch
      exact closed
  split at branch
  · simp only [Option.bind_eq_some_iff] at branch
    obtain ⟨rolled, undone, method, _, same⟩ := branch
    cases same
    exact closed.rollBack undone
  · cases branch
    exact closed

theorem respond {next : ByteStream.Next} {answer : Str × Participant} (lines : Lines answer.2) :
    Lines (respond next answer).state :=
  ⟨lines.db, lines.rollbackLog⟩

theorem handleMessage {split_message : List Str} {handled : Handled} (lines : Lines p)
    (plain : ∀ s ∈ split_message, '\n' ∉ s) (result : handleMessage p split_message = some handled) :
    Lines handled.state := by
  simp only [TwoPC.handleMessage, Option.bind_eq_bind, Option.bind_eq_some_iff] at result
  obtain ⟨kind, _, branch⟩ := result
  split at branch
  · split at branch
    · obtain ⟨answer, prepared, same⟩ := Option.bind_eq_some_iff.mp branch
      cases same
      exact (lines.prepare plain prepared).respond
    · simp only [Option.bind_eq_some_iff] at branch
      obtain ⟨idStr, _, msg_id, _, branch⟩ := branch
      split at branch
      · cases branch
        exact lines
      · cases branch
        exact lines
  split at branch
  · split at branch
    · obtain ⟨answer, decided, same⟩ := Option.bind_eq_some_iff.mp branch
      cases same
      exact (lines.decide decided).respond
    · simp only [Option.bind_eq_some_iff] at branch
      obtain ⟨idStr, _, msg_id, _, branch⟩ := branch
      split at branch
      · cases branch
        exact lines
      · simp only [Option.bind_eq_some_iff] at branch
        obtain ⟨rolled, undone, answer, prepared, same⟩ := branch
        cases same
        have back := lines.rollBack undone
        have closed : Lines { rolled with phase := 1 } := ⟨back.db, back.rollbackLog⟩
        exact (closed.prepare plain prepared).respond
  · cases branch
    exact lines

end Lines

theorem serves_lines (p : Participant) (split_message : List Str) (p' : Participant) (lines : Lines p)
    (step : Serves p split_message p') : Lines p' := by
  obtain ⟨arrives, handled, result, _, rfl⟩ := step
  exact lines.handleMessage arrives.plain result

/-! The way back to the client. -/

theorem readBack_eq {p : Participant} {id : Int} (read : stoi (decimal id) = some id) {key value : Str}
    (stored : (p.db key).getD NIL = value) (line : '\n' ∉ value) :
    readBack p id key =
      some (if value = [] then getClientERRORMsg else respArray (words value)) := by
  have commands : '\n' ∉ DONE ∧ '\n' ∉ GET := by decide
  have number := newline_not_mem_decimal id
  rw [readBack, handlePreparePhase_get read, stored, done_wire]
  by_cases empty : value = []
  · have parsed : parseClusterMsg (wire [DONE, decimal id, GET]) = some (true, [DONE, decimal id, GET]) :=
      parseClusterMsg_wire (by simp) (by simp [commands, number])
    simp only [if_pos empty, List.append_nil, Option.bind_eq_bind, Option.bind_some, parsed]
    rfl
  · have parsed : parseClusterMsg (wire [DONE, decimal id, GET, value]) =
        some (true, [DONE, decimal id, GET, value]) :=
      parseClusterMsg_wire (by simp) (by simp [commands, number, line])
    simp only [if_neg empty, List.cons_append, List.nil_append, Option.bind_eq_bind, Option.bind_some, parsed]
    exact congrArg some (getClientGetOrDelMsg_get id _ _ empty)

theorem words_NIL : words NIL = [NIL] := words_token (Token.of_all (by decide) (by decide))

theorem respArray_ne_error (elements : List Str) : respArray elements ≠ getClientERRORMsg := by
  intro same
  cases congrArg List.head? same

/-- In every state reached by accepted requests and decisions, a GET of any key under any id
returns the words of the stored value, or `nil`, exactly when the stored value is not empty. -/
theorem readBack_iff (messages : List (List Str)) (p : Participant)
    (run : Run Serves Participant.init messages p) (id : Int) (low : -2 ^ 31 ≤ id) (high : id < 2 ^ 31)
    (key : Str) :
    readBack p id key = some ((Request.get key).reply p.db) ↔ p.db key ≠ some [] := by
  have start : Lines Participant.init :=
    ⟨fun _ _ found => (nomatch found), fun _ member => absurd member List.not_mem_nil⟩
  have lines : Lines p := run.invariant Lines serves_lines start
  have read : stoi (decimal id) = some id := stoi_decimal low high
  cases stored : p.db key with
  | none =>
    have nil : '\n' ∉ NIL ∧ NIL ≠ [] := by decide
    rw [readBack_eq read (by rw [stored]; rfl) nil.1, if_neg nil.2, words_NIL]
    simp [Request.reply, stored]
  | some value =>
    rw [readBack_eq read (by rw [stored]; rfl) (lines.db key value stored)]
    constructor
    · intro same empty
      cases empty
      rw [if_pos rfl, Option.some.injEq] at same
      exact respArray_ne_error _ same.symm
    · intro filled
      have nonempty : value ≠ [] := fun same => filled (by rw [same])
      rw [if_neg nonempty]
      simp [Request.reply, stored]

theorem serves_set_empty :
    ∃ p, Run Serves Participant.init
        [PREPARED_REQUEST :: decimal 7 :: [SET, "a".toList, []], [COMMIT, decimal 7]] p ∧
      p.db "a".toList = some [] := by
  have parsed : parseClientMsg (Request.set "a".toList [] []).encode = some (true, [SET, "a".toList, []]) :=
    parseClientMsg_unmarked (by decide) (by decide)
  have read : stoi (decimal 7) = some 7 := by decide
  have set := handleMessage_request_clean (p := Participant.init) rfl [decimal 7, SET, "a".toList, []]
  rw [handlePreparePhase_set read, Option.map_some] at set
  let pending := (respond .again (getClusterPrepareMsg 7 SET,
    prepareSET (beginTransaction Participant.init 7) "a".toList [])).state
  have commit := handleMessage_decision_pending (p := pending) rfl (Or.inl rfl) [decimal 7]
  have done : handleCommitOrAbortPhase pending [COMMIT, decimal 7] =
      some (getClusterDoneMsg 7 SET [], { pending with phase := 1 }) := by
    rw [handleCommit_eq]
    rfl
  rw [done, Option.map_some] at commit
  have first : Serves Participant.init (PREPARED_REQUEST :: decimal 7 :: [SET, "a".toList, []]) pending :=
    ⟨.request _ _ 7 parsed (by decide), _, set, by decide, rfl⟩
  have second : Serves pending [COMMIT, decimal 7] _ := ⟨.commit 7, _, commit, by decide, rfl⟩
  refine ⟨_, Run.head first (Run.single second), ?_⟩
  exact Function.update_self "a".toList (some []) Participant.init.db

/-- The empty value cannot be read back: the client is told `-ERROR`. -/
theorem readBack_empty :
    ∃ messages p, Run Serves Participant.init messages p ∧ p.db "a".toList = some [] ∧
      (Request.get "a".toList).reply p.db = "*0\r\n".toList ∧
      readBack p 8 "a".toList = some getClientERRORMsg ∧
      readBack p 8 "a".toList ≠ some ((Request.get "a".toList).reply p.db) := by
  obtain ⟨p, run, stored⟩ := serves_set_empty
  have reply : (Request.get "a".toList).reply p.db = "*0\r\n".toList := by
    simp only [Request.reply, stored]
    decide
  have empty : (p.db "a".toList).getD NIL = [] := by rw [stored]; rfl
  have told : readBack p 8 "a".toList = some getClientERRORMsg := by
    rw [readBack_eq (by decide) empty (by decide), if_pos rfl]
  refine ⟨_, p, run, stored, reply, told, ?_⟩
  rw [told, reply]
  decide

theorem readBack_iff_absent :
    ∃ p, p.db "a".toList = some [] ∧
      (readBack p 8 "b".toList = some ((Request.get "b".toList).reply p.db) ↔ p.db "b".toList ≠ some []) := by
  obtain ⟨p, run, stored⟩ := serves_set_empty
  exact ⟨p, stored, readBack_iff _ p run 8 (by decide) (by decide) "b".toList⟩

end CloudLab.TwoPC
