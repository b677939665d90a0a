import CloudLab.Library.Text

/-! The `MessageProcessor` of the two-phase-commit program: the parsers of client
requests and cluster messages, and the encoders of both. `none` stands for the
undefined behaviour of `pop_back` on an empty line. -/

namespace CloudLab.TwoPC
open Text

/-! The words of the protocol. -/

def SET : Str := "SET".toList
def GET : Str := "GET".toList
def DEL : Str := "DEL".toList
def PREPARED_REQUEST : Str := "PREPARED-REQUEST".toList
def PREPARED : Str := "PREPARED".toList
def COMMIT : Str := "COMMIT".toList
def ABORT : Str := "ABORT".toList
def DONE : Str := "DONE".toList

@[simp] theorem SET_ne_GET : SET ≠ GET := by decide
@[simp] theorem SET_ne_DEL : SET ≠ DEL := by decide
@[simp] theorem GET_ne_SET : GET ≠ SET := by decide
@[simp] theorem GET_ne_DEL : GET ≠ DEL := by decide
@[simp] theorem DEL_ne_SET : DEL ≠ SET := by decide
@[simp] theorem DEL_ne_GET : DEL ≠ GET := by decide
@[simp] theorem COMMIT_ne_ABORT : COMMIT ≠ ABORT := by decide
@[simp] theorem ABORT_ne_COMMIT : ABORT ≠ COMMIT := by decide
@[simp] theorem PREPARED_REQUEST_ne_COMMIT : PREPARED_REQUEST ≠ COMMIT := by decide
@[simp] theorem PREPARED_REQUEST_ne_ABORT : PREPARED_REQUEST ≠ ABORT := by decide
@[simp] theorem COMMIT_ne_PREPARED_REQUEST : COMMIT ≠ PREPARED_REQUEST := by decide
@[simp] theorem ABORT_ne_PREPARED_REQUEST : ABORT ≠ PREPARED_REQUEST := by decide

/-- The lines `parseClientMsg` keeps: those not beginning with `*` or `$`, each
without its last byte. On an empty line `temp[0]` is the terminating zero byte. -/
def payloadLines : List Str → Option (List Str)
  | [] => some []
  | temp :: rest =>
      if temp.head? ≠ some '*' ∧ temp.head? ≠ some '$' then do
        let line ← popBack temp
        let lines ← payloadLines rest
        some (line :: lines)
      else payloadLines rest

/-- The value words of a SET, from the third line on, joined into one line. -/
def joinValue : List Str → List Str
  | command :: key :: value :: words =>
      [command, key, words.foldl (fun joined word => joined ++ ' ' :: word) value]
  | short => short

def parseClientMsg (str : Str) : Option (Bool × List Str) :=
  if str = [] then some (false, [])
  else do
    let split_message ← payloadLines (getlines str)
    let lineNum := split_message.length
    let command := split_message.head?
    if lineNum < 2 ∨ (command ≠ some SET ∧ command ≠ some GET ∧
        command ≠ some DEL) then
      some (false, split_message)
    else if command = some SET ∧ lineNum > 3 then
      some (true, joinValue split_message)
    else some (true, split_message)

def parseClusterMsg (str : Str) : Option (Bool × List Str) :=
  if str = [] then some (false, [])
  else do
    let split_message ← (getlines str).mapM popBack
    some (decide (¬ split_message.length < 2), split_message)

def crlf : Str := "\r\n".toList

def getClusterPrepareRequestMsg (id : Int) (split_message : List Str) : Str :=
  split_message.foldl (fun msg str => msg ++ str ++ crlf)
    (PREPARED_REQUEST ++ crlf ++ decimal id ++ crlf)

def getClusterCommitMsg (id : Int) : Str := COMMIT ++ crlf ++ decimal id ++ crlf

def getClusterAbortMsg (id : Int) : Str := ABORT ++ crlf ++ decimal id ++ crlf

def getClusterPrepareMsg (id : Int) (method : Str) : Str :=
  PREPARED ++ crlf ++ decimal id ++ crlf ++ method ++ crlf

def getClusterDoneMsg (id : Int) (method additionStr : Str) : Str :=
  if additionStr ≠ [] then
    DONE ++ crlf ++ decimal id ++ crlf ++ method ++ crlf ++ additionStr ++ crlf
  else DONE ++ crlf ++ decimal id ++ crlf ++ method ++ crlf

def getClientOKMsg : Str := "+OK\r\n".toList

def getClientERRORMsg : Str := "-ERROR\r\n".toList

def cutStringBySpace (str : Str) : List Str := if str = [] then [] else words str

def bulk (word : Str) : Str := '$' :: decimal word.length ++ crlf ++ word ++ crlf

def respArray (elements : List Str) : Str :=
  '*' :: decimal elements.length ++ crlf ++ elements.flatMap bulk

def getClientGetOrDelMsg (_id : Int) (split_message : List Str) : Str :=
  match split_message with
  | [_, _, method, addition] =>
      if method = GET then
        let split_value := cutStringBySpace addition
        split_value.foldl (fun retMsg word => retMsg ++ bulk word)
          ('*' :: decimal split_value.length ++ crlf)
      else if method = DEL then ':' :: addition ++ crlf
      else getClientERRORMsg
  | _ => getClientERRORMsg

/-! What the encoders produce, line by line. -/

def wire (lines : List Str) : Str := lines.flatMap (fun line => line ++ crlf)

@[simp] theorem wire_nil : wire [] = [] := rfl

@[simp] theorem wire_cons (line : Str) (lines : List Str) :
    wire (line :: lines) = line ++ crlf ++ wire lines := by
  simp [wire]

theorem wire_append (first second : List Str) : wire (first ++ second) = wire first ++ wire second := by
  simp [wire]

theorem foldl_crlf (lines : List Str) (start : Str) :
    lines.foldl (fun msg str => msg ++ str ++ crlf) start = start ++ wire lines := by
  induction lines generalizing start with
  | nil => simp
  | cons line lines ih =>
    rw [List.foldl_cons, ih, wire_cons]
    simp

theorem prepareRequest_wire (id : Int) (split_message : List Str) :
    getClusterPrepareRequestMsg id split_message =
      wire (PREPARED_REQUEST :: decimal id :: split_message) := by
  rw [getClusterPrepareRequestMsg, foldl_crlf]
  simp only [wire_cons, List.append_assoc]

theorem commit_wire (id : Int) : getClusterCommitMsg id = wire [COMMIT, decimal id] := by
  simp only [getClusterCommitMsg, wire_cons, wire_nil, List.append_nil, List.append_assoc]

theorem abort_wire (id : Int) : getClusterAbortMsg id = wire [ABORT, decimal id] := by
  simp only [getClusterAbortMsg, wire_cons, wire_nil, List.append_nil, List.append_assoc]

theorem prepare_wire (id : Int) (method : Str) :
    getClusterPrepareMsg id method = wire [PREPARED, decimal id, method] := by
  simp only [getClusterPrepareMsg, wire_cons, wire_nil, List.append_nil, List.append_assoc]

theorem done_wire (id : Int) (method additionStr : Str) :
    getClusterDoneMsg id method additionStr =
      wire ([DONE, decimal id, method] ++ if additionStr = [] then [] else [additionStr]) := by
  unfold getClusterDoneMsg
  by_cases empty : additionStr = []
  · simp only [empty, ne_eq, not_true_eq_false, if_false, if_true, List.append_nil, wire_cons,
      wire_nil, List.append_assoc]
  · simp only [empty, ne_eq, not_false_eq_true, if_true, if_false, wire_append, wire_cons, wire_nil,
      List.append_nil, List.append_assoc]

theorem getlines_wire {lines : List Str} (plain : ∀ line ∈ lines, '\n' ∉ line) :
    getlines (wire lines) = lines.map (fun line => line ++ ['\r']) := by
  induction lines with
  | nil => rfl
  | cons line lines ih =>
    have noNewline : '\n' ∉ line ++ ['\r'] := by
      have head := plain line (by simp)
      simp [head]
    have split : wire (line :: lines) = (line ++ ['\r']) ++ '\n' :: wire lines := by
      simp [crlf]
    rw [split, getlines_line _ _ noNewline, List.map_cons,
      ih (fun other member => plain other (List.mem_cons_of_mem _ member))]

theorem mapM_popBack (lines : List Str) :
    (lines.map (fun line => line ++ ['\r'])).mapM popBack = some lines := by
  induction lines with
  | nil => rfl
  | cons line lines ih =>
    simp only [List.map_cons, List.mapM_cons, popBack_append_singleton, ih]
    rfl

theorem wire_ne_nil {lines : List Str} (nonempty : lines ≠ []) : wire lines ≠ [] := by
  cases lines with
  | nil => exact absurd rfl nonempty
  | cons line lines => simp [crlf]

/-- The cluster parser undoes the wire encoding of every list of lines without LF. -/
theorem parseClusterMsg_wire {lines : List Str} (nonempty : lines ≠ [])
    (plain : ∀ line ∈ lines, '\n' ∉ line) :
    parseClusterMsg (wire lines) = some (decide (¬ lines.length < 2), lines) := by
  unfold parseClusterMsg
  rw [if_neg (wire_ne_nil nonempty), getlines_wire plain, mapM_popBack]
  rfl

end CloudLab.TwoPC
