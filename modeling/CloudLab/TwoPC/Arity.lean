import CloudLab.TwoPC.Request

/-! Which client requests a participant can read the fields of. The client parser asks for
two strings of every command; a SET needs three. -/

namespace CloudLab.TwoPC
open Text ByteStream

/-- The messages the participants are sent for the requests the coordinator accepts. -/
inductive Forwarded (requests : List Str) : Str → Prop
  | request {data : Str} {fields : List Str} (id : Int) : data ∈ requests →
      parseClientMsg data = some (true, fields) → 0 ≤ id → id ≤ 9999 →
        Forwarded requests (getClusterPrepareRequestMsg id fields)
  | commit (id : Int) : 0 ≤ id → id ≤ 9999 → Forwarded requests (getClusterCommitMsg id)
  | abort (id : Int) : 0 ≤ id → id ≤ 9999 → Forwarded requests (getClusterAbortMsg id)

/-- The participant handles what its successive reads return, without an index out of range
or an exception, until the reads end or it shuts down. -/
def Survives : Participant → List Str → Prop
  | _, [] => True
  | p, data :: reads =>
      match handleData p data with
      | none => False
      | some handled => handled.next = .shutdown ∨ Survives handled.state reads

/-- No participant crashes on any messages of these requests, in any order and number, also
when a read returns several of them at once. -/
def NeverCrash (requests : List Str) : Prop :=
  ∀ reads : List (List Str), (∀ read ∈ reads, read ≠ [] ∧ ∀ message ∈ read, Forwarded requests message) →
    Survives Participant.init (reads.map List.flatten)

structure ReadAs (lines : List Str) : Prop where
  plain : ∀ line ∈ lines, '\n' ∉ line
  long : 2 ≤ lines.length
  handled : ∀ more, ∃ trimmed, Parsed trimmed ∧
    ∀ p, handleMessage p (lines ++ more) = handleMessage p trimmed

theorem handleMessage_trim_decision (p : Participant) (kind idStr : Str) (more : List Str)
    (decision : kind = COMMIT ∨ kind = ABORT) :
    handleMessage p (kind :: idStr :: more) = handleMessage p [kind, idStr] := by
  rcases decision with rfl | rfl <;> rfl

theorem readAs_decision {kind : Str} (id : Int) (low : 0 ≤ id) (high : id ≤ 9999)
    (decision : kind = COMMIT ∨ kind = ABORT) : ReadAs [kind, decimal id] := by
  have read : (stoi (decimal id)).isSome := by
    rw [stoi_decimal (by omega) (by omega)]
    rfl
  constructor
  · intro line member
    simp only [List.mem_cons, List.not_mem_nil, or_false] at member
    rcases member with rfl | rfl
    · rcases decision with rfl | rfl <;> exact no_newline_words _ (by simp)
    · exact newline_not_mem_decimal id
  · simp
  · intro more
    refine ⟨[kind, decimal id], ?_, fun p => handleMessage_trim_decision p kind _ more decision⟩
    rcases decision with rfl | rfl
    · exact .commit _ read
    · exact .abort _ read

theorem readAs_request {data : Str} {fields : List Str} (id : Int) (low : 0 ≤ id) (high : id ≤ 9999)
    (accepted : parseClientMsg data = some (true, fields)) (valued : ∀ key, fields ≠ [SET, key]) :
    ReadAs (PREPARED_REQUEST :: decimal id :: fields) := by
  have read : (stoi (decimal id)).isSome := by
    rw [stoi_decimal (by omega) (by omega)]
    rfl
  obtain ⟨plain, key, rest, shape⟩ := parseClientMsg_true accepted
  constructor
  · intro line member
    simp only [List.mem_cons] at member
    rcases member with rfl | rfl | inside
    · exact no_newline_words _ (by simp)
    · exact newline_not_mem_decimal id
    · exact plain line inside
  · simp
  · intro more
    rcases shape with rfl | rfl | ⟨rfl, short⟩
    · exact ⟨_, .get (decimal id) key read, fun p => rfl⟩
    · exact ⟨_, .del (decimal id) key (rest ++ more) read, fun p => rfl⟩
    · match rest with
      | [] => exact absurd rfl (valued key)
      | [value] => exact ⟨_, .set (decimal id) key value read, fun p => rfl⟩
      | _ :: _ :: _ => simp at short

def Valued (requests : List Str) : Prop :=
  ∀ data ∈ requests, ∀ key, parseClientMsg data ≠ some (true, [SET, key])

theorem Forwarded.readAs {requests : List Str} (valued : Valued requests) {message : Str}
    (forwarded : Forwarded requests message) : ∃ lines, message = wire lines ∧ ReadAs lines := by
  cases forwarded with
  | request id member accepted low high =>
    refine ⟨_, prepareRequest_wire id _, readAs_request id low high accepted ?_⟩
    intro key same
    rw [same] at accepted
    exact valued _ member key accepted
  | commit id low high => exact ⟨_, commit_wire id, readAs_decision id low high (Or.inl rfl)⟩
  | abort id low high => exact ⟨_, abort_wire id, readAs_decision id low high (Or.inr rfl)⟩

theorem forwarded_flatten {requests : List Str} (valued : Valued requests) {read : List Str}
    (forwarded : ∀ message ∈ read, Forwarded requests message) :
    ∃ lines, read.flatten = wire lines ∧ ∀ line ∈ lines, '\n' ∉ line := by
  induction read with
  | nil => exact ⟨[], rfl, by simp⟩
  | cons message read ih =>
    obtain ⟨first, text, readAs⟩ := (forwarded message (by simp)).readAs valued
    obtain ⟨others, rest, plain⟩ := ih fun other member => forwarded other (List.mem_cons_of_mem _ member)
    refine ⟨first ++ others, by rw [List.flatten_cons, text, rest, wire_append], ?_⟩
    intro line member
    rcases List.mem_append.mp member with early | late
    · exact readAs.plain line early
    · exact plain line late

theorem handleData_forwarded {requests : List Str} (valued : Valued requests) {read : List Str}
    (nonempty : read ≠ []) (forwarded : ∀ message ∈ read, Forwarded requests message)
    {p : Participant} {committed : Db} (consistent : Consistent p committed) :
    ∃ handled committed', handleData p read.flatten = some handled ∧
      Consistent handled.state committed' := by
  obtain ⟨message, others, rfl⟩ := List.exists_cons_of_ne_nil nonempty
  obtain ⟨lines, text, readAs⟩ := (forwarded message (by simp)).readAs valued
  obtain ⟨more, rest, plain⟩ := forwarded_flatten valued
    fun other member => forwarded other (List.mem_cons_of_mem message member)
  have whole : (message :: others).flatten = wire (lines ++ more) := by
    rw [List.flatten_cons, text, rest, wire_append]
  have long := readAs.long
  have filled : lines ++ more ≠ [] := by
    apply List.ne_nil_of_length_pos
    rw [List.length_append]
    omega
  have parsed : parseClusterMsg (wire (lines ++ more)) = some (true, lines ++ more) := by
    rw [parseClusterMsg_wire filled]
    · rw [List.length_append]
      simp only [Option.some.injEq, Prod.mk.injEq, decide_eq_true_eq, and_true]
      omega
    · intro line member
      rcases List.mem_append.mp member with early | late
      · exact readAs.plain line early
      · exact plain line late
  obtain ⟨trimmed, good, same⟩ := readAs.handled more
  obtain ⟨handled, result, kept⟩ := handleMessage_consistent good consistent
  refine ⟨handled, _, ?_, kept⟩
  rw [whole, handleData, parsed]
  simp only [Option.bind_eq_bind, Option.bind_some, if_true, same, result]

theorem survives_of_valued {requests : List Str} (valued : Valued requests) (reads : List (List Str))
    (forwarded : ∀ read ∈ reads, read ≠ [] ∧ ∀ message ∈ read, Forwarded requests message)
    {p : Participant} {committed : Db} (consistent : Consistent p committed) :
    Survives p (reads.map List.flatten) := by
  induction reads generalizing p committed with
  | nil => trivial
  | cons read reads ih =>
    obtain ⟨nonempty, messages⟩ := forwarded read (by simp)
    obtain ⟨handled, committed', result, kept⟩ :=
      handleData_forwarded valued nonempty messages consistent
    rw [List.map_cons, Survives, result]
    exact Or.inr (ih (fun other member => forwarded other (List.mem_cons_of_mem _ member)) kept)

theorem handleData_short {data key : Str} (id : Int)
    (accepted : parseClientMsg data = some (true, [SET, key])) (p : Participant) (phase : p.phase = 1) :
    handleData p (getClusterPrepareRequestMsg id [SET, key]) = none := by
  have plain : ∀ line ∈ [PREPARED_REQUEST, decimal id, SET, key], '\n' ∉ line := by
    intro line member
    rcases List.mem_cons.mp member with rfl | member
    · exact no_newline_words _ (by simp)
    · rcases List.mem_cons.mp member with rfl | member
      · exact newline_not_mem_decimal id
      · exact (parseClientMsg_true accepted).1 line member
  have parsed : parseClusterMsg (wire [PREPARED_REQUEST, decimal id, SET, key]) =
      some (true, [PREPARED_REQUEST, decimal id, SET, key]) := by
    rw [parseClusterMsg_wire (by simp) plain]
    rfl
  rw [prepareRequest_wire, handleData, parsed]
  simp only [Option.bind_eq_bind, Option.bind_some, if_true]
  rw [handleMessage_request_clean phase, handlePreparePhase_short]
  rfl

/-- Whatever the coordinator accepts and forwards, in any order: the participants never read
out of range exactly when no accepted request is a SET with a key alone. -/
theorem never_crash_iff (requests : List Str) : NeverCrash requests ↔ Valued requests := by
  constructor
  · intro never data member key accepted
    have forwarded : Forwarded requests (getClusterPrepareRequestMsg 0 [SET, key]) :=
      .request 0 member accepted (by decide) (by decide)
    have survives := never [[getClusterPrepareRequestMsg 0 [SET, key]]] (by simpa using forwarded)
    have crash := handleData_short 0 accepted Participant.init rfl
    simp only [List.map_cons, List.map_nil, List.flatten_cons, List.flatten_nil, List.append_nil,
      Survives, crash] at survives
  · intro valued reads forwarded
    exact survives_of_valued valued reads forwarded (consistent_clean rfl rfl)

/-- `SET k` without a value ends the process of a participant that has just started. -/
theorem set_without_value_crashes :
    let set := "*2\r\n$3\r\nSET\r\n$1\r\nk\r\n".toList
    parseClientMsg set = some (true, [SET, "k".toList]) ∧
      handleData Participant.init (getClusterPrepareRequestMsg 7 [SET, "k".toList]) = none ∧
      ¬ NeverCrash [set] := by
  intro set
  have accepted : parseClientMsg set = some (true, [SET, "k".toList]) := by decide
  have crash := handleData_short 7 accepted Participant.init rfl
  refine ⟨accepted, crash, ?_⟩
  intro never
  have forwarded : Forwarded [set] (getClusterPrepareRequestMsg 7 [SET, "k".toList]) :=
    .request 7 (by simp) accepted (by decide) (by decide)
  have survives := never [[getClusterPrepareRequestMsg 7 [SET, "k".toList]]] (by simpa using forwarded)
  simp only [List.map_cons, List.map_nil, List.flatten_cons, List.flatten_nil, List.append_nil,
    Survives, crash] at survives

end CloudLab.TwoPC
