import CloudLab.TwoPC.Decoding
import CloudLab.TwoPC.Request

/-! What the two parsers make of the end of a line: the last byte goes, whatever it is. -/

namespace CloudLab.TwoPC
open Text

def Stripped (line element : Str) : Prop := line = element ∨ line = element ++ ['\r']

/-- `parseClusterMsg` takes no byte off an empty line, and each element is its line but for a
trailing CR. -/
def ClusterStrips (str : Str) : Prop :=
  ∃ accepted elements, parseClusterMsg str = some (accepted, elements) ∧ List.Forall₂ Stripped (getlines str) elements

/-- So does `parseClientMsg` with the lines that it keeps, before it joins the value of a SET. -/
def ClientStrips (str : Str) : Prop :=
  ∃ elements, parseClientMsg str = some (acceptLines elements) ∧
    List.Forall₂ Stripped ((getlines str).filter keptLine) elements

def EndsInCR (line : Str) : Prop := line.getLast? = some '\r'

instance (line : Str) : Decidable (EndsInCR line) := inferInstanceAs (Decidable (_ = _))

theorem endsInCR_iff {line : Str} : EndsInCR line ↔ ∃ element, line = element ++ ['\r'] := by
  rw [EndsInCR, List.getLast?_eq_some_iff]

theorem payloadLines_eq (lines : List Str) : payloadLines lines = (lines.filter keptLine).mapM popBack := by
  induction lines with
  | nil => rfl
  | cons temp rest ih =>
    rw [payloadLines, ih, List.filter_cons]
    by_cases kept : temp.head? ≠ some '*' ∧ temp.head? ≠ some '$'
    · rw [if_pos kept, if_pos (show keptLine temp = true from decide_eq_true kept), List.mapM_cons]
      rfl
    · rw [if_neg kept, if_neg (show ¬ keptLine temp = true from fun is => kept (of_decide_eq_true is))]

theorem mapM_popBack_stripped {lines : List Str} (closed : ∀ line ∈ lines, EndsInCR line) :
    ∃ elements, lines.mapM popBack = some elements ∧ List.Forall₂ Stripped lines elements := by
  induction lines with
  | nil => exact ⟨[], rfl, .nil⟩
  | cons line lines ih =>
    obtain ⟨closed, others⟩ := List.forall_mem_cons.mp closed
    obtain ⟨elements, popped, stripped⟩ := ih others
    obtain ⟨element, rfl⟩ := endsInCR_iff.mp closed
    refine ⟨element :: elements, ?_, .cons (Or.inr rfl) stripped⟩
    rw [List.mapM_cons, popBack_append_singleton, popped]
    rfl

theorem room_popped {lines popped elements : List Str} (pops : lines.mapM popBack = some popped)
    (stripped : List.Forall₂ Stripped lines elements) :
    room popped ≤ room elements ∧ (room popped = room elements → ∀ line ∈ lines, EndsInCR line) := by
  induction stripped generalizing popped with
  | nil =>
    cases pops
    exact ⟨Nat.le_refl _, fun _ line member => nomatch member⟩
  | @cons line element lines elements kept stripped ih =>
    rw [List.mapM_cons] at pops
    obtain ⟨first, here, pops⟩ := Option.bind_eq_some_iff.mp pops
    obtain ⟨others, later, pops⟩ := Option.bind_eq_some_iff.mp pops
    cases pops
    obtain ⟨fewer, all⟩ := ih later
    have shorter : first.length + 1 = line.length := by
      unfold popBack at here
      split at here
      · cases here
      · next filled =>
        cases here
        have positive := List.length_pos_iff.mpr filled
        rw [List.length_dropLast]
        omega
    rw [room_cons, room_cons]
    rcases kept with rfl | rfl
    · exact ⟨by omega, fun same => by omega⟩
    · rw [List.length_append, List.length_singleton] at shorter
      refine ⟨by omega, fun same => List.forall_mem_cons.mpr ⟨endsInCR_iff.mpr ⟨element, rfl⟩, all (by omega)⟩⟩

theorem clusterStrips_iff (str : Str) : ClusterStrips str ↔ ∀ line ∈ getlines str, EndsInCR line := by
  by_cases empty : str = []
  · subst empty
    exact iff_of_true ⟨false, [], rfl, .nil⟩ fun line member => nomatch member
  constructor
  · rintro ⟨accepted, elements, parsed, stripped⟩
    rw [parseClusterMsg, if_neg empty] at parsed
    obtain ⟨popped, pops, same⟩ := Option.bind_eq_some_iff.mp parsed
    cases same
    exact (room_popped pops stripped).2 rfl
  · intro closed
    obtain ⟨elements, popped, stripped⟩ := mapM_popBack_stripped closed
    refine ⟨decide (¬ elements.length < 2), elements, ?_, stripped⟩
    rw [parseClusterMsg, if_neg empty, popped]
    rfl

theorem clientStrips_iff (str : Str) :
    ClientStrips str ↔ ∀ line ∈ getlines str, keptLine line = true → EndsInCR line := by
  have among : (∀ line ∈ getlines str, keptLine line = true → EndsInCR line) ↔
      ∀ line ∈ (getlines str).filter keptLine, EndsInCR line := by
    simp only [List.mem_filter, and_imp]
  rw [among]
  by_cases empty : str = []
  · subst empty
    exact iff_of_true ⟨[], rfl, .nil⟩ fun line member => nomatch member
  rw [ClientStrips, parseClientMsg_eq empty, payloadLines_eq]
  constructor
  · rintro ⟨elements, parsed, stripped⟩
    obtain ⟨popped, pops, same⟩ := Option.map_eq_some_iff.mp parsed
    -- joining the value of a SET keeps the room
    have rooms : room popped = room elements := by
      rw [← acceptLines_room popped, ← acceptLines_room elements, same]
    exact (room_popped pops stripped).2 rooms
  · intro closed
    obtain ⟨elements, popped, stripped⟩ := mapM_popBack_stripped closed
    exact ⟨elements, by rw [popped, Option.map_some], stripped⟩

/-- The two parsers strip nothing but line ends exactly when every line that they keep ends in CR. -/
theorem strips_line_ends_iff (str : Str) :
    (ClientStrips str ↔ ∀ line ∈ getlines str, keptLine line = true → EndsInCR line) ∧
      (ClusterStrips str ↔ ∀ line ∈ getlines str, EndsInCR line) :=
  ⟨clientStrips_iff str, clusterStrips_iff str⟩

/-- `GET ab`, where LF alone ends the last line: the key loses its last byte. -/
theorem bare_newline_not_stripped :
    parseClientMsg "GET\r\nab\n".toList = some (true, [GET, "a".toList]) ∧
      parseClusterMsg "GET\r\nab\n".toList = some (true, [GET, "a".toList]) ∧
      ¬ ∀ str, ClientStrips str ∧ ClusterStrips str := by
  refine ⟨by decide, by decide, fun strips => ?_⟩
  have closed := (clusterStrips_iff "GET\r\nab\n".toList).mp (strips _).2
  revert closed
  decide

/-! The messages of the cluster, and what may stand in them. -/

theorem acceptLines_plain {lines : List Str} (plain : ∀ line ∈ lines, '\n' ∉ line) :
    ∀ line ∈ (acceptLines lines).2, '\n' ∉ line := by
  unfold acceptLines
  split
  · exact plain
  · split
    · match lines with
      | [] => exact plain
      | [_] => exact plain
      | [_, _] => exact plain
      | command :: key :: value :: words =>
        have joined := joinWords_plain words (plain value (by simp)) fun word inside => plain word (by simp [inside])
        intro line member
        simp only [joinValue, List.mem_cons, List.not_mem_nil, or_false] at member
        rcases member with rfl | rfl | rfl
        · exact plain _ (by simp)
        · exact plain _ (by simp)
        · exact joined
    · exact plain

theorem mapM_popBack_filled {lines : List Str} (filled : ∀ line ∈ lines, line ≠ []) :
    ∃ elements, lines.mapM popBack = some elements := by
  induction lines with
  | nil => exact ⟨[], rfl⟩
  | cons line lines ih =>
    obtain ⟨filled, others⟩ := List.forall_mem_cons.mp filled
    obtain ⟨elements, popped⟩ := ih others
    refine ⟨line.dropLast :: elements, ?_⟩
    rw [List.mapM_cons, popBack, if_neg filled, popped]
    rfl

theorem parseClientMsg_filled {str : Str} (filled : ∀ line ∈ getlines str, line ≠ []) :
    ∃ accepted list, parseClientMsg str = some (accepted, list) ∧ ∀ s ∈ list, '\n' ∉ s := by
  by_cases empty : str = []
  · subst empty
    exact ⟨false, [], rfl, fun s member => nomatch member⟩
  have kept : ∀ line ∈ (getlines str).filter keptLine, line ≠ [] := fun line member => filled line (List.mem_filter.mp member).1
  obtain ⟨lines, popped⟩ := mapM_popBack_filled kept
  rw [← payloadLines_eq] at popped
  refine ⟨(acceptLines lines).1, (acceptLines lines).2, by rw [parseClientMsg_eq empty, popped]; rfl, ?_⟩
  exact acceptLines_plain (payloadLines_plain (newline_not_mem_getlines str) popped)

/-- The cluster's parser gives back the fields of every message that the coordinator sends and of
the answer of the first phase, and nothing that the client's parser returns stands in its way. -/
theorem cluster_round_trip :
    (∀ (id : Int) (list : List Str), (∀ s ∈ list, '\n' ∉ s) →
      parseClusterMsg (getClusterPrepareRequestMsg id list) = some (true, PREPARED_REQUEST :: decimal id :: list)) ∧
    (∀ id : Int, parseClusterMsg (getClusterCommitMsg id) = some (true, [COMMIT, decimal id])) ∧
    (∀ id : Int, parseClusterMsg (getClusterAbortMsg id) = some (true, [ABORT, decimal id])) ∧
    (∀ (id : Int) (method : Str), '\n' ∉ method →
      parseClusterMsg (getClusterPrepareMsg id method) = some (true, [PREPARED, decimal id, method])) ∧
    ∀ str : Str, (∀ line ∈ getlines str, line ≠ []) →
      ∃ accepted list, parseClientMsg str = some (accepted, list) ∧ (∀ s ∈ list, '\n' ∉ s) ∧
        ∀ id : Int, parseClusterMsg (getClusterPrepareRequestMsg id list) =
          some (true, PREPARED_REQUEST :: decimal id :: list) := by
  have request (id : Int) (list : List Str) (plain : ∀ s ∈ list, '\n' ∉ s) :
      parseClusterMsg (getClusterPrepareRequestMsg id list) = some (true, PREPARED_REQUEST :: decimal id :: list) := by
    rw [prepareRequest_wire, parseClusterMsg_wire (List.cons_ne_nil _ _)]
    · simp
    · exact List.forall_mem_cons.mpr ⟨by decide, List.forall_mem_cons.mpr ⟨newline_not_mem_decimal id, plain⟩⟩
  have decision (id : Int) {kind : Str} (plain : '\n' ∉ kind) :
      parseClusterMsg (wire [kind, decimal id]) = some (true, [kind, decimal id]) := by
    rw [parseClusterMsg_wire (List.cons_ne_nil _ _)]
    · rfl
    · simp [plain, newline_not_mem_decimal]
  refine ⟨request, fun id => ?_, fun id => ?_, fun id method plain => ?_, fun str filled => ?_⟩
  · rw [commit_wire, decision id (by decide)]
  · rw [abort_wire, decision id (by decide)]
  · have word : '\n' ∉ PREPARED := by decide
    rw [prepare_wire, parseClusterMsg_wire (List.cons_ne_nil _ _)]
    · rfl
    · simp [word, plain, newline_not_mem_decimal]
  · obtain ⟨accepted, list, parsed, plain⟩ := parseClientMsg_filled filled
    exact ⟨accepted, list, parsed, plain, fun id => request id list plain⟩

theorem cluster_round_trip_cr :
    parseClusterMsg (getClusterPrepareRequestMsg (-7) [SET, [], "a\r".toList]) =
      some (true, [PREPARED_REQUEST, decimal (-7), SET, [], "a\r".toList]) :=
  cluster_round_trip.1 (-7) [SET, [], "a\r".toList] (by decide)

end CloudLab.TwoPC
