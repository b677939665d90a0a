import CloudLab.TwoPC.Sequential

/-! When the request parser is the inverse of the RESP encoding. It drops every line that
begins with `*` or `$`, counts and payload alike, and does not look at the counts. -/

namespace CloudLab.TwoPC
open Text

/-- The room that lines take, each with one separator. -/
def room (lines : List Str) : Nat := (lines.map fun line => line.length + 1).sum

@[simp] theorem room_cons (line : Str) (lines : List Str) :
    room (line :: lines) = line.length + 1 + room lines := by
  simp [room]

theorem joinWords_room (words : List Str) (value : Str) :
    (words.foldl (fun joined word => joined ++ ' ' :: word) value).length = value.length + room words := by
  induction words generalizing value with
  | nil => rfl
  | cons word words ih =>
    rw [List.foldl_cons, ih, List.length_append, List.length_cons, room_cons]
    omega

theorem joinValue_room (lines : List Str) : room (joinValue lines) = room lines := by
  match lines with
  | [] => rfl
  | [_] => rfl
  | [_, _] => rfl
  | command :: key :: value :: words =>
    simp only [joinValue, room_cons, joinWords_room]
    simp only [room, List.map_nil, List.sum_nil]
    omega

theorem acceptLines_room (lines : List Str) : room (acceptLines lines).2 = room lines := by
  unfold acceptLines
  split
  · rfl
  · split
    · exact joinValue_room lines
    · rfl

theorem Request.fields_room (r : Request) : room r.fields = room r.strings := by
  rw [← acceptLines_room r.strings, acceptLines_strings]

theorem filter_room {kept : Str → Bool} (lines : List Str) :
    room (lines.filter kept) ≤ room lines ∧
      (room (lines.filter kept) = room lines → ∀ line ∈ lines, kept line = true) := by
  induction lines with
  | nil => exact ⟨Nat.le_refl _, fun _ line member => absurd member (List.not_mem_nil)⟩
  | cons line lines ih =>
    obtain ⟨fewer, all⟩ := ih
    rw [List.filter_cons, room_cons]
    split
    · next here =>
      rw [room_cons]
      refine ⟨by omega, fun same => ?_⟩
      exact List.forall_mem_cons.mpr ⟨here, all (by omega)⟩
    · exact ⟨by omega, fun same => by omega⟩

/-- A request of strings without LF is decoded exactly when no string after the command
begins with `*` or `$`. -/
theorem parseClientMsg_encode_iff (r : Request) (plain : ∀ s ∈ r.strings.tail, '\r' ∉ s ∧ '\n' ∉ s) :
    parseClientMsg r.encode = some (true, r.fields) ↔
      ∀ s ∈ r.strings.tail, s.head? ≠ some '*' ∧ s.head? ≠ some '$' := by
  have lines : ∀ s ∈ r.strings, '\n' ∉ s := Request.strings_plain fun s member => (plain s member).2
  constructor
  · intro parsed s member
    rw [Request.encode, parseClientMsg_respArray lines, Option.some.injEq] at parsed
    have same : room (r.strings.filter keptLine) = room r.strings :=
      calc room (r.strings.filter keptLine)
          = room (acceptLines (r.strings.filter keptLine)).2 := (acceptLines_room _).symm
        _ = room r.fields := by rw [parsed]
        _ = room r.strings := r.fields_room
    exact of_decide_eq_true ((filter_room r.strings).2 same s (List.mem_of_mem_tail member))
  · intro unmarked
    exact parseClientMsg_unmarked lines fun s member => decide_eq_true (unmarked s member)

/-- `SET a $5 b`: the value is taken for the length of a bulk string, and `b` is stored. -/
theorem parseClientMsg_dollar :
    let r := Request.set "a".toList "$5".toList ["b".toList]
    (∀ s ∈ r.strings.tail, '\r' ∉ s ∧ '\n' ∉ s) ∧ r.fields = [SET, "a".toList, "$5 b".toList] ∧
      parseClientMsg r.encode = some (true, [SET, "a".toList, "b".toList]) ∧
      parseClientMsg r.encode ≠ some (true, r.fields) := by
  decide

theorem parseClientMsg_encode_iff_empty :
    parseClientMsg (Request.set [] "a".toList [[]]).encode =
        some (true, (Request.set [] "a".toList [[]]).fields) ↔
      ∀ s ∈ (Request.set [] "a".toList [[]]).strings.tail, s.head? ≠ some '*' ∧ s.head? ≠ some '$' :=
  parseClientMsg_encode_iff (.set [] "a".toList [[]]) (by decide)

end CloudLab.TwoPC
