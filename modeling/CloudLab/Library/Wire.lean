import CloudLab.Library.CString

/-! Texts made of lines that CRLF closes, as the reader of a connection takes them off. -/

namespace CloudLab.Text

def takeLine (s : Str) : Option (Str × Str) := (strstr "\r\n".toList s).map fun n => (s.take n, s.drop (n + 2))

/-- The lines before the first empty one, and what follows that. -/
def takeHead : Nat → Str → Option (List Str × Str)
  | 0, _ => none
  | fuel + 1, s =>
      (takeLine s).bind fun first =>
        if first.1 = [] then some ([], first.2)
        else (takeHead fuel first.2).map fun others => (first.1 :: others.1, others.2)

theorem takeLine_line {line : Str} (plain : '\r' ∉ line) (rest : Str) :
    takeLine (line ++ ("\r\n".toList ++ rest)) = some (line, rest) := by
  have found : strstr "\r\n".toList (line ++ ("\r\n".toList ++ rest)) = some line.length :=
    strstr_eq_some_iff.mpr ((First.zero (List.prefix_append _ _)).skip plain)
  have after : (line ++ ("\r\n".toList ++ rest)).drop (line.length + 2) = rest := by
    rw [← List.drop_drop, List.drop_left]
    rfl
  rw [takeLine, found, Option.map_some, List.take_left, after]

theorem takeHead_lines {lines : List Str} (plain : ∀ line ∈ lines, line ≠ [] ∧ '\r' ∉ line) {fuel : Nat}
    (enough : lines.length < fuel) (rest : Str) :
    takeHead fuel ((lines.flatMap fun line => line ++ "\r\n".toList) ++ ("\r\n".toList ++ rest)) = some (lines, rest) := by
  induction lines generalizing fuel with
  | nil =>
    obtain ⟨fuel, rfl⟩ := Nat.exists_eq_succ_of_ne_zero (Nat.ne_zero_of_lt enough)
    have empty : takeLine ("\r\n".toList ++ rest) = some ([], rest) := takeLine_line List.not_mem_nil rest
    rw [List.flatMap_nil, List.nil_append, Nat.succ_eq_add_one, takeHead, empty]
    rfl
  | cons line lines ih =>
    obtain ⟨fuel, rfl⟩ := Nat.exists_eq_succ_of_ne_zero (Nat.ne_zero_of_lt enough)
    obtain ⟨first, others⟩ := List.forall_mem_cons.mp plain
    have later := ih others (Nat.lt_of_succ_lt_succ enough)
    rw [List.flatMap_cons, List.append_assoc, List.append_assoc, Nat.succ_eq_add_one, takeHead, takeLine_line first.2,
      Option.bind_some, if_neg first.1, later]
    rfl

end CloudLab.Text
