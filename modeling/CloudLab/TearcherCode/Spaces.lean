import CloudLab.TearcherCode.Board

/-! The board with the list of its blank cells, and how a line of a puzzle file fills both. -/

namespace CloudLab.TearcherCode

/-- `board`, `spaces` and `nspaces`. -/
structure Globals where
  board : Board
  spaces : Nat → Cell
  nspaces : Nat

namespace Globals

def setCell (s : Globals) (cell : Cell) (val : Value) : Globals :=
  { s with board := Function.update s.board cell val }

def space (s : Globals) (i : Nat) : Option Cell := if i < 81 then some (s.spaces i) else none

def addSpace (s : Globals) (cell : Cell) : Option Globals :=
  if s.nspaces < 81 then
    some { s with spaces := Function.update s.spaces s.nspaces cell, nspaces := s.nspaces + 1 }
  else none

def swapSpaces (s : Globals) (i j : Nat) : Globals :=
  { s with spaces := Function.update (Function.update s.spaces i (s.spaces j)) j (s.spaces i) }

end Globals

def find_spaces (s : Globals) : Option Globals :=
  (List.finRange 81).foldlM (fun s cell => if s.board cell = 0 then s.addSpace cell else some s)
    { s with nspaces := 0 }

def inputCell (puzzle : List Int8) (s : Globals) (cell : Cell) : Option Globals :=
  puzzle[cell.val]?.bind fun ch =>
    if inside : 0 ≤ ch.toInt - 48 ∧ ch.toInt - 48 ≤ 9 then
      some (s.setCell cell ⟨(ch.toInt - 48).toNat, by omega⟩)
    else none

def input (puzzle : List Int8) (s : Globals) : Option Globals := do
  let s ← (List.finRange 81).foldlM (inputCell puzzle) s
  find_spaces s

/-! The spaces from `which_space` on are the blank cells. -/

structure Listed (which_space : Nat) (s : Globals) : Prop where
  bounded : s.nspaces ≤ 81
  started : which_space ≤ s.nspaces
  blank : ∀ cell, s.board cell = 0 ↔ ∃ i, which_space ≤ i ∧ i < s.nspaces ∧ s.spaces i = cell
  distinct : ∀ i j, which_space ≤ i → i < s.nspaces → which_space ≤ j → j < s.nspaces →
    s.spaces i = s.spaces j → i = j

/-- The same globals but for the order of the spaces from `which_space` on. -/
def Reordered (which_space : Nat) (s t : Globals) : Prop :=
  t.board = s.board ∧ t.nspaces = s.nspaces ∧ ∃ order : Equiv.Perm Nat,
    (∀ i, i < which_space ∨ s.nspaces ≤ i → order i = i) ∧ t.spaces = s.spaces ∘ order

section order
variable {s t u : Globals} {which_space i : Nat}

theorem Reordered.refl (which_space : Nat) (s : Globals) : Reordered which_space s s :=
  ⟨rfl, rfl, 1, fun _ _ => rfl, rfl⟩

theorem Reordered.trans (first : Reordered which_space s t) (second : Reordered which_space t u) :
    Reordered which_space s u := by
  obtain ⟨board, nspaces, order, fixes, spaces⟩ := first
  obtain ⟨board', nspaces', order', fixes', spaces'⟩ := second
  refine ⟨board'.trans board, nspaces'.trans nspaces, order * order', fun i outside => ?_, ?_⟩
  · have outside' : i < which_space ∨ t.nspaces ≤ i := nspaces ▸ outside
    rw [Equiv.Perm.mul_apply, fixes' i outside', fixes i outside]
  · rw [spaces', spaces]
    rfl

theorem order_inside {order : Equiv.Perm Nat} (fixes : ∀ i, i < which_space ∨ s.nspaces ≤ i → order i = i)
    (inside : which_space ≤ i ∧ i < s.nspaces) : which_space ≤ order i ∧ order i < s.nspaces := by
  by_contra outside
  have moved : order i < which_space ∨ s.nspaces ≤ order i := by omega
  have same : order i = i := order.injective (fixes _ moved)
  omega

theorem Listed.reordered (listed : Listed which_space s) (reordered : Reordered which_space s t) :
    Listed which_space t := by
  obtain ⟨board, nspaces, order, fixes, spaces⟩ := reordered
  have there : ∀ i, t.spaces i = s.spaces (order i) := fun i => congrFun spaces i
  have back : ∀ i, i < which_space ∨ s.nspaces ≤ i → order.symm i = i := fun i outside =>
    order.symm_apply_eq.mpr (fixes i outside).symm
  refine ⟨nspaces ▸ listed.bounded, nspaces ▸ listed.started, fun cell => ?_, ?_⟩
  · rw [board, listed.blank cell, nspaces]
    constructor
    · rintro ⟨i, low, high, rfl⟩
      obtain ⟨low', high'⟩ := order_inside back ⟨low, high⟩
      exact ⟨order.symm i, low', high', by rw [there, order.apply_symm_apply]⟩
    · rintro ⟨i, low, high, rfl⟩
      obtain ⟨low', high'⟩ := order_inside fixes ⟨low, high⟩
      exact ⟨order i, low', high', (there i).symm⟩
  · rw [nspaces]
    intro i j low high low' high' same
    rw [there, there] at same
    have first := order_inside fixes ⟨low, high⟩
    have second := order_inside fixes ⟨low', high'⟩
    exact order.injective (listed.distinct _ _ first.1 first.2 second.1 second.2 same)

theorem Listed.space_eq (listed : Listed which_space s) (inside : i < s.nspaces) : s.space i = some (s.spaces i) :=
  if_pos (inside.trans_le listed.bounded)

end order

/-! What `input` leaves. -/

structure Enumerates (cells : List Cell) (s : Globals) : Prop where
  few : s.nspaces ≤ cells.length
  blank : ∀ cell, cell ∈ cells ∧ s.board cell = 0 ↔ ∃ i, i < s.nspaces ∧ s.spaces i = cell
  distinct : ∀ i j, i < s.nspaces → j < s.nspaces → s.spaces i = s.spaces j → i = j

theorem Enumerates.add {cells : List Cell} {s : Globals} {cell : Cell} (enumerates : Enumerates cells s)
    (new : cell ∉ cells) (none : s.board cell = 0) :
    Enumerates (cells ++ [cell]) { s with spaces := Function.update s.spaces s.nspaces cell, nspaces := s.nspaces + 1 } := by
  have old : ∀ i, i < s.nspaces → Function.update s.spaces s.nspaces cell i = s.spaces i := fun i less =>
    Function.update_of_ne (Nat.ne_of_lt less) ..
  have last : Function.update s.spaces s.nspaces cell s.nspaces = cell := Function.update_self ..
  have absent : ∀ i, i < s.nspaces → s.spaces i ≠ cell := fun i less same =>
    new ((enumerates.blank cell).mpr ⟨i, less, same⟩).1
  refine ⟨by simpa using enumerates.few, fun other => ?_, fun i j low low' same => ?_⟩
  · show other ∈ cells ++ [cell] ∧ s.board other = 0 ↔
      ∃ i, i < s.nspaces + 1 ∧ Function.update s.spaces s.nspaces cell i = other
    constructor
    · rintro ⟨member, blank⟩
      rcases List.mem_append.mp member with before | here
      · obtain ⟨i, less, at_⟩ := (enumerates.blank other).mp ⟨before, blank⟩
        exact ⟨i, Nat.lt_succ_of_lt less, (old i less).trans at_⟩
      · exact ⟨s.nspaces, Nat.lt_succ_self _, last.trans (List.mem_singleton.mp here).symm⟩
    · rintro ⟨i, less, at_⟩
      rcases Nat.lt_succ_iff_lt_or_eq.mp less with before | rfl
      · rw [old i before] at at_
        obtain ⟨member, blank⟩ := (enumerates.blank other).mpr ⟨i, before, at_⟩
        exact ⟨List.mem_append_left _ member, blank⟩
      · rw [last] at at_
        exact ⟨List.mem_append_right _ (List.mem_singleton.mpr at_.symm), at_ ▸ none⟩
  · have same : Function.update s.spaces s.nspaces cell i = Function.update s.spaces s.nspaces cell j := same
    rcases Nat.lt_succ_iff_lt_or_eq.mp low with before | rfl
    · rcases Nat.lt_succ_iff_lt_or_eq.mp low' with before' | rfl
      · rw [old i before, old j before'] at same
        exact enumerates.distinct i j before before' same
      · rw [old i before, last] at same
        exact absurd same (absent i before)
    · rcases Nat.lt_succ_iff_lt_or_eq.mp low' with before' | rfl
      · rw [old j before', last] at same
        exact absurd same.symm (absent j before')
      · rfl

theorem find_spaces_loop (todo done : List Cell) (s : Globals) (whole : List.finRange 81 = done ++ todo)
    (enumerates : Enumerates done s) :
    ∃ t, todo.foldlM (fun s cell => if s.board cell = 0 then s.addSpace cell else some s) s = some t ∧
      t.board = s.board ∧ Enumerates (List.finRange 81) t := by
  induction todo generalizing done s with
  | nil =>
    rw [List.append_nil] at whole
    exact ⟨s, rfl, rfl, whole ▸ enumerates⟩
  | cons cell todo ih =>
    have whole' : List.finRange 81 = (done ++ [cell]) ++ todo := by rw [whole, List.append_assoc, List.singleton_append]
    have new : cell ∉ done := by
      have distinct := List.nodup_finRange 81
      rw [whole] at distinct
      exact fun member => (List.nodup_append.mp distinct).2.2 cell member cell List.mem_cons_self rfl
    rw [List.foldlM_cons]
    by_cases none : s.board cell = 0
    · have room : s.nspaces < 81 := by
        have length := congrArg List.length whole
        rw [List.length_finRange, List.length_append, List.length_cons] at length
        have few := enumerates.few
        omega
      rw [if_pos none, Globals.addSpace, if_pos room]
      exact ih (done ++ [cell]) _ whole' (enumerates.add new none)
    · rw [if_neg none]
      refine ih (done ++ [cell]) s whole' ⟨?_, fun other => ?_, enumerates.distinct⟩
      · rw [List.length_append]
        exact Nat.le_add_right_of_le enumerates.few
      · rw [← enumerates.blank other, List.mem_append, List.mem_singleton]
        constructor
        · rintro ⟨before | rfl, blank⟩
          · exact ⟨before, blank⟩
          · exact absurd blank none
        · exact fun known => ⟨Or.inl known.1, known.2⟩

theorem find_spaces_spec (s : Globals) : ∃ t, find_spaces s = some t ∧ t.board = s.board ∧ Listed 0 t := by
  obtain ⟨t, ran, board, enumerates⟩ := find_spaces_loop (List.finRange 81) [] { s with nspaces := 0 } rfl
    ⟨Nat.le_refl _, fun cell => by simp, fun i j less => absurd less (Nat.not_lt_zero i)⟩
  refine ⟨t, ran, board, ?_, Nat.zero_le _, fun cell => ?_, fun i j _ high _ high' => enumerates.distinct i j high high'⟩
  · simpa using enumerates.few
  · simpa using enumerates.blank cell

def givenAt (puzzle : List Int8) (cell : Cell) : Int := (puzzle[cell.val]?.getD 0).toInt - 48

def Digits (puzzle : List Int8) : Prop := ∀ cell, 0 ≤ givenAt puzzle cell ∧ givenAt puzzle cell ≤ 9

section input
variable {puzzle : List Int8} {cell : Cell}

theorem inputCell_digit (long : 81 ≤ puzzle.length) (s : Globals)
    (digit : 0 ≤ givenAt puzzle cell ∧ givenAt puzzle cell ≤ 9) :
    ∃ value : Value, inputCell puzzle s cell = some (s.setCell cell value) ∧ value.val = givenAt puzzle cell := by
  have found : puzzle[cell.val]? = some (puzzle[cell.val]) := List.getElem?_eq_getElem (cell.2.trans_le long)
  rw [givenAt, found, Option.getD_some] at digit ⊢
  refine ⟨⟨((puzzle[cell.val]).toInt - 48).toNat, by omega⟩, ?_, Int.toNat_of_nonneg digit.1⟩
  rw [inputCell, found, Option.bind_some, dif_pos digit]

theorem inputCell_other (long : 81 ≤ puzzle.length) (s : Globals)
    (other : ¬ (0 ≤ givenAt puzzle cell ∧ givenAt puzzle cell ≤ 9)) : inputCell puzzle s cell = none := by
  have found : puzzle[cell.val]? = some (puzzle[cell.val]) := List.getElem?_eq_getElem (cell.2.trans_le long)
  rw [givenAt, found, Option.getD_some] at other
  rw [inputCell, found, Option.bind_some, dif_neg other]

theorem inputCells (long : 81 ≤ puzzle.length) (digits : Digits puzzle) (todo : List Cell) (s : Globals) :
    ∃ t, todo.foldlM (inputCell puzzle) s = some t ∧
      ∀ cell, cell ∈ todo ∨ (s.board cell).val = givenAt puzzle cell → (t.board cell).val = givenAt puzzle cell := by
  induction todo generalizing s with
  | nil => exact ⟨s, rfl, fun cell known => known.resolve_left List.not_mem_nil⟩
  | cons cell todo ih =>
    obtain ⟨value, read, right⟩ := inputCell_digit long s (digits cell)
    obtain ⟨t, ran, all⟩ := ih (s.setCell cell value)
    refine ⟨t, ?_, fun other known => all other ?_⟩
    · rw [List.foldlM_cons, read]
      exact ran
    · show other ∈ todo ∨ (Function.update s.board cell value other).val = givenAt puzzle other
      by_cases same : other = cell
      · rw [same, Function.update_self]
        exact Or.inr right
      · rw [Function.update_of_ne same]
        exact known.imp_left fun member => (List.mem_cons.mp member).resolve_left same

/-- A line that begins with 81 digits is taken, and the spaces are its zeros. -/
theorem input_digits (long : 81 ≤ puzzle.length) (digits : Digits puzzle) (s : Globals) :
    ∃ t, input puzzle s = some t ∧ (∀ cell, (t.board cell).val = givenAt puzzle cell) ∧ Listed 0 t := by
  obtain ⟨s', read, all⟩ := inputCells long digits (List.finRange 81) s
  obtain ⟨t, found, board, listed⟩ := find_spaces_spec s'
  refine ⟨t, ?_, fun cell => ?_, listed⟩
  · rw [input, read]
    exact found
  · rw [board]
    exact all cell (Or.inl (List.mem_finRange cell))

/-- On every other line an assertion fails. -/
theorem input_none (long : 81 ≤ puzzle.length) (other : ¬ Digits puzzle) (s : Globals) : input puzzle s = none := by
  obtain ⟨cell, bad⟩ := not_forall.mp other
  have fails : ∀ (todo : List Cell) (s : Globals), cell ∈ todo → todo.foldlM (inputCell puzzle) s = none := by
    intro todo
    induction todo with
    | nil => exact fun _ none => absurd none List.not_mem_nil
    | cons first todo ih =>
      intro s member
      rw [List.foldlM_cons]
      by_cases here : cell = first
      · rw [← here, inputCell_other long s bad]
        rfl
      · cases inputCell puzzle s first with
        | none => rfl
        | some s' => exact ih s' ((List.mem_cons.mp member).resolve_left here)
  rw [input, fails _ s (List.mem_finRange cell)]
  rfl

end input

end CloudLab.TearcherCode
