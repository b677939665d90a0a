import CloudLab.TearcherCode.Spaces
import CloudLab.Sudoku.Puzzle

/-! The check of a solved board. -/

namespace CloudLab.TearcherCode
open Colouring

def chess (board : Board) (row col : Fin 9) : Value := board (cellAt row col)

def occurs (vals : List Value) : Value → Nat :=
  vals.foldl (fun occurs val => Function.update occurs val (occurs val + 1)) fun _ => 0

def eachOnce (vals : List Value) : Bool := (List.finRange 10).countP (fun val => occurs vals val = 1) = 9

def rowValues (board : Board) (row : Fin 9) : List Value := (List.finRange 9).map fun col => chess board row col

def colValues (board : Board) (col : Fin 9) : List Value := (List.finRange 9).map fun row => chess board row col

def boxValues (board : Board) (row col : Fin 9) : List Value :=
  [(0, 0), (0, 1), (0, 2), (1, 0), (1, 1), (1, 2), (2, 0), (2, 1), (2, 2)].map
    fun offset : Fin 3 × Fin 3 => chess board (inBox row offset.1) (inBox col offset.2)

/-- The loop over the rows, which asserts that no cell is blank. -/
def checkRows (board : Board) : List (Fin 9) → Option Bool
  | [] => some true
  | row :: rows =>
      if ∀ val ∈ rowValues board row, 1 ≤ val then
        if eachOnce (rowValues board row) then checkRows board rows else some false
      else none

def solved (board : Board) : Option Bool :=
  (checkRows board (List.finRange 9)).map fun rows =>
    rows && (List.finRange 9).all (fun col => eachOnce (colValues board col)) &&
      [0, 3, 6].all fun row => [0, 3, 6].all fun col => eachOnce (boxValues board row col)

section check
variable {vals : List Value} {board : Board}

theorem occurs_eq (vals : List Value) (val : Value) : occurs vals val = vals.count val := by
  have counted : ∀ (vals : List Value) (start : Value → Nat),
      vals.foldl (fun occurs val => Function.update occurs val (occurs val + 1)) start val =
        start val + vals.count val := by
    intro vals
    induction vals with
    | nil => exact fun start => rfl
    | cons v vals ih =>
      intro start
      rw [List.foldl_cons, ih, List.count_cons, Function.update_apply]
      by_cases here : val = v
      · subst here
        simp
        omega
      · simp [here, Ne.symm here]
  exact (counted vals _).trans (Nat.zero_add _)

theorem eachOnce_iff (nine : vals.length = 9) : eachOnce vals = true ↔ vals.Nodup := by
  have distinct : ((List.finRange 10).filter fun val => vals.count val = 1).Nodup := (List.nodup_finRange 10).filter _
  have within : ((List.finRange 10).filter fun val => vals.count val = 1) ⊆ vals := by
    intro val member
    have once : vals.count val = 1 := of_decide_eq_true (List.mem_filter.mp member).2
    exact List.count_pos_iff.mp (by omega)
  have length : eachOnce vals = true ↔
      ((List.finRange 10).filter fun val => vals.count val = 1).length = vals.length := by
    simp only [eachOnce, occurs_eq, nine, List.countP_eq_length_filter, decide_eq_true_eq]
  rw [length]
  constructor
  · intro same
    have whole := (List.subperm_of_subset distinct within).perm_of_length_le same.ge
    exact whole.nodup_iff.mp distinct
  · intro nodup
    have all : vals ⊆ (List.finRange 10).filter fun val => vals.count val = 1 := by
      intro val member
      exact List.mem_filter.mpr ⟨List.mem_finRange val, decide_eq_true (List.count_eq_one_of_mem nodup member)⟩
    exact Nat.le_antisymm (List.subperm_of_subset distinct within).length_le
      (List.subperm_of_subset nodup all).length_le

theorem row_cellAt (y x : Fin 9) : (cellAt y x).val / 9 = y.val := by
  simp only [cellAt]
  omega

theorem col_cellAt (y x : Fin 9) : (cellAt y x).val % 9 = x.val := by
  simp only [cellAt]
  omega

theorem exists_cellAt (cell : Cell) : ∃ y x, cell = cellAt y x :=
  ⟨⟨cell.val / 9, by omega⟩, ⟨cell.val % 9, by omega⟩, Fin.ext (by simp only [cellAt]; omega)⟩

theorem cellAt_inj {y x y' x' : Fin 9} : cellAt y x = cellAt y' x' ↔ y = y' ∧ x = x' := by
  rw [Fin.ext_iff, Fin.ext_iff, Fin.ext_iff]
  simp only [cellAt]
  omega

theorem eachOnce_row (row : Fin 9) : eachOnce (rowValues board row) = true ↔
    ∀ x x', chess board row x = chess board row x' → x = x' := by
  rw [eachOnce_iff (by simp [rowValues]), rowValues, List.nodup_map_iff_inj_on (List.nodup_finRange 9)]
  simp only [List.mem_finRange, forall_const]

theorem eachOnce_col (col : Fin 9) : eachOnce (colValues board col) = true ↔
    ∀ y y', chess board y col = chess board y' col → y = y' := by
  rw [eachOnce_iff (by simp [colValues]), colValues, List.nodup_map_iff_inj_on (List.nodup_finRange 9)]
  simp only [List.mem_finRange, forall_const]

theorem eachOnce_box (row col : Fin 9) : eachOnce (boxValues board row col) = true ↔
    ∀ o o' : Fin 3 × Fin 3, chess board (inBox row o.1) (inBox col o.2) = chess board (inBox row o'.1) (inBox col o'.2) →
      o = o' := by
  have every : ∀ o : Fin 3 × Fin 3,
      o ∈ [((0 : Fin 3), (0 : Fin 3)), (0, 1), (0, 2), (1, 0), (1, 1), (1, 2), (2, 0), (2, 1), (2, 2)] := by
    decide
  rw [eachOnce_iff rfl, boxValues, List.nodup_map_iff_inj_on (by decide)]
  simp only [every, forall_const]

theorem inBox_same : ∀ y y' : Fin 9, y.val / 3 = y'.val / 3 →
    ∃ r ∈ [(0 : Fin 9), 3, 6], ∃ o o' : Fin 3, y = inBox r o ∧ y' = inBox r o' := by
  decide

theorem proper_iff : Proper Adjacent board ↔ (∀ row, eachOnce (rowValues board row) = true) ∧
    (∀ col, eachOnce (colValues board col) = true) ∧
    ∀ row ∈ [(0 : Fin 9), 3, 6], ∀ col ∈ [(0 : Fin 9), 3, 6], eachOnce (boxValues board row col) = true := by
  simp only [eachOnce_row, eachOnce_col, eachOnce_box]
  constructor
  · intro proper
    have apart : ∀ y x y' x', chess board y x = chess board y' x' →
        y = y' ∨ x = x' ∨ y.val / 3 = y'.val / 3 ∧ x.val / 3 = x'.val / 3 → y = y' ∧ x = x' := by
      intro y x y' x' same near
      by_contra other
      refine proper (cellAt y x) (cellAt y' x') ⟨fun here => other (cellAt_inj.mp here), ?_⟩ same
      simpa only [row_cellAt, col_cellAt, Fin.ext_iff] using near
    refine ⟨fun row x x' same => ?_, fun col y y' same => ?_, fun row _ col _ o o' same => ?_⟩
    · exact (apart row x row x' same (Or.inl rfl)).2
    · exact (apart y col y' col same (Or.inr (Or.inl rfl))).1
    · have near : (inBox row o.1).val / 3 = (inBox row o'.1).val / 3 ∧
          (inBox col o.2).val / 3 = (inBox col o'.2).val / 3 := by
        simp only [inBox]
        omega
      obtain ⟨rows, cols⟩ := apart _ _ _ _ same (Or.inr (Or.inr near))
      simp only [inBox, Fin.ext_iff] at rows cols
      exact Prod.ext (Fin.ext (by omega)) (Fin.ext (by omega))
  · rintro ⟨rows, cols, boxes⟩ c d ⟨other, near⟩ same
    obtain ⟨y, x, rfl⟩ := exists_cellAt c
    obtain ⟨y', x', rfl⟩ := exists_cellAt d
    simp only [row_cellAt, col_cellAt] at near
    rcases near with row | col | ⟨row, col⟩
    · obtain rfl : y = y' := Fin.ext row
      exact other (cellAt_inj.mpr ⟨rfl, rows y x x' same⟩)
    · obtain rfl : x = x' := Fin.ext col
      exact other (cellAt_inj.mpr ⟨cols x y y' same, rfl⟩)
    · obtain ⟨r, corner, o, o', rfl, rfl⟩ := inBox_same y y' row
      obtain ⟨k, corner', p, p', rfl, rfl⟩ := inBox_same x x' col
      have offsets := boxes r corner k corner' (o, p) (o', p') same
      obtain ⟨rfl, rfl⟩ := Prod.mk.inj offsets
      exact other rfl

theorem checkRows_true (todo : List (Fin 9)) : checkRows board todo = some true ↔
    ∀ row ∈ todo, (∀ val ∈ rowValues board row, 1 ≤ val) ∧ eachOnce (rowValues board row) = true := by
  induction todo with
  | nil => simp [checkRows]
  | cons row todo ih =>
    rw [checkRows, List.forall_mem_cons, ← ih]
    split
    · next digits =>
      by_cases once : eachOnce (rowValues board row) = true
      · rw [if_pos once]
        exact ⟨fun rest => ⟨⟨digits, once⟩, rest⟩, fun both => both.2⟩
      · rw [if_neg once]
        exact iff_of_false (by simp) fun both => once both.1.2
    · next blank => simp [blank]

theorem solved_true : solved board = some true ↔ (∀ cell, board cell ≠ 0) ∧ Proper Adjacent board := by
  have rows : (∀ cell, board cell ≠ 0) ↔ ∀ row, ∀ val ∈ rowValues board row, 1 ≤ val := by
    constructor
    · intro full row val member
      obtain ⟨col, _, rfl⟩ := List.mem_map.mp member
      exact Fin.one_le_of_ne_zero (full _)
    · intro digits cell none
      obtain ⟨y, x, rfl⟩ := exists_cellAt cell
      have positive := digits y _ (List.mem_map.mpr ⟨x, List.mem_finRange x, rfl⟩)
      rw [chess, none] at positive
      exact absurd positive (by decide)
  have whole : checkRows board (List.finRange 9) = some true ↔ _ := checkRows_true (List.finRange 9)
  rw [rows, proper_iff]
  simp only [List.mem_finRange, forall_const, forall_and] at whole
  simp only [solved, Option.map_eq_some_iff]
  constructor
  · rintro ⟨answer, checked, passed⟩
    simp only [Bool.and_eq_true, List.all_eq_true, List.mem_finRange, forall_const, and_assoc] at passed
    obtain ⟨digits, once⟩ := whole.mp (passed.1 ▸ checked)
    exact ⟨digits, once, passed.2⟩
  · rintro ⟨digits, once, rest⟩
    refine ⟨true, whole.mpr ⟨digits, once⟩, ?_⟩
    simp only [Bool.and_eq_true, List.all_eq_true, List.mem_finRange, forall_const, and_assoc]
    exact ⟨trivial, rest⟩

theorem solved_returns (full : ∀ cell, board cell ≠ 0) : solved board ≠ none := by
  have rows : ∀ todo, checkRows board todo ≠ none := by
    intro todo
    induction todo with
    | nil => exact fun none => absurd none (by simp [checkRows])
    | cons row todo ih =>
      have digits : ∀ val ∈ rowValues board row, 1 ≤ val := by
        intro val member
        obtain ⟨col, _, rfl⟩ := List.mem_map.mp member
        exact Fin.one_le_of_ne_zero (full _)
      rw [checkRows, if_pos digits]
      cases eachOnce (rowValues board row) with
      | true => exact ih
      | false => exact fun none => absurd none (by simp)
  rw [solved, ne_eq, Option.map_eq_none_iff]
  exact rows _

end check

/-! A full board without equal neighbours is a completed grid. -/

def grid (board : Board) (i j : Nat) : Nat :=
  if inside : i - 1 < 9 ∧ j - 1 < 9 then (chess board ⟨i - 1, inside.1⟩ ⟨j - 1, inside.2⟩).val else 0

section grid
open Sudoku
variable {board : Board}

theorem grid_at (board : Board) (y x : Fin 9) : grid board (y + 1) (x + 1) = (chess board y x).val := by
  have inside : y.val + 1 - 1 < 9 ∧ x.val + 1 - 1 < 9 := by omega
  rw [grid, dif_pos inside]
  rfl

theorem digit_iff {i : Nat} : Digit i ↔ ∃ y : Fin 9, i = y + 1 := by
  constructor
  · intro digit
    rw [Digit] at digit
    exact ⟨⟨i - 1, by omega⟩, by simp only []; omega⟩
  · rintro ⟨y, rfl⟩
    rw [Digit]
    omega

theorem once_iff {α : Type} [Fintype α] (nine : Fintype.card α = 9) {f : α → Value} (full : ∀ a, f a ≠ 0) :
    (∀ v, v ≠ 0 → ∃! a, f a = v) ↔ Function.Injective f := by
  constructor
  · intro once a b same
    exact (once (f b) (full b)).unique same rfl
  · intro injective v colour
    have injective' : Function.Injective fun a => (⟨f a, full a⟩ : {v : Value // v ≠ 0}) := fun a b same =>
      injective (Subtype.mk.inj same)
    have cards : Fintype.card α = Fintype.card {v : Value // v ≠ 0} := by
      rw [nine]
      decide
    obtain ⟨a, at_⟩ := ((Fintype.bijective_iff_injective_and_card _).mpr ⟨injective', cards⟩).2 ⟨v, colour⟩
    have same : f a = v := Subtype.mk.inj at_
    exact ⟨a, same, fun b there => injective (there.trans same.symm)⟩

theorem once_digits {α β : Type} {f : α → Value} {g : β → Nat} {P : β → Prop} (place : α → β)
    (injective : ∀ a b, place a = place b → a = b) (image : ∀ p, P p ↔ ∃ a, place a = p)
    (at_ : ∀ a, g (place a) = (f a).val) :
    (∀ v, Digit v → ∃! p, P p ∧ g p = v) ↔ ∀ v, v ≠ 0 → ∃! a, f a = v := by
  have each : ∀ v : Value, (∃! p, P p ∧ g p = v) ↔ ∃! a, f a = v := by
    intro v
    refine existsUnique_image (fun a b _ _ => injective a b) fun p => ?_
    constructor
    · rintro ⟨inside, value⟩
      obtain ⟨a, rfl⟩ := (image p).mp inside
      exact ⟨a, Fin.ext ((at_ a).symm.trans value), rfl⟩
    · rintro ⟨a, rfl, rfl⟩
      exact ⟨(image _).mpr ⟨a, rfl⟩, at_ a⟩
  constructor
  · intro once v colour
    have digit : Digit v.val := ⟨Nat.one_le_iff_ne_zero.mpr fun none => colour (Fin.ext none), by omega⟩
    exact (each v).mp (once v digit)
  · intro once v digit
    have digit' : 1 ≤ v ∧ v ≤ 9 := digit
    have colour : (⟨v, by omega⟩ : Value) ≠ 0 := fun none => by
      have zero := congrArg Fin.val none
      simp only [Fin.val_zero] at zero
      omega
    exact (each ⟨v, by omega⟩).mpr (once _ colour)

theorem row_iff (full : ∀ cell, board cell ≠ 0) (y : Fin 9) :
    (∀ v, Digit v → ∃! j, Digit j ∧ grid board (y + 1) j = v) ↔ eachOnce (rowValues board y) = true := by
  have places : (∀ v, Digit v → ∃! j, Digit j ∧ grid board (y + 1) j = v) ↔ ∀ v, v ≠ 0 → ∃! x, chess board y x = v := by
    refine once_digits (fun x : Fin 9 => x.val + 1) (fun x x' same => Fin.ext (Nat.succ.inj same)) ?_ ?_
    · intro j
      rw [digit_iff]
      exact exists_congr fun x => eq_comm
    · exact grid_at board y
  calc _ ↔ _ := places
    _ ↔ Function.Injective fun x => chess board y x := once_iff (by decide) fun x => full (cellAt y x)
    _ ↔ _ := (eachOnce_row y).symm

theorem col_iff (full : ∀ cell, board cell ≠ 0) (x : Fin 9) :
    (∀ v, Digit v → ∃! i, Digit i ∧ grid board i (x + 1) = v) ↔ eachOnce (colValues board x) = true := by
  have places : (∀ v, Digit v → ∃! i, Digit i ∧ grid board i (x + 1) = v) ↔ ∀ v, v ≠ 0 → ∃! y, chess board y x = v := by
    refine once_digits (fun y : Fin 9 => y.val + 1) (fun y y' same => Fin.ext (Nat.succ.inj same)) ?_ ?_
    · intro i
      rw [digit_iff]
      exact exists_congr fun y => eq_comm
    · exact fun y => grid_at board y x
  calc _ ↔ _ := places
    _ ↔ Function.Injective fun y => chess board y x := once_iff (by decide) fun y => full (cellAt y x)
    _ ↔ _ := (eachOnce_col x).symm

theorem box_iff (full : ∀ cell, board cell ≠ 0) {a b : Nat} {row col : Fin 9} (top : row.val = 3 * a)
    (left : col.val = 3 * b) :
    (∀ v, Digit v → ∃! p : Nat × Nat,
      ((3 * a < p.1 ∧ p.1 ≤ 3 * a + 3) ∧ 3 * b < p.2 ∧ p.2 ≤ 3 * b + 3) ∧ grid board p.1 p.2 = v) ↔
      eachOnce (boxValues board row col) = true := by
  have places : (∀ v, Digit v → ∃! p : Nat × Nat,
      ((3 * a < p.1 ∧ p.1 ≤ 3 * a + 3) ∧ 3 * b < p.2 ∧ p.2 ≤ 3 * b + 3) ∧ grid board p.1 p.2 = v) ↔
      ∀ v, v ≠ 0 → ∃! o : Fin 3 × Fin 3, chess board (inBox row o.1) (inBox col o.2) = v := by
    refine once_digits (fun o : Fin 3 × Fin 3 => ((inBox row o.1).val + 1, (inBox col o.2).val + 1)) ?_ ?_ ?_
    · intro o o' same
      obtain ⟨rows, cols⟩ := Prod.mk.inj same
      simp only [inBox] at rows cols
      exact Prod.ext (Fin.ext (by omega)) (Fin.ext (by omega))
    · intro p
      simp only [inBox]
      constructor
      · rintro ⟨⟨low, high⟩, low', high'⟩
        refine ⟨(⟨p.1 - 1 - 3 * a, by omega⟩, ⟨p.2 - 1 - 3 * b, by omega⟩), Prod.ext ?_ ?_⟩
        · simp only []
          omega
        · simp only []
          omega
      · rintro ⟨o, rfl⟩
        simp only []
        omega
    · exact fun o => grid_at board (inBox row o.1) (inBox col o.2)
  calc _ ↔ _ := places
    _ ↔ Function.Injective fun o : Fin 3 × Fin 3 => chess board (inBox row o.1) (inBox col o.2) :=
      once_iff (by decide) fun o => full (cellAt (inBox row o.1) (inBox col o.2))
    _ ↔ _ := (eachOnce_box row col).symm

theorem mem_corners : ∀ row : Fin 9, row ∈ [(0 : Fin 9), 3, 6] ↔ ∃ a < 3, row.val = 3 * a := by
  decide

theorem complete_grid : Complete (grid board) ↔ (∀ cell, board cell ≠ 0) ∧ Proper Adjacent board := by
  have filled : ∀ cell, Digit (board cell).val ↔ board cell ≠ 0 := by
    intro cell
    rw [Digit, ne_eq, Fin.ext_iff, Fin.val_zero]
    omega
  constructor
  · intro complete
    have full : ∀ cell, board cell ≠ 0 := by
      intro cell
      obtain ⟨y, x, rfl⟩ := exists_cellAt cell
      have digit := complete.cell (y + 1) (x + 1) (digit_iff.mpr ⟨y, rfl⟩) (digit_iff.mpr ⟨x, rfl⟩)
      rw [grid_at] at digit
      exact (filled _).mp digit
    refine ⟨full, proper_iff.mpr ⟨fun y => ?_, fun x => ?_, fun row top col left => ?_⟩⟩
    · exact (row_iff full y).mp fun v => complete.row (y + 1) v (digit_iff.mpr ⟨y, rfl⟩)
    · exact (col_iff full x).mp fun v => complete.column (x + 1) v (digit_iff.mpr ⟨x, rfl⟩)
    · obtain ⟨a, fewa, top⟩ := (mem_corners row).mp top
      obtain ⟨b, fewb, left⟩ := (mem_corners col).mp left
      refine (box_iff full top left).mp fun v digit => ?_
      simpa only [and_assoc] using complete.box a b v fewa fewb digit
  · rintro ⟨full, proper⟩
    obtain ⟨rows, cols, boxes⟩ := proper_iff.mp proper
    refine ⟨fun i j row col => ?_, fun i v row => ?_, fun j v col => ?_, fun a b v fewa fewb digit => ?_⟩
    · obtain ⟨y, rfl⟩ := digit_iff.mp row
      obtain ⟨x, rfl⟩ := digit_iff.mp col
      rw [grid_at]
      exact (filled _).mpr (full _)
    · obtain ⟨y, rfl⟩ := digit_iff.mp row
      exact (row_iff full y).mpr (rows y) v
    · obtain ⟨x, rfl⟩ := digit_iff.mp col
      exact (col_iff full x).mpr (cols x) v
    · have top : (⟨3 * a, by omega⟩ : Fin 9) ∈ [(0 : Fin 9), 3, 6] := (mem_corners _).mpr ⟨a, fewa, rfl⟩
      have left : (⟨3 * b, by omega⟩ : Fin 9) ∈ [(0 : Fin 9), 3, 6] := (mem_corners _).mpr ⟨b, fewb, rfl⟩
      simpa only [and_assoc] using (box_iff full rfl rfl).mpr (boxes _ top _ left) v digit

/-- The check accepts the completed grids and no other board, and no assertion fails in it when the board is full. -/
theorem solved_complete (board : Board) :
    (solved board = some true ↔ Complete (grid board)) ∧ ((∀ cell, board cell ≠ 0) → solved board ≠ none) :=
  ⟨solved_true.trans complete_grid.symm, solved_returns⟩

end grid

end CloudLab.TearcherCode
