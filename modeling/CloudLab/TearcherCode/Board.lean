import CloudLab.Library.Colouring

/-! The board of the older Sudoku program with its table of neighbours. `ROW`, `COL` and `NUM` are
9 and `N` is 81. `none` is a failed assertion or an index outside an array. -/

namespace CloudLab.TearcherCode

def NEIGHBOR : Nat := 20

abbrev Cell := Fin 81

abbrev Value := Fin 10

abbrev Board := Cell → Value

-- the numerals for rows, values and cells
scoped instance neZeroOffset : NeZero 3 := ⟨by decide⟩
scoped instance neZeroLine : NeZero 9 := ⟨by decide⟩
scoped instance neZeroValue : NeZero 10 := ⟨by decide⟩
scoped instance neZeroCell : NeZero 81 := ⟨by decide⟩

def cellAt (y : Fin 9) (x : Fin 9) : Cell := ⟨y * 9 + x, by omega⟩

def positions : List (Fin 9 × Fin 9) :=
  (List.finRange 9).flatMap fun y => (List.finRange 9).map fun x => (y, x)

/-! The table of neighbours. -/

def mark (adjacent : Fin 9 → Fin 9 → Bool) (y : Fin 9) (x : Fin 9) : Fin 9 → Fin 9 → Bool :=
  Function.update adjacent y (Function.update (adjacent y) x true)

/-- `top+i` and `left+i`, where `top` is `(row/3)*3` and `left` is `(col/3)*3`. -/
def inBox (i : Fin 9) (offset : Fin 3) : Fin 9 := ⟨i / 3 * 3 + offset, by omega⟩

def mark_adjacent (adjacent : Fin 9 → Fin 9 → Bool) (row : Fin 9) (col : Fin 9) : Fin 9 → Fin 9 → Bool :=
  let adjacent := (List.finRange 9).foldl (fun adjacent i => mark (mark adjacent row i) i col) adjacent
  let adjacent := mark adjacent (inBox row 0) (inBox col 0)
  let adjacent := mark adjacent (inBox row 0) (inBox col 1)
  let adjacent := mark adjacent (inBox row 0) (inBox col 2)
  let adjacent := mark adjacent (inBox row 1) (inBox col 0)
  let adjacent := mark adjacent (inBox row 1) (inBox col 1)
  let adjacent := mark adjacent (inBox row 1) (inBox col 2)
  let adjacent := mark adjacent (inBox row 2) (inBox col 0)
  let adjacent := mark adjacent (inBox row 2) (inBox col 1)
  mark adjacent (inBox row 2) (inBox col 2)

def collect (adjacent : Fin 9 → Fin 9 → Bool) (row : Fin 9) (col : Fin 9) (myneighbors : List Cell)
    (position : Fin 9 × Fin 9) : Option (List Cell) :=
  if adjacent position.1 position.2 ∧ ¬ (position.1 = row ∧ position.2 = col) then
    if myneighbors.length < NEIGHBOR then some (myneighbors ++ [cellAt position.1 position.2]) else none
  else some myneighbors

def collect_neighbors (adjacent : Fin 9 → Fin 9 → Bool) (row : Fin 9) (col : Fin 9) : Option (List Cell) := do
  let myneighbors ← positions.foldlM (collect adjacent row col) []
  if myneighbors.length = NEIGHBOR then some myneighbors else none

def init_neighbors (neighbors : Cell → List Cell) : Option (Cell → List Cell) :=
  positions.foldlM (fun neighbors position => do
    let adjacent := mark_adjacent (fun _ _ => false) position.1 position.2
    let myneighbors ← collect_neighbors adjacent position.1 position.2
    some (Function.update neighbors (cellAt position.1 position.2) myneighbors)) neighbors

def Adjacent (c d : Cell) : Prop :=
  c ≠ d ∧ (c.val / 9 = d.val / 9 ∨ c.val % 9 = d.val % 9 ∨
    c.val / 9 / 3 = d.val / 9 / 3 ∧ c.val % 9 / 3 = d.val % 9 / 3)

instance : DecidableRel Adjacent := fun _ _ => inferInstanceAs (Decidable (_ ∧ _))

def neighbors (cell : Cell) : List Cell := (List.finRange 81).filter fun other => Adjacent cell other

theorem mem_neighbors {c d : Cell} : d ∈ neighbors c ↔ Adjacent c d := by
  simp [neighbors]

theorem nodup_neighbors (c : Cell) : (neighbors c).Nodup := (List.nodup_finRange 81).filter _

theorem length_neighbors : ∀ c, (neighbors c).length = NEIGHBOR := by
  decide +kernel

theorem adjacent_symmetric : ∀ c d, Adjacent c d → Adjacent d c := by
  intro c d adjacent
  exact ⟨adjacent.1.symm, by have := adjacent.2; omega⟩

theorem adjacent_irreflexive : ∀ c, ¬ Adjacent c c := fun _ adjacent => adjacent.1 rfl

theorem mark_apply (adjacent : Fin 9 → Fin 9 → Bool) (y y' : Fin 9) (x x' : Fin 9) :
    mark adjacent y x y' x' = (adjacent y' x' || decide (y' = y ∧ x' = x)) := by
  by_cases row : y' = y
  · subst row
    by_cases col : x' = x
    · subst col
      simp [mark]
    · simp [mark, col]
  · simp [mark, row]

theorem marks_apply (is : List (Fin 9)) (adjacent : Fin 9 → Fin 9 → Bool) (row y : Fin 9) (col x : Fin 9) :
    is.foldl (fun adjacent i => mark (mark adjacent row i) i col) adjacent y x =
      (adjacent y x || decide (y = row ∧ x ∈ is ∨ y ∈ is ∧ x = col)) := by
  induction is generalizing adjacent with
  | nil => simp
  | cons i is ih =>
    rw [List.foldl_cons, ih, mark_apply, mark_apply, Bool.eq_iff_iff]
    simp only [Bool.or_eq_true, decide_eq_true_eq, List.mem_cons]
    tauto

theorem inBox_iff : ∀ i j : Fin 9, j.val / 3 = i.val / 3 ↔ j = inBox i 0 ∨ j = inBox i 1 ∨ j = inBox i 2 := by
  decide

theorem mark_adjacent_apply (row y : Fin 9) (col x : Fin 9) : mark_adjacent (fun _ _ => false) row col y x =
    decide (y = row ∨ x = col ∨ y.val / 3 = row.val / 3 ∧ x.val / 3 = col.val / 3) := by
  rw [Bool.eq_iff_iff]
  simp only [mark_adjacent, mark_apply, marks_apply, Bool.or_eq_true, decide_eq_true_eq, List.mem_finRange,
    Bool.false_eq_true, inBox_iff]
  grind

theorem collect_eq (adjacent : Fin 9 → Fin 9 → Bool) (row col : Fin 9) {todo : List (Fin 9 × Fin 9)}
    {done : List Cell} {kept : List (Fin 9 × Fin 9)}
    (keeps : kept = todo.filter fun p => adjacent p.1 p.2 ∧ ¬ (p.1 = row ∧ p.2 = col))
    (few : done.length + kept.length ≤ NEIGHBOR) :
    todo.foldlM (collect adjacent row col) done = some (done ++ kept.map fun p => cellAt p.1 p.2) := by
  subst keeps
  induction todo generalizing done with
  | nil => simp
  | cons p todo ih =>
    rw [List.filter_cons] at few ⊢
    rw [List.foldlM_cons]
    by_cases here : adjacent p.1 p.2 = true ∧ ¬ (p.1 = row ∧ p.2 = col)
    · rw [if_pos (decide_eq_true here)] at few ⊢
      have room : done.length < NEIGHBOR := by
        rw [List.length_cons] at few
        omega
      have collected : collect adjacent row col done p = some (done ++ [cellAt p.1 p.2]) := by
        rw [collect, if_pos here, if_pos room]
      rw [collected]
      change List.foldlM _ _ todo = _
      rw [ih (by simpa [Nat.add_assoc, Nat.add_comm 1] using few)]
      simp
    · have collected : collect adjacent row col done p = some done := by
        rw [collect, if_neg here]
      rw [decide_eq_false here] at few ⊢
      rw [collected]
      exact ih few

theorem cells_positions : positions.map (fun p => cellAt p.1 p.2) = List.finRange 81 := by
  decide

theorem collect_neighbors_eq (row col : Fin 9) :
    collect_neighbors (mark_adjacent (fun _ _ => false) row col) row col = some (neighbors (cellAt row col)) := by
  have kept : neighbors (cellAt row col) = (positions.filter fun p =>
      mark_adjacent (fun _ _ => false) row col p.1 p.2 ∧ ¬ (p.1 = row ∧ p.2 = col)).map
        fun p => cellAt p.1 p.2 := by
    rw [neighbors, ← cells_positions, List.filter_map]
    congr 1
    refine List.filter_congr fun p _ => ?_
    rw [Function.comp_apply, decide_eq_decide]
    simp only [mark_adjacent_apply, Adjacent, cellAt, decide_eq_true_eq, ne_eq, Fin.ext_iff]
    omega
  have length : (neighbors (cellAt row col)).length = NEIGHBOR := length_neighbors _
  rw [kept, List.length_map] at length
  rw [collect_neighbors, collect_eq _ row col rfl (by simpa using length.le)]
  change (if ([] ++ List.map _ _).length = NEIGHBOR then some _ else none) = _
  rw [List.nil_append, List.length_map, length, if_pos rfl, kept]

/-- The whole table is filled, whatever was in it. -/
theorem init_neighbors_eq (table : Cell → List Cell) : init_neighbors table = some neighbors := by
  have filled : ∀ (todo : List (Fin 9 × Fin 9)) (table : Cell → List Cell), ∃ table',
      todo.foldlM (fun table p => (collect_neighbors (mark_adjacent (fun _ _ => false) p.1 p.2) p.1 p.2).bind
        fun l => some (Function.update table (cellAt p.1 p.2) l)) table = some table' ∧
      (∀ c, table c = neighbors c ∨ c ∈ todo.map (fun p => cellAt p.1 p.2) → table' c = neighbors c) := by
    intro todo
    induction todo with
    | nil => exact fun table => ⟨table, rfl, fun c old => old.resolve_right List.not_mem_nil⟩
    | cons p todo ih =>
      intro table
      obtain ⟨table', ran, right⟩ := ih (Function.update table (cellAt p.1 p.2) (neighbors (cellAt p.1 p.2)))
      refine ⟨table', ?_, fun c known => right c ?_⟩
      · rw [List.foldlM_cons, collect_neighbors_eq]
        exact ran
      · by_cases here : c = cellAt p.1 p.2
        · exact Or.inl (by rw [here, Function.update_self])
        · rw [Function.update_of_ne here]
          refine known.imp_right fun member => ?_
          exact (List.mem_cons.mp member).resolve_left here
  obtain ⟨table', ran, right⟩ := filled positions table
  have all : table' = neighbors := by
    funext c
    apply right
    rw [cells_positions]
    exact Or.inr (List.mem_finRange c)
  rw [← all]
  exact ran

end CloudLab.TearcherCode
