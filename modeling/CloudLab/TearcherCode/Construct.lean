import CloudLab.TearcherCode.Matrix
import CloudLab.Sudoku.Puzzle

/-! What the constructor makes of a board. -/

namespace CloudLab.TearcherCode
open Links
open Sudoku (DLX put MAXSIZE length_flatMap_le)
open Sudoku.DLX

/-! The values that are given. -/

def markAll (key : Cell → Nat) (inout : Board) (cells : List Cell) (marks : Nat → Nat → Bool) : Nat → Nat → Bool :=
  cells.foldl (fun marks i => put marks (key i) (put (marks (key i)) (inout i) true)) marks

section given
variable {inout : Board} {u v n : Nat} {i : Cell}

theorem markAll_apply (key : Cell → Nat) (inout : Board) (cells : List Cell) (marks : Nat → Nat → Bool) (u v : Nat) :
    markAll key inout cells marks u v = true ↔ marks u v = true ∨ ∃ i ∈ cells, key i = u ∧ (inout i).val = v := by
  induction cells generalizing marks with
  | nil => simp [markAll]
  | cons i cells ih =>
    have first : markAll key inout (i :: cells) marks =
        markAll key inout cells (put marks (key i) (put (marks (key i)) (inout i) true)) := rfl
    have marked : put marks (key i) (put (marks (key i)) (inout i) true) u v = true ↔
        marks u v = true ∨ key i = u ∧ (inout i).val = v := by
      by_cases here : u = key i
      · subst here
        rw [put_self]
        by_cases value : v = (inout i).val
        · rw [value, put_self]
          simp
        · rw [put_ne value]
          simp [Ne.symm value]
      · rw [put_ne here]
        simp [Ne.symm here]
    rw [first, ih, marked, List.exists_mem_cons_iff, or_assoc]

theorem giveCells_eq (inout : Board) (cells : List Cell) (given : Given) :
    cells.foldl (giveCell inout) given = ⟨markAll row inout cells given.rows, markAll col inout cells given.cols,
      markAll box inout cells given.boxes⟩ := by
  induction cells generalizing given with
  | nil => rfl
  | cons i cells ih =>
    rw [List.foldl_cons, ih]
    rfl

theorem given_rows : (givenOf inout).rows u v = true ↔ ∃ i, row i = u ∧ (inout i).val = v := by
  rw [givenOf, giveCells_eq, markAll_apply]
  simp

theorem given_cols : (givenOf inout).cols u v = true ↔ ∃ i, col i = u ∧ (inout i).val = v := by
  rw [givenOf, giveCells_eq, markAll_apply]
  simp

theorem given_boxes : (givenOf inout).boxes u v = true ↔ ∃ i, box i = u ∧ (inout i).val = v := by
  rw [givenOf, giveCells_eq, markAll_apply]
  simp

theorem mem_values : v ∈ values ↔ 1 ≤ v ∧ v ≤ 9 := by
  rw [values, List.mem_range'_1]
  omega

theorem mem_pairs : (u, v) ∈ ((List.range 9).flatMap fun i => values.map fun v => (i, v)) ↔ u < 9 ∧ 1 ≤ v ∧ v ≤ 9 := by
  simp [mem_values]

theorem mem_neededNames {given : Given} : n ∈ neededNames given (u, v) ↔
    n = Dance.get_row_col u v ∧ given.rows u v = false ∨ n = Dance.get_col_col u v ∧ given.cols u v = false ∨
      n = Dance.get_box_col u v ∧ given.boxes u v = false := by
  simp only [neededNames, List.mem_append]
  cases given.rows u v <;> cases given.cols u v <;> cases given.boxes u v <;> simp [or_assoc]

theorem mem_columnNames : n ∈ columnNames inout ↔ (∃ i : Cell, inout i = 0 ∧ n = i.val) ∨
    ∃ u v, (u < 9 ∧ 1 ≤ v ∧ v ≤ 9) ∧ n ∈ neededNames (givenOf inout) (u, v) := by
  rw [columnNames, List.mem_append]
  refine or_congr ?_ ?_
  · simp [eq_comm]
  · rw [List.mem_flatMap]
    constructor
    · rintro ⟨⟨u, v⟩, pair, member⟩
      exact ⟨u, v, mem_pairs.mp pair, member⟩
    · rintro ⟨u, v, pair, member⟩
      exact ⟨(u, v), mem_pairs.mpr pair, member⟩

theorem neededNames_range {given : Given} (pair : u < 9 ∧ 1 ≤ v ∧ v ≤ 9) (member : n ∈ neededNames given (u, v)) :
    100 ≤ n ∧ n < 400 ∧ n % 100 = u * 10 + v := by
  rw [mem_neededNames] at member
  simp only [Dance.get_row_col, Dance.get_col_col, Dance.get_box_col, kRow, kCol, kBox] at member
  omega

theorem columnNames_small (member : n ∈ columnNames inout) : n < 400 := by
  rcases mem_columnNames.mp member with ⟨i, _, rfl⟩ | ⟨u, v, pair, needed⟩
  · omega
  · exact (neededNames_range pair needed).2.1

theorem nodup_pairs : ((List.range 9).flatMap fun i => values.map fun v => (i, v)).Nodup := by
  decide

theorem nodup_neededNames {given : Given} (pair : u < 9 ∧ 1 ≤ v ∧ v ≤ 9) : (neededNames given (u, v)).Nodup := by
  have apart : Dance.get_row_col u v < Dance.get_col_col u v ∧ Dance.get_col_col u v < Dance.get_box_col u v := by
    simp only [Dance.get_row_col, Dance.get_col_col, Dance.get_box_col, kRow, kCol, kBox]
    omega
  simp only [neededNames]
  cases given.rows u v <;> cases given.cols u v <;> cases given.boxes u v <;> simp <;> omega

theorem nodup_columnNames : (columnNames inout).Nodup := by
  rw [columnNames, List.nodup_append]
  refine ⟨((List.nodup_finRange 81).filter _).map Fin.val_injective, ?_, ?_⟩
  · rw [List.nodup_flatMap]
    constructor
    · rintro ⟨u, v⟩ pair
      exact nodup_neededNames (mem_pairs.mp pair)
    · refine nodup_pairs.imp_of_mem ?_
      rintro ⟨u, v⟩ ⟨u', v'⟩ pair pair' different n member member'
      have first := neededNames_range (mem_pairs.mp pair) member
      have second := neededNames_range (mem_pairs.mp pair') member'
      have bounds := mem_pairs.mp pair
      have bounds' := mem_pairs.mp pair'
      exact different (Prod.ext (by omega) (by omega))
  · rintro n cell n' needed rfl
    obtain ⟨i, _, rfl⟩ := List.mem_map.mp cell
    obtain ⟨⟨u, v⟩, pair, member⟩ := List.mem_flatMap.mp needed
    have range := neededNames_range (mem_pairs.mp pair) member
    omega

theorem length_columnNames (inout : Board) : (columnNames inout).length ≤ 324 := by
  have cells : ((List.finRange 81).filter (inout · = 0)).length ≤ 81 :=
    (List.length_filter_le ..).trans (List.length_finRange ..).le
  have three : ∀ iv ∈ ((List.range 9).flatMap fun i => values.map fun v => (i, v)),
      (neededNames (givenOf inout) iv).length ≤ 3 := by
    rintro ⟨u, v⟩ _
    simp only [neededNames]
    cases (givenOf inout).rows u v <;> cases (givenOf inout).cols u v <;> cases (givenOf inout).boxes u v <;> simp
  have needed := length_flatMap_le three
  have pairs : ((List.range 9).flatMap fun i => values.map fun v => (i, v)).length = 81 := by decide
  rw [columnNames, List.length_append, List.length_map]
  omega

end given

/-! The loops of the constructor. -/

theorem foldlM_flatMap {α β γ : Type} {l : List α} {f : α → List β} {g : γ → β → Option γ} {start : γ} :
    (l.flatMap f).foldlM g start = l.foldlM (fun c x => (f x).foldlM g c) start := by
  induction l generalizing start with
  | nil => rfl
  | cons x l ih =>
    rw [List.flatMap_cons, List.foldlM_append, List.foldlM_cons]
    exact bind_congr fun c => ih

section loops
variable {inout : Board} {i : Cell} {v n : Nat} {d : Dance}

theorem mem_candidates : (i, v) ∈ candidates inout ↔
    inout i = 0 ∧ (1 ≤ v ∧ v ≤ 9) ∧ fits (givenOf inout) i v = true := by
  simp only [candidates, List.mem_flatMap, List.mem_filter, List.mem_finRange, List.mem_map, mem_values, true_and,
    decide_eq_true_eq, Prod.mk.injEq]
  constructor
  · rintro ⟨i', blank, v', ⟨value, free⟩, rfl, rfl⟩
    exact ⟨blank, value, free⟩
  · rintro ⟨blank, value, free⟩
    exact ⟨i, blank, v, ⟨value, free⟩, rfl, rfl⟩

theorem nodup_candidates : (candidates inout).Nodup := by
  rw [candidates, List.nodup_flatMap]
  constructor
  · intro i _
    refine (List.Nodup.filter _ List.nodup_range').map fun v v' same => ?_
    exact (Prod.mk.inj same).2
  · refine ((List.nodup_finRange 81).filter _).imp ?_
    intro i i' different c member member'
    obtain ⟨v, _, rfl⟩ := List.mem_map.mp member
    obtain ⟨v', _, same⟩ := List.mem_map.mp member'
    exact different (Prod.mk.inj same).1.symm

theorem length_candidates (inout : Board) : (candidates inout).length ≤ 729 := by
  have cells : ((List.finRange 81).filter (inout · = 0)).length ≤ 81 :=
    (List.length_filter_le ..).trans (List.length_finRange ..).le
  have nine : ∀ i ∈ (List.finRange 81).filter (inout · = 0),
      ((values.filter (fits (givenOf inout) i)).map fun v => (i, v)).length ≤ 9 := by
    intro i _
    rw [List.length_map]
    exact List.length_filter_le ..
  calc (candidates inout).length ≤ _ * 9 := length_flatMap_le nine
    _ ≤ 81 * 9 := Nat.mul_le_mul_right 9 cells

theorem row_less (i : Cell) : row i < 9 := by
  simp only [row]
  omega

theorem col_less (i : Cell) : TearcherCode.col i < 9 := by
  simp only [TearcherCode.col]
  omega

theorem box_less (i : Cell) : box i < 9 := by
  simp only [box, row, TearcherCode.col]
  omega

theorem known_names (member : (i, v) ∈ candidates inout) : ∀ n ∈ candidateNames (i, v), n ∈ columnNames inout ∧ n < 400 := by
  obtain ⟨blank, value, free⟩ := mem_candidates.mp member
  simp only [fits, Bool.not_eq_true', Bool.or_eq_false_iff] at free
  have known : ∀ n ∈ candidateNames (i, v), n ∈ columnNames inout := by
    simp only [candidateNames, List.forall_mem_cons, mem_columnNames, mem_neededNames]
    refine ⟨Or.inl ⟨i, blank, rfl⟩, Or.inr ⟨row i, v, ⟨row_less i, value⟩, Or.inl ⟨rfl, free.1.1⟩⟩,
      Or.inr ⟨TearcherCode.col i, v, ⟨col_less i, value⟩, Or.inr (Or.inl ⟨rfl, free.1.2⟩)⟩,
      Or.inr ⟨box i, v, ⟨box_less i, value⟩, Or.inr (Or.inr ⟨rfl, free.2⟩)⟩, fun n none => ?_⟩
    exact absurd none List.not_mem_nil
  exact fun n inside => ⟨known n inside, columnNames_small (known n inside)⟩

theorem appendNeeded_eq (given : Given) (d : Dance) (iv : Nat × Nat) :
    Dance.appendNeeded given d iv = (neededNames given iv).foldlM (fun d n => Dance.append_column n d) d := by
  obtain ⟨u, v⟩ := iv
  simp only [Dance.appendNeeded, neededNames]
  cases given.rows u v <;> cases given.cols u v <;> cases given.boxes u v <;> simp

theorem columns_loops (inout : Board) (d : Dance) :
    ((List.finRange 81).foldlM (fun d i => if inout i = 0 then Dance.append_column i d else some d) d).bind (fun d =>
      ((List.range 9).flatMap fun i => values.map fun v => (i, v)).foldlM (Dance.appendNeeded (givenOf inout)) d) =
      (columnNames inout).foldlM (fun d n => Dance.append_column n d) d := by
  have needed : ∀ (pairs : List (Nat × Nat)) (d : Dance), pairs.foldlM (Dance.appendNeeded (givenOf inout)) d =
      (pairs.flatMap (neededNames (givenOf inout))).foldlM (fun d n => Dance.append_column n d) d := by
    intro pairs d
    rw [foldlM_flatMap]
    congr 1
    funext d iv
    exact appendNeeded_eq _ d iv
  rw [columnNames, List.foldlM_append, List.foldlM_map, List.foldlM_filter]
  simp only [needed, decide_eq_true_eq]
  rfl

theorem rows_loop (inout : Board) (d : Dance) :
    (List.finRange 81).foldlM (fun d i =>
      if inout i = 0 then
        values.foldlM (fun d v =>
          if !((givenOf inout).rows (row i) v || (givenOf inout).cols (TearcherCode.col i) v ||
            (givenOf inout).boxes (box i) v) then Dance.addRow i v d
          else some d) d
      else some d) d = (candidates inout).foldlM (fun d c => Dance.addRow c.1 c.2 d) d := by
  rw [candidates, foldlM_flatMap, List.foldlM_filter]
  simp only [List.foldlM_map, List.foldlM_filter, decide_eq_true_eq]
  rfl

end loops

namespace Dance

section construct
variable {d : Dance} {names : List Nat} {cands : List (Cell × Nat)}

theorem Grown.addAll (grown : Grown d names cands) (more : List (Cell × Nat))
    (known : ∀ c ∈ more, ∀ n ∈ candidateNames c, n ∈ names ∧ n < 400)
    (room : base names.length (cands.length + more.length) ≤ kMaxNodes) :
    ∃ d', more.foldlM (fun d c => Dance.addRow c.1 c.2 d) d = some d' ∧ Grown d' names (cands ++ more) ∧
      d'.inout_ = d.inout_ ∧ d'.stack_ = d.stack_ := by
  induction more generalizing d cands with
  | nil =>
    rw [List.append_nil]
    exact ⟨d, rfl, grown, rfl, rfl⟩
  | cons c more ih =>
    simp only [base, List.length_cons] at room
    obtain ⟨d₁, first, grown₁, inout₁, stack₁⟩ := grown.addRow (known c List.mem_cons_self) (by simp only [base]; omega)
    obtain ⟨d', ran, grown', inout', stack'⟩ := ih grown₁ (fun c member => known c (List.mem_cons_of_mem _ member))
      (by simp only [base, List.length_append, List.length_singleton]; omega)
    rw [List.append_cons]
    refine ⟨d', ?_, grown', inout'.trans inout₁, stack'.trans stack₁⟩
    rw [List.foldlM_cons, first]
    exact ran

/-- The constructor returns, whatever the memory held. -/
theorem construct_grown (memory : Dance) (inout : Board) : ∃ d, construct memory inout = some d ∧
    Grown d (columnNames inout) (candidates inout) ∧ d.inout_ = inout ∧ d.stack_ = [] := by
  have few := length_columnNames inout
  have fewer := length_candidates inout
  -- the root column
  let start : Dance := { memory with
    inout_ := inout
    cur_node_ := 1
    stack_ := []
    left := put (put memory.left 0 0) 0 0
    right := put (put memory.right 0 0) 0 0
    up := put memory.up 0 0
    down := put memory.down 0 0
    col := put memory.col 0 0
    name := put memory.name 0 0
    size := put memory.size 0 0
    root_ := 0
    columns_ := fun _ => none }
  have empty : Columned start [] := by
    refine ⟨rfl, rfl, Ring.self ⟨put_self (put memory.right 0 0) 0 0, put_self (put memory.left 0 0) 0 0⟩,
      fun k low high => ?_, fun n k => ?_⟩
    · rw [List.length_nil] at high
      omega
    · exact iff_of_false (fun bad => absurd bad (Option.some_ne_none k).symm) fun bad => absurd bad.2 (by simp)
  obtain ⟨d₁, appended, columned, inout₁, stack₁⟩ := empty.appendAll (columnNames inout) nodup_columnNames
    (fun n member => columnNames_small member) (by rw [List.length_nil, kMaxNodes]; omega)
  obtain ⟨d, added, grown, inout', stack'⟩ := columned.grown.addAll (candidates inout)
    (fun c member => known_names member) (by simp only [base, List.length_nil, List.nil_append, kMaxNodes]; omega)
  refine ⟨d, ?_, grown, inout'.trans inout₁, stack'.trans stack₁⟩
  calc construct memory inout
      = ((columnNames inout).foldlM (fun d n => Dance.append_column n d) start).bind fun d =>
          (candidates inout).foldlM (fun d c => Dance.addRow c.1 c.2 d) d := by
        simp only [← columns_loops, ← rows_loop, Option.bind_assoc]
        rfl
    _ = some d := by
        rw [appended, Option.bind_some]
        exact added

end construct

end Dance

end CloudLab.TearcherCode
