import CloudLab.TearcherCode.Layout
import CloudLab.TearcherCode.Solved
import CloudLab.TearcherCode.Solvers

/-! Exact covers of the matrix are completed boards. -/

namespace CloudLab.TearcherCode
open Colouring
open Sudoku (DLX put MAXSIZE Complete)
open Sudoku.DLX

def Keeps (inout b : Board) : Prop := ∀ i, inout i ≠ 0 → b i = inout i

/-- A solver's answer is right: the board is a completed grid now, or none keeps what is given. -/
structure Settled (s : Globals) (found : Bool) (t : Globals) : Prop where
  solves : found = true → Keeps s.board t.board ∧ Complete (grid t.board)
  impossible : found = false → ∀ b, Keeps s.board b → ¬ Complete (grid b)

namespace Dance

section place
variable {b : Board} {i : Cell} {v : Nat} {rows : List Nat}

theorem place_rowOf (b : Board) (i : Cell) (small : v ≤ 9) :
    place b (rowOf (i, v)) = Function.update b i (Fin.ofNat 10 v) := by
  have cell : Fin.ofNat 81 (rowOf (i, v) / 10) = i := by
    rw [Fin.ext_iff, Fin.val_ofNat]
    simp only [rowOf]
    omega
  have value : rowOf (i, v) % 10 = v := by
    simp only [rowOf]
    omega
  rw [place, cell, value]

theorem places_other (small : ∀ r ∈ rows, ∃ c : Cell × Nat, c.2 ≤ 9 ∧ rowOf c = r ∧ c.1 ≠ i) :
    rows.foldl place b i = b i := by
  induction rows generalizing b with
  | nil => rfl
  | cons r rows ih =>
    obtain ⟨⟨j, w⟩, less, rfl, other⟩ := small r List.mem_cons_self
    rw [List.foldl_cons, ih fun r member => small r (List.mem_cons_of_mem _ member), place_rowOf b j less]
    exact Function.update_of_ne (Ne.symm other) ..

theorem places_cell (less : v ≤ 9) (small : ∀ r ∈ rows, ∃ c : Cell × Nat, c.2 ≤ 9 ∧ rowOf c = r ∧ (c.1 = i → c.2 = v))
    (chosen : rowOf (i, v) ∈ rows) : (rows.foldl place b i).val = v := by
  induction rows generalizing b with
  | nil => exact absurd chosen List.not_mem_nil
  | cons r rows ih =>
    have rest : ∀ r ∈ rows, _ := fun r member => small r (List.mem_cons_of_mem _ member)
    by_cases later : rowOf (i, v) ∈ rows
    · exact ih rest later
    · obtain rfl : rowOf (i, v) = r := (List.mem_cons.mp chosen).resolve_right later
      rw [List.foldl_cons, places_other fun r member => ?_, place_rowOf b i less, Function.update_self, Fin.val_ofNat]
      · omega
      · obtain ⟨⟨j, w⟩, few, same, value⟩ := rest r member
        refine ⟨(j, w), few, same, fun here => later ?_⟩
        have here : j = i := here
        have value' : w = v := value here
        rw [← here, ← value', same]
        exact member

end place

theorem numbered_candidates (inout : Board) : Numbered (candidates inout) := by
  refine ⟨nodup_candidates, ?_⟩
  rintro ⟨i, v⟩ member
  exact (candidates_iff.mp member).2.1

section cover
variable {d : Dance} {inout b : Board} {i : Cell} {n k r v : Nat} {rows : List Nat} {c c' : Cell × Nat}

theorem Grown.has_name (grown : Grown d (columnNames inout) (candidates inout))
    (named : 1 ≤ k ∧ (columnNames inout)[k - 1]? = some n) :
    (d.links (columnNames inout) (candidates inout)).Has r k ↔
      ∃ c ∈ candidates inout, rowOf c = r ∧ n ∈ candidateNames c := by
  rw [grown.has]
  refine exists_congr fun c => and_congr_right fun _ => and_congr_right fun _ => ?_
  constructor
  · rintro ⟨n', member, _, named'⟩
    rw [Option.some.inj (named.2.symm.trans named')]
    exact member
  · exact fun member => ⟨n, member, named⟩

theorem Grown.cover_of_proper (grown : Grown d (columnNames inout) (candidates inout)) (keeps : Keeps inout b)
    (full : ∀ i, b i ≠ 0) (proper : Proper Adjacent b) :
    ExactCover.Solvable (d.links (columnNames inout) (candidates inout)).Has (DLX.columns (columnNames inout).length) := by
  have digit : ∀ i, 1 ≤ (b i).val ∧ (b i).val ≤ 9 := by
    intro i
    have colour := full i
    rw [ne_eq, Fin.ext_iff, Fin.val_zero] at colour
    omega
  have apart := proper_parts.mp proper
  -- the value of a blank cell is not given in a part of the cell
  have member : ∀ i, inout i = 0 → (i, (b i).val) ∈ candidates inout := by
    intro i blank
    refine candidates_iff.mpr ⟨blank, digit i, fun kind given => ?_⟩
    obtain ⟨j, together, value⟩ := given
    have there : inout j ≠ 0 := by
      rw [ne_eq, Fin.ext_iff, value, Fin.val_zero]
      have positive := digit i
      omega
    have same : b j = b i := (keeps j there).trans (Fin.ext value)
    exact there (apart kind j i together same ▸ blank)
  have only : ∀ i j n, (n ∈ candidateNames (j, (b j).val) → i = j) →
      ∀ c ∈ candidates inout, rowOf c = rowOf (j, (b j).val) → n ∈ candidateNames c →
        rowOf (j, (b j).val) = rowOf (i, (b i).val) := by
    intro i j n alone c known same inside
    obtain rfl := (rowOf_inj ((numbered_candidates inout).value c known).2 (digit j).2).mp same
    rw [alone inside]
  refine ⟨{r | ∃ i, inout i = 0 ∧ rowOf (i, (b i).val) = r}, ?_, fun k wanted => ?_⟩
  · rintro _ _ k has
    obtain ⟨c, _, _, n, _, low, at_⟩ := grown.has.mp has
    have inside := (List.getElem?_eq_some_iff.mp at_).1
    exact ⟨low, by omega⟩
  · have wanted : 1 ≤ k ∧ k ≤ (columnNames inout).length := wanted
    have inside : k - 1 < (columnNames inout).length := by omega
    have named : 1 ≤ k ∧ (columnNames inout)[k - 1]? = some (columnNames inout)[k - 1] :=
      ⟨wanted.1, List.getElem?_eq_getElem inside⟩
    simp only [grown.has_name named]
    rcases columnNames_iff.mp (List.getElem_mem inside) with ⟨i, blank, name⟩ | ⟨kind, u, v, range, needed, name⟩
    · rw [name]
      have own : i.val ∈ candidateNames (i, (b i).val) := candidateNames_iff.mpr (Or.inl rfl)
      refine ⟨_, ⟨⟨i, blank, rfl⟩, _, member i blank, rfl, own⟩, ?_⟩
      rintro _ ⟨⟨j, _, rfl⟩, c, known, same, has⟩
      refine only i j i.val (fun inner => ?_) c known same has
      rcases candidateNames_iff.mp inner with cell | ⟨kind, part⟩
      · exact Fin.ext cell
      · exact absurd part (cell_ne_part i kind _ _)
    · rw [name]
      obtain ⟨i, there, value⟩ := everywhere_of_proper proper full kind range.1 range.2
      have blank : inout i = 0 := by
        by_contra given
        exact needed ⟨i, there, by rw [← keeps i given, value]⟩
      have own : partName kind u v ∈ candidateNames (i, (b i).val) :=
        candidateNames_iff.mpr (Or.inr ⟨kind, by rw [there, value]⟩)
      refine ⟨_, ⟨⟨i, blank, rfl⟩, _, member i blank, rfl, own⟩, ?_⟩
      rintro _ ⟨⟨j, _, rfl⟩, c, known, same, has⟩
      refine only i j _ (fun inner => ?_) c known same has
      rcases candidateNames_iff.mp inner with cell | ⟨kind', part⟩
      · exact absurd cell.symm (cell_ne_part j kind u v)
      · obtain ⟨rfl, rfl, rfl⟩ := (partName_inj ⟨range.1, range.2.2⟩ ⟨part_less kind' j, (digit j).2⟩).mp part
        exact apart kind i j there (Fin.ext value)

theorem Grown.proper_of_cover (grown : Grown d (columnNames inout) (candidates inout))
    (cover : ExactCover (d.links (columnNames inout) (candidates inout)).Has
      (DLX.columns (columnNames inout).length) {r | r ∈ rows})
    (known : ∀ r ∈ rows, ∃ c ∈ candidates inout, rowOf c = r) :
    Keeps inout (rows.foldl place inout) ∧ (∀ i, rows.foldl place inout i ≠ 0) ∧
      Proper Adjacent (rows.foldl place inout) := by
  -- every name belongs to one row of the cover
  have chosen : ∀ n ∈ columnNames inout, ∃ c ∈ candidates inout, rowOf c ∈ rows ∧ n ∈ candidateNames c ∧
      ∀ c' ∈ candidates inout, rowOf c' ∈ rows → n ∈ candidateNames c' → c' = c := by
    intro n member
    obtain ⟨j, inside, at_⟩ := List.mem_iff_getElem.mp member
    have named : 1 ≤ j + 1 ∧ (columnNames inout)[j + 1 - 1]? = some n :=
      ⟨Nat.succ_pos j, by rw [Nat.add_sub_cancel, ← at_]; exact List.getElem?_eq_getElem inside⟩
    obtain ⟨r, ⟨row, has⟩, only⟩ := cover.once (j + 1) ⟨Nat.succ_pos j, inside⟩
    obtain ⟨c, candidate, rfl, name⟩ := (grown.has_name named).mp has
    refine ⟨c, candidate, row, name, fun c' candidate' row' name' => ?_⟩
    have same := only (rowOf c') ⟨row', (grown.has_name named).mpr ⟨c', candidate', rfl, name'⟩⟩
    exact (rowOf_inj ((numbered_candidates inout).value c' candidate').2
      ((numbered_candidates inout).value c candidate).2).mp same
  have keeps : Keeps inout (rows.foldl place inout) := by
    intro i given
    refine places_other fun r member => ?_
    obtain ⟨⟨j, w⟩, candidate, same⟩ := known r member
    obtain ⟨blank, value, _⟩ := candidates_iff.mp candidate
    refine ⟨(j, w), value.2, same, fun here => given ?_⟩
    rw [← here]
    exact blank
  -- a blank cell has the value of its row
  have filled : ∀ i v, (i, v) ∈ candidates inout → rowOf (i, v) ∈ rows → (rows.foldl place inout i).val = v := by
    intro i v candidate row
    obtain ⟨blank, _, _⟩ := candidates_iff.mp candidate
    obtain ⟨c, _, _, _, only⟩ := chosen i.val (columnNames_iff.mpr (Or.inl ⟨i, blank, rfl⟩))
    refine places_cell (candidates_iff.mp candidate).2.1.2 (fun r member => ?_) row
    obtain ⟨⟨j, w⟩, candidate', same⟩ := known r member
    refine ⟨(j, w), (candidates_iff.mp candidate').2.1.2, same, fun here => ?_⟩
    have here : j = i := here
    have first := only (j, w) candidate' (same ▸ member) (candidateNames_iff.mpr (Or.inl (by rw [here])))
    have second := only (i, v) candidate row (candidateNames_iff.mpr (Or.inl rfl))
    exact (Prod.mk.inj (first.trans second.symm)).2
  have full : ∀ i, rows.foldl place inout i ≠ 0 := by
    intro i
    by_cases blank : inout i = 0
    · obtain ⟨⟨j, w⟩, candidate, row, name, _⟩ := chosen i.val (columnNames_iff.mpr (Or.inl ⟨i, blank, rfl⟩))
      have here : j = i := by
        rcases candidateNames_iff.mp name with cell | ⟨kind, part⟩
        · exact Fin.ext cell.symm
        · exact absurd part (cell_ne_part i kind _ _)
      subst here
      have value := filled j w candidate row
      have positive := (candidates_iff.mp candidate).2.1.1
      rw [ne_eq, Fin.ext_iff, value, Fin.val_zero]
      omega
    · rw [keeps i blank]
      exact blank
  refine ⟨keeps, full, proper_of_everywhere full fun kind u v small value => ?_⟩
  by_cases given : GivenIn inout kind u v
  · obtain ⟨i, there, same⟩ := given
    have old : inout i ≠ 0 := by
      rw [ne_eq, Fin.ext_iff, same, Fin.val_zero]
      omega
    exact ⟨i, there, by rw [keeps i old, same]⟩
  · obtain ⟨⟨i, w⟩, candidate, row, name, _⟩ :=
      chosen _ (columnNames_iff.mpr (Or.inr ⟨kind, u, v, ⟨small, value⟩, given, rfl⟩))
    rcases candidateNames_iff.mp name with cell | ⟨kind', part⟩
    · exact absurd cell.symm (cell_ne_part i kind u v)
    · have digit := (candidates_iff.mp candidate).2.1
      obtain ⟨rfl, rfl, rfl⟩ := (partName_inj ⟨small, value.2⟩ ⟨part_less kind' i, digit.2⟩).mp part
      exact ⟨i, rfl, filled i v candidate row⟩

end cover

theorem Grown.search {d : Dance} {s : Globals} {loops fuel : Nat}
    (grown : Grown d (columnNames s.board) (candidates s.board)) (board : d.inout_ = s.board) (empty : d.stack_ = [])
    (long : kMaxNodes ≤ loops) (deep : 324 < fuel) :
    ∃ found d', d.solve loops fuel = some (found, d') ∧ Settled s found { s with board := d'.inout_ } ∧
      (found = false → d'.inout_ = s.board) := by
  have few := length_columnNames s.board
  have fewer := length_candidates s.board
  have numbered := numbered_candidates s.board
  have tot := grown.tot
  obtain ⟨nodes, others, layout⟩ := grown.layout numbered (by simp only [base, kMaxNodes]; omega)
  have nothing : ∀ x ∈ d.stack_, (d.links (columnNames s.board) (candidates s.board)).Node x := by
    intro x member
    rw [empty] at member
    exact absurd member List.not_mem_nil
  have short : (d.links (columnNames s.board) (candidates s.board)).tot < loops := by
    rw [kMaxNodes] at long
    omega
  have shallow : (List.range' 1 (columnNames s.board).length).length < fuel := by
    rw [List.length_range']
    omega
  obtain ⟨found, d', ran, won, lost⟩ :=
    solve_spec layout ⟨rfl, grown.labelled numbered, grown.root, nothing⟩ short shallow
  refine ⟨found, d', ran, ⟨fun yes => ?_, fun no b keeps complete => ?_⟩, fun no => ?_⟩
  · obtain ⟨rows, cover, known, filled⟩ := won yes
    rw [empty, board, List.map_nil, List.nil_append] at filled
    obtain ⟨keeps, full, proper⟩ := grown.proper_of_cover cover fun r member => by
      obtain ⟨x, node, rfl⟩ := known r member
      obtain ⟨g, c, t, n, found', named, rfl⟩ := grown.node node
      exact ⟨c, List.mem_of_getElem? found', (grown.spot found' named).2.1.symm⟩
    rw [← filled] at keeps full proper
    exact ⟨keeps, complete_grid.mpr ⟨full, proper⟩⟩
  · obtain ⟨full, proper⟩ := complete_grid.mp complete
    exact (lost no).1 (grown.cover_of_proper keeps full proper)
  · rw [(lost no).2]
    exact board

end Dance

open Dance

/-- On every board the solver with dancing links returns, whatever the memory held. -/
theorem dancing_settles (memory : Dance) {loops fuel : Nat} (s : Globals) (long : kMaxNodes ≤ loops)
    (deep : 324 < fuel) :
    ∃ found t, solve_sudoku_dancing_links memory loops fuel s = some (found, t) ∧ Settled s found t ∧
      (found = false → t = s) := by
  obtain ⟨d, constructed, grown, board, empty⟩ := construct_grown memory s.board
  obtain ⟨found, d', ran, settled, kept⟩ := grown.search board empty long deep
  refine ⟨found, { s with board := d'.inout_ }, ?_, settled, fun no => ?_⟩
  · simp only [solve_sudoku_dancing_links, constructed, ran, Option.bind_eq_bind, Option.bind_some]
  · rw [kept no]

section settled
variable {s t u : Globals} {found found' : Bool}

theorem Settled.agree (settled : Settled s found t) (settled' : Settled s found' u) : found = found' := by
  cases found with
  | true =>
    obtain ⟨keeps, complete⟩ := settled.solves rfl
    cases found' with
    | true => rfl
    | false => exact absurd complete (settled'.impossible rfl _ keeps)
  | false =>
    cases found' with
    | true =>
      obtain ⟨keeps, complete⟩ := settled'.solves rfl
      exact absurd complete (settled.impossible rfl _ keeps)
    | false => rfl

theorem Settled.clash (settled : Settled s found t) (clash : ¬ Consistent Adjacent 0 s.board) : found = false := by
  cases found with
  | true =>
    obtain ⟨keeps, complete⟩ := settled.solves rfl
    exact absurd (Consistent.of_proper (complete_grid.mp complete).2 keeps) clash
  | false => rfl

theorem Decided.settled (decided : Decided s found t) (consistent : Consistent Adjacent 0 s.board) :
    Settled s found t := by
  refine ⟨fun yes => ?_, fun no b keeps complete => ?_⟩
  · have completes := decided.completes yes
    have full : ∀ i, t.board i ≠ 0 := by
      intro i
      by_cases blank : s.board i = 0
      · exact completes.filled i blank
      · rw [completes.kept i blank]
        exact blank
    exact ⟨completes.kept, complete_grid.mpr ⟨full, completes.proper adjacent_symmetric consistent⟩⟩
  · obtain ⟨full, proper⟩ := complete_grid.mp complete
    exact decided.impossible no b (Completes.of_proper proper full keeps)

end settled

/-- On every line of digits the solver with dancing links returns. It succeeds when the grid can be completed,
and then has completed it; else it leaves everything as it was. It agrees with the plain solver when the givens
do not clash, and fails when they do. -/
theorem dancing_agrees (puzzle : List Int8) (heap : Dance) (memory : Globals) (loops fuel : Nat)
    (long : 81 ≤ puzzle.length) (digits : Digits puzzle) (room : kMaxNodes ≤ loops) (deep : 324 < fuel) :
    ∃ s found t, input puzzle memory = some s ∧ (∀ cell, (s.board cell).val = givenAt puzzle cell) ∧
      solve_sudoku_dancing_links heap loops fuel s = some (found, t) ∧ Settled s found t ∧ (found = false → t = s) ∧
      (Consistent Adjacent 0 s.board → ∃ u, solve_sudoku_basic fuel 0 s = some (found, u)) ∧
      (¬ Consistent Adjacent 0 s.board → found = false) := by
  obtain ⟨s, read, given, listed⟩ := input_digits long digits memory
  obtain ⟨found, t, ran, settled, kept⟩ := dancing_settles heap s room deep
  refine ⟨s, found, t, read, given, ran, settled, kept, fun consistent => ?_, settled.clash⟩
  obtain ⟨found', u, ran', decided⟩ := solver_decides basic_finds listed (show 81 < fuel by omega)
  rw [settled.agree (decided.settled consistent)]
  exact ⟨u, ran'⟩

def unwritten : Dance where
  root_ := 0
  inout_ := fun _ => 0
  columns_ := fun _ => none
  stack_ := []
  left := fun _ => 0
  right := fun _ => 0
  up := fun _ => 0
  down := fun _ => 0
  col := fun _ => 0
  name := fun _ => 0
  size := fun _ => 0
  cur_node_ := 0

theorem dancing_agrees_zeros :
    ∃ s found t, input zeros untouched = some s ∧ (∀ cell, (s.board cell).val = givenAt zeros cell) ∧
      solve_sudoku_dancing_links unwritten kMaxNodes 325 s = some (found, t) ∧ Settled s found t ∧
      (found = false → t = s) ∧
      (Consistent Adjacent 0 s.board → ∃ u, solve_sudoku_basic 325 0 s = some (found, u)) ∧
      (¬ Consistent Adjacent 0 s.board → found = false) :=
  dancing_agrees zeros unwritten untouched kMaxNodes 325 (by decide) digits_zeros le_rfl (by decide)

end CloudLab.TearcherCode
