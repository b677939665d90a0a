import CloudLab.TearcherCode.Covering
import CloudLab.TearcherCode.Lockstep

/-! The program: it reads a file of puzzles, counts those it has solved and prints the others. -/

namespace CloudLab.TearcherCode
open Colouring
open Sudoku (Complete)

def cstring (puzzle : List Int8) : List Int8 := puzzle.takeWhile (· ≠ 0)

def takeLine : Nat → List Int8 → List Int8
  | 0, _ => []
  | _ + 1, [] => []
  | n + 1, c :: fp => if c = 10 then [c] else c :: takeLine n fp

/-- Up to `size - 1` characters, through the first newline, and the rest of the file. -/
def fgets (size : Nat) (fp : List Int8) : Option (List Int8 × List Int8) :=
  if fp = [] then none
  else some (takeLine (size - 1) fp, fp.drop (takeLine (size - 1) fp).length)

inductive Solver
  | basic
  | min_arity
  | min_arity_cache
  | dancing_links
  deriving DecidableEq

def chooseSolver (argument : Option (List Int8)) : Solver :=
  match argument with
  | none => .basic
  | some argument =>
      if argument.headD 0 = 97 then .min_arity
      else if argument.headD 0 = 99 then .min_arity_cache
      else if argument.headD 0 = 100 then .dancing_links
      else .basic

def Solver.solve (solver : Solver) (heap : Dance) (loops fuel : Nat) (t : Cached) : Option (Bool × Cached) :=
  match solver with
  | .basic => (solve_sudoku_basic fuel 0 t.toGlobals).map fun answer => (answer.1, { t with toGlobals := answer.2 })
  | .min_arity =>
      (solve_sudoku_min_arity fuel 0 t.toGlobals).map fun answer => (answer.1, { t with toGlobals := answer.2 })
  | .min_arity_cache => solve_sudoku_min_arity_cache fuel 0 t
  | .dancing_links =>
      (solve_sudoku_dancing_links heap loops fuel t.toGlobals).map
        fun answer => (answer.1, { t with toGlobals := answer.2 })

structure Program where
  memory : Cached
  total : Nat
  total_solved : Nat
  printed : List Int8

def noLine (puzzle : List Int8) : List Int8 := [78, 111, 58, 32] ++ cstring puzzle

/-- One puzzle, where `heap` is what the memory of the solver's object holds each time. -/
def turn (solver : Solver) (heap : Nat → Dance) (loops fuel : Nat) (s : Program) (puzzle : List Int8) :
    Option Program := do
  let total := s.total + 1
  let globals ← input puzzle s.memory.toGlobals
  let (found, memory) ← solver.solve (heap total) loops fuel (init_cache { s.memory with toGlobals := globals })
  if found then do
    let passed ← solved memory.board
    if passed then some ⟨memory, total, s.total_solved + 1, s.printed⟩ else none
  else some ⟨memory, total, s.total_solved, s.printed ++ noLine puzzle⟩

/-- The loop over the lines of the file, for at most `turns` turns. -/
def readPuzzles (solver : Solver) (heap : Nat → Dance) (loops fuel : Nat) : Nat → List Int8 → Program → Option Program
  | 0, _, _ => none
  | turns + 1, fp, s =>
      match fgets 128 fp with
      | none => some s
      | some (puzzle, rest) => do
          let s ← if (cstring puzzle).length ≥ 81 then turn solver heap loops fuel s puzzle else some s
          readPuzzles solver heap loops fuel turns rest s

def main (table : Cell → List Cell) (memory : Cached) (heap : Nat → Dance) (loops fuel turns : Nat)
    (argument : Option (List Int8)) (fp : List Int8) : Option Program := do
  let _ ← init_neighbors table
  readPuzzles (chooseSolver argument) heap loops fuel turns fp ⟨memory, 0, 0, []⟩

/-! What the file says. -/

def pieces : Nat → List Int8 → List (List Int8)
  | 0, _ => []
  | n + 1, fp =>
      match fgets 128 fp with
      | none => []
      | some (piece, rest) => piece :: pieces n rest

def puzzles (fp : List Int8) : List (List Int8) := (pieces fp.length fp).filter fun piece => (cstring piece).length ≥ 81

def boardOf (puzzle : List Int8) : Board := fun cell => Fin.ofNat 10 (givenAt puzzle cell).toNat

def Solvable (puzzle : List Int8) : Prop := ∃ b, Keeps (boardOf puzzle) b ∧ Complete (grid b)

/-- No assertion fails: the puzzle begins with 81 digits, and its givens clash only where the blanks cannot be
filled, unless the solver is the one with dancing links. -/
def Taken (solver : Solver) (puzzle : List Int8) : Prop :=
  Digits puzzle ∧ (solver ≠ .dancing_links → (∃ b, Completes Adjacent 0 (boardOf puzzle) b) →
    Consistent Adjacent 0 (boardOf puzzle))

open scoped Classical in
/-- How many puzzles are solved, and what is printed for the others. -/
noncomputable def outcome (puzzles : List (List Int8)) : Nat × List Int8 :=
  (puzzles.countP fun puzzle => Solvable puzzle, (puzzles.filter fun puzzle => ¬ Solvable puzzle).flatMap noLine)

section reading
variable {fp : List Int8}

theorem fgets_some (size : Nat) (some_ : fp ≠ []) (room : 1 < size) :
    ∃ piece rest, fgets size fp = some (piece, rest) ∧ rest.length < fp.length := by
  obtain ⟨c, fp, rfl⟩ := List.exists_cons_of_ne_nil some_
  obtain ⟨n, rfl⟩ : ∃ n, size = n + 2 := ⟨size - 2, by omega⟩
  refine ⟨_, _, if_neg some_, ?_⟩
  have positive : 0 < (takeLine (n + 2 - 1) (c :: fp)).length := by
    show 0 < (if c = 10 then [c] else c :: takeLine n fp).length
    split
    · exact Nat.one_pos
    · exact Nat.succ_pos _
  rw [List.length_drop, List.length_cons]
  omega

theorem readPuzzles_eq (solver : Solver) (heap : Nat → Dance) (loops fuel : Nat) {turns n : Nat} (s : Program)
    (enough : fp.length < turns) (all : fp.length ≤ n) :
    readPuzzles solver heap loops fuel turns fp s =
      ((pieces n fp).filter fun piece => (cstring piece).length ≥ 81).foldlM (turn solver heap loops fuel) s := by
  induction turns generalizing n fp s with
  | zero => omega
  | succ turns ih =>
    by_cases ended : fp = []
    · subst ended
      have none : pieces n [] = [] := by
        cases n with
        | zero => rfl
        | succ n => rfl
      rw [none]
      rfl
    · obtain ⟨piece, rest, read, shorter⟩ := fgets_some 128 ended (by decide)
      obtain ⟨n, rfl⟩ : ∃ n', n = n' + 1 := ⟨n - 1, by omega⟩
      have left : ∀ s, readPuzzles solver heap loops fuel turns rest s = _ := fun s =>
        ih (n := n) s (by omega) (by omega)
      simp only [readPuzzles, pieces, read, left, List.filter_cons, decide_eq_true_eq]
      split
      · rw [List.foldlM_cons]
      · rfl

theorem foldlM_none {α β : Type} {f : β → α → Option β} {l : List α} {x : α} (member : x ∈ l)
    (fails : ∀ b, f b x = none) (b : β) : l.foldlM f b = none := by
  induction l generalizing b with
  | nil => exact absurd member List.not_mem_nil
  | cons y l ih =>
    rw [List.foldlM_cons]
    rcases List.mem_cons.mp member with rfl | later
    · rw [fails b]
      rfl
    · cases f b y with
      | none => rfl
      | some b' => exact ih later b'

end reading

section turn
variable {solver : Solver} {heap : Nat → Dance} {loops fuel : Nat} {puzzle : List Int8} {s : Globals}

theorem boardOf_eq (given : ∀ cell, (s.board cell).val = givenAt puzzle cell) : boardOf puzzle = s.board := by
  funext cell
  have value := given cell
  rw [Fin.ext_iff, boardOf, Fin.val_ofNat, ← value, Int.toNat_natCast]
  exact Nat.mod_eq_of_lt (s.board cell).2

/-- Whichever solver it is, it returns with an answer that is right, but that all but the last may complete
clashing givens. -/
theorem Solver.solve_spec (solver : Solver) (heap : Dance) {t : Cached} (counted : Counted t)
    (listed : Listed 0 t.toGlobals) (room : kMaxNodes ≤ loops) (deep : 324 < fuel) :
    ∃ found u, solver.solve heap loops fuel t = some (found, u) ∧
      (solver = .dancing_links → Settled t.toGlobals found u.toGlobals) ∧
      (solver ≠ .dancing_links → Decided t.toGlobals found u.toGlobals) := by
  have deep' : 81 < fuel := by omega
  cases solver with
  | basic =>
    obtain ⟨found, u, ran, decided⟩ := solver_decides basic_finds listed deep'
    have ran : solve_sudoku_basic fuel 0 t.toGlobals = some (found, u) := ran
    refine ⟨found, { t with toGlobals := u }, ?_, fun same => absurd same (by decide), fun _ => decided⟩
    rw [Solver.solve, ran]
    rfl
  | min_arity =>
    obtain ⟨found, u, ran, decided⟩ := solver_decides min_arity_finds listed deep'
    have ran : solve_sudoku_min_arity fuel 0 t.toGlobals = some (found, u) := ran
    refine ⟨found, { t with toGlobals := u }, ?_, fun same => absurd same (by decide), fun _ => decided⟩
    rw [Solver.solve, ran]
    rfl
  | min_arity_cache =>
    obtain ⟨found, s, u, _, decided, ran, rfl, _⟩ := counted.search listed deep'
    exact ⟨found, u, ran, fun same => absurd same (by decide), fun _ => decided⟩
  | dancing_links =>
    obtain ⟨found, u, ran, settled, _⟩ := dancing_settles heap t.toGlobals room deep
    refine ⟨found, { t with toGlobals := u }, ?_, fun _ => settled, fun other => absurd rfl other⟩
    rw [Solver.solve, ran]
    rfl

theorem turn_other (long : 81 ≤ puzzle.length) (other : ¬ Digits puzzle) (s : Program) :
    turn solver heap loops fuel s puzzle = none := by
  rw [turn, input_none long other]
  rfl

theorem turn_digits (solver : Solver) (heap : Nat → Dance) (long : 81 ≤ puzzle.length) (digits : Digits puzzle) (s : Program) (room : kMaxNodes ≤ loops)
    (deep : 324 < fuel) :
    ∃ found u, turn solver heap loops fuel s puzzle = (if found then
          (solved u.board).bind fun passed =>
            if passed then some ⟨u, s.total + 1, s.total_solved + 1, s.printed⟩ else none
        else some ⟨u, s.total + 1, s.total_solved, s.printed ++ noLine puzzle⟩) ∧
      ∃ g : Globals, boardOf puzzle = g.board ∧ (solver = .dancing_links → Settled g found u.toGlobals) ∧
        (solver ≠ .dancing_links → Decided g found u.toGlobals) := by
  obtain ⟨g, read, given, listed⟩ := input_digits long digits s.memory.toGlobals
  obtain ⟨counted, globals⟩ := init_cache_counted { s.memory with toGlobals := g }
  have listed' : Listed 0 (init_cache { s.memory with toGlobals := g }).toGlobals := by
    rw [globals]
    exact listed
  obtain ⟨found, u, ran, settled, decided⟩ := solver.solve_spec (heap (s.total + 1)) counted listed' room deep
  rw [globals] at settled decided
  refine ⟨found, u, ?_, g, boardOf_eq given, settled, decided⟩
  simp only [turn, read, ran, Option.bind_eq_bind, Option.bind_some]

theorem Taken.settled {g t : Globals} {found : Bool} (taken : Taken solver puzzle) (board : boardOf puzzle = g.board)
    (settled : solver = .dancing_links → Settled g found t) (decided : solver ≠ .dancing_links → Decided g found t) :
    Settled g found t := by
  by_cases last : solver = .dancing_links
  · exact settled last
  · have decided := decided last
    cases found with
    | true =>
      have completes := decided.completes rfl
      rw [← board] at completes
      have consistent := taken.2 last ⟨t.board, completes⟩
      rw [board] at consistent
      exact decided.settled consistent
    | false =>
      refine ⟨fun none => absurd none (by decide), fun _ b keeps complete => ?_⟩
      obtain ⟨full, proper⟩ := complete_grid.mp complete
      exact decided.impossible rfl b (Completes.of_proper proper full keeps)

open scoped Classical in
theorem turn_taken (heap : Nat → Dance) (long : 81 ≤ puzzle.length) (taken : Taken solver puzzle) (s : Program) (room : kMaxNodes ≤ loops)
    (deep : 324 < fuel) :
    ∃ u, turn solver heap loops fuel s puzzle = some ⟨u, s.total + 1,
      s.total_solved + (if Solvable puzzle then 1 else 0),
      s.printed ++ if Solvable puzzle then [] else noLine puzzle⟩ := by
  obtain ⟨found, u, ran, g, board, settled, decided⟩ := turn_digits solver heap long taken.1 s room deep
  have right := taken.settled board settled decided
  refine ⟨u, ?_⟩
  rw [ran]
  cases found with
  | true =>
    obtain ⟨keeps, complete⟩ := right.solves rfl
    have solvable : Solvable puzzle := ⟨u.board, board ▸ keeps, complete⟩
    have passed : solved u.board = some true := solved_true.mpr (complete_grid.mp complete)
    rw [if_pos solvable, if_pos solvable, List.append_nil, if_pos rfl, passed]
    rfl
  | false =>
    have unsolvable : ¬ Solvable puzzle := by
      rintro ⟨b, keeps, complete⟩
      rw [board] at keeps
      exact right.impossible rfl b keeps complete
    rw [if_neg unsolvable, if_neg unsolvable, Nat.add_zero]
    rfl

theorem turn_clash (long : 81 ≤ puzzle.length) (clash : ¬ Taken solver puzzle) (s : Program)
    (room : kMaxNodes ≤ loops) (deep : 324 < fuel) : turn solver heap loops fuel s puzzle = none := by
  by_cases digits : Digits puzzle
  · obtain ⟨found, u, ran, g, board, _, decided⟩ := turn_digits solver heap long digits s room deep
    have clashing : solver ≠ .dancing_links ∧ (∃ b, Completes Adjacent 0 g.board b) ∧ ¬ Consistent Adjacent 0 g.board := by
      rw [← board]
      simpa [Taken, digits] using clash
    obtain ⟨other, ⟨b, completes⟩, bad⟩ := clashing
    have decided := decided other
    have yes : found = true := by
      cases found with
      | true => rfl
      | false => exact absurd completes (decided.impossible rfl b)
    subst yes
    have kept := (decided.completes rfl).kept
    rw [ran, if_pos rfl]
    cases checked : solved u.board with
    | none => rfl
    | some passed =>
      cases passed with
      | true => exact absurd (Consistent.of_proper (solved_true.mp checked).2 kept) bad
      | false => rfl
  · exact turn_other long digits s

end turn

/-! The whole file. -/

section file
variable {solver : Solver} {heap : Nat → Dance} {loops fuel : Nat}

theorem turns_taken (room : kMaxNodes ≤ loops) (deep : 324 < fuel) (lines : List (List Int8))
    (long : ∀ puzzle ∈ lines, 81 ≤ puzzle.length) (taken : ∀ puzzle ∈ lines, Taken solver puzzle) (s : Program) :
    ∃ t, lines.foldlM (turn solver heap loops fuel) s = some t ∧
      t.total_solved = s.total_solved + (outcome lines).1 ∧ t.printed = s.printed ++ (outcome lines).2 := by
  induction lines generalizing s with
  | nil =>
    refine ⟨s, rfl, rfl, ?_⟩
    simp [outcome]
  | cons puzzle lines ih =>
    obtain ⟨u, ran⟩ := turn_taken heap (long puzzle List.mem_cons_self) (taken puzzle List.mem_cons_self) s room deep
    obtain ⟨t, rest, count, printed⟩ := ih (fun puzzle member => long puzzle (List.mem_cons_of_mem _ member))
      (fun puzzle member => taken puzzle (List.mem_cons_of_mem _ member)) _
    refine ⟨t, ?_, count.trans ?_, printed.trans ?_⟩
    · rw [List.foldlM_cons, ran]
      exact rest
    · by_cases solvable : Solvable puzzle
      · simp [outcome, solvable]
        omega
      · simp [outcome, solvable]
    · by_cases solvable : Solvable puzzle
      · simp [outcome, solvable]
      · simp [outcome, solvable]

theorem long_puzzles {fp puzzle : List Int8} (member : puzzle ∈ puzzles fp) : 81 ≤ puzzle.length := by
  have long : 81 ≤ (cstring puzzle).length := of_decide_eq_true (List.mem_filter.mp member).2
  exact long.trans (List.takeWhile_prefix _).length_le

/-- When every puzzle is taken, the program counts those that have a solution and prints the others in order, with
any solver. Else an assertion fails. -/
theorem main_outcome (table : Cell → List Cell) (memory : Cached) (heap : Nat → Dance) (loops fuel turns : Nat)
    (argument : Option (List Int8)) (fp : List Int8) (room : kMaxNodes ≤ loops) (deep : 324 < fuel)
    (enough : fp.length < turns) :
    ((∀ puzzle ∈ puzzles fp, Taken (chooseSolver argument) puzzle) →
      ∃ s, main table memory heap loops fuel turns argument fp = some s ∧
        (s.total_solved, s.printed) = outcome (puzzles fp)) ∧
    ((∃ puzzle ∈ puzzles fp, ¬ Taken (chooseSolver argument) puzzle) →
      main table memory heap loops fuel turns argument fp = none) := by
  have whole : main table memory heap loops fuel turns argument fp =
      (puzzles fp).foldlM (turn (chooseSolver argument) heap loops fuel) ⟨memory, 0, 0, []⟩ := by
    rw [main, init_neighbors_eq]
    exact readPuzzles_eq _ _ _ _ _ enough le_rfl
  rw [whole]
  constructor
  · intro taken
    obtain ⟨s, ran, count, printed⟩ := turns_taken room deep (puzzles fp) (fun _ => long_puzzles) taken ⟨memory, 0, 0, []⟩
    rw [List.nil_append] at printed
    exact ⟨s, ran, Prod.ext (count.trans (Nat.zero_add _)) printed⟩
  · rintro ⟨puzzle, member, clash⟩
    exact foldlM_none member (fun s => turn_clash (long_puzzles member) clash s room deep) _

/-! Two puzzles: one without givens, and one with the same digit twice in a row. -/

def twoOnes : List Int8 := [49, 49] ++ List.replicate 79 48

def twoPuzzles : List Int8 := zeros ++ [10] ++ (twoOnes ++ [10])

theorem puzzles_twoPuzzles : puzzles twoPuzzles = [zeros ++ [10], twoOnes ++ [10]] := by decide +kernel

theorem solvable_zeros : Solvable (zeros ++ [10]) := by
  let b : Board := fun cell => Fin.ofNat 10 (Sudoku.diagonalSolution (cell / 9 + 1) (cell % 9 + 1))
  have blank : ∀ cell, boardOf (zeros ++ [10]) cell = 0 := by decide +kernel
  refine ⟨b, fun cell given => absurd (blank cell) given, complete_grid.mpr ⟨?_, ?_⟩⟩
  · decide +kernel
  · unfold Proper Adjacent
    decide +kernel

theorem unsolvable_twoOnes : ¬ Solvable (twoOnes ++ [10]) := by
  rintro ⟨b, keeps, complete⟩
  have proper := (complete_grid.mp complete).2
  have first : boardOf (twoOnes ++ [10]) 0 = 1 := by decide +kernel
  have second : boardOf (twoOnes ++ [10]) 1 = 1 := by decide +kernel
  have same : b 0 = b 1 := by
    rw [keeps 0 (by rw [first]; decide), keeps 1 (by rw [second]; decide), first, second]
  exact proper 0 1 (by decide) same

theorem main_outcome_two_puzzles : ∃ s,
    main (fun _ => []) uncached (fun _ => unwritten) kMaxNodes 325 165 (some [100]) twoPuzzles = some s ∧
      s.total_solved = 1 ∧ s.printed = noLine (twoOnes ++ [10]) := by
  have taken : ∀ puzzle ∈ puzzles twoPuzzles, Taken (chooseSolver (some [100])) puzzle := by
    rw [puzzles_twoPuzzles]
    have digits : ∀ puzzle ∈ [zeros ++ [10], twoOnes ++ [10]], Digits puzzle := by
      unfold Digits
      decide +kernel
    exact fun puzzle member => ⟨digits puzzle member, fun other => absurd rfl other⟩
  obtain ⟨s, ran, counted⟩ := (main_outcome (fun _ => []) uncached (fun _ => unwritten) kMaxNodes 325 165
    (some [100]) twoPuzzles le_rfl (by decide) (by decide +kernel)).1 taken
  have result : outcome (puzzles twoPuzzles) = (1, noLine (twoOnes ++ [10])) := by
    rw [puzzles_twoPuzzles, outcome]
    simp [solvable_zeros, unsolvable_twoOnes]
  rw [result, Prod.mk.injEq] at counted
  exact ⟨s, ran, counted⟩

end file

end CloudLab.TearcherCode
