import CloudLab.TearcherCode.Spaces
import CloudLab.Library.Backtracking

/-! The solver that takes the blank cells in order and the one that takes a cell with the fewest
choices first. -/

namespace CloudLab.TearcherCode
open Backtracking Colouring

def available (guess : Value) (cell : Cell) (s : Globals) : Bool :=
  (neighbors cell).all fun neighbor => s.board neighbor ≠ guess

def guesses : List Value := [1, 2, 3, 4, 5, 6, 7, 8, 9]

def hold (cell : Cell) (guess : Value) (s : Globals) : Option (Unit × Globals) :=
  if s.board cell = 0 then some ((), s.setCell cell guess) else none

def unhold (cell : Cell) (guess : Value) (s : Globals) : Option Globals :=
  if s.board cell = guess then some (s.setCell cell 0) else none

/-- The two solvers differ in what they do before they read `spaces[which_space]`. -/
def solver (find : Nat → Globals → Option Globals) : Machine Globals Cell Value Unit where
  finished which_space s := which_space ≥ s.nspaces
  pick which_space s := (find which_space s).bind fun s => (s.space which_space).map fun cell => (cell, s)
  moves cell :=
    { free := fun guess s => available guess cell s
      hold := hold cell
      unhold := fun guess _ s => unhold cell guess s }
  guesses := guesses

/-- The answer and the globals it leaves; a call deeper than `fuel` gives `none`. -/
def solve_sudoku_basic (fuel which_space : Nat) (s : Globals) : Option (Bool × Globals) :=
  (solver fun _ s => some s).search fuel which_space s

def minSpace (arity : Cell → Int) (s : Globals) : Nat → Nat → Nat → Int → Option Nat
  | 0, _, min_space, _ => some min_space
  | left + 1, sp, min_space, min_arity =>
      if min_arity > 1 then
        (s.space sp).bind fun cell =>
          if arity cell < min_arity then minSpace arity s left (sp + 1) sp (arity cell)
          else minSpace arity s left (sp + 1) min_space min_arity
      else some min_space

def findMinArity (arity : Cell → Int) (space : Nat) (s : Globals) : Option Globals := do
  let cell ← s.space space
  let min_space ← minSpace arity s (s.nspaces - (space + 1)) (space + 1) space (arity cell)
  if space ≠ min_space then some (s.swapSpaces min_space space) else some s

namespace MinArity

def arity (s : Globals) (cell : Cell) : Int :=
  let occupied := (neighbors cell).foldl (fun occupied neighbor => Function.update occupied (s.board neighbor) true)
    (fun _ : Value => false)
  guesses.countP fun v => !occupied v

def find_min_arity (space : Nat) (s : Globals) : Option Globals := findMinArity (arity s) space s

end MinArity

def solve_sudoku_min_arity (fuel which_space : Nat) (s : Globals) : Option (Bool × Globals) :=
  (solver MinArity.find_min_arity).search fuel which_space s

def Chosen (which_space : Nat) (cell : Cell) (s : Globals) : Prop :=
  Listed which_space s ∧ which_space < s.nspaces ∧ s.spaces which_space = cell

section chosen
variable {s t : Globals} {which_space : Nat} {cell : Cell} {guess : Value}

theorem Chosen.blank (chosen : Chosen which_space cell s) : s.board cell = 0 :=
  (chosen.1.blank cell).mpr ⟨which_space, Nat.le_refl _, chosen.2.1, chosen.2.2⟩

theorem Chosen.filled (chosen : Chosen which_space cell s) (colour : guess ≠ 0) :
    Listed (which_space + 1) (s.setCell cell guess) := by
  obtain ⟨listed, more, here⟩ := chosen
  refine ⟨listed.bounded, more, fun other => ?_, ?_⟩
  · show Function.update s.board cell guess other = 0 ↔ ∃ i, which_space + 1 ≤ i ∧ i < s.nspaces ∧ s.spaces i = other
    by_cases same : other = cell
    · subst same
      rw [Function.update_self]
      refine iff_of_false colour ?_
      rintro ⟨i, low, high, again⟩
      have first := listed.distinct i which_space (by omega) high (Nat.le_refl _) more (again.trans here.symm)
      omega
    · rw [Function.update_of_ne same, listed.blank other]
      constructor
      · rintro ⟨i, low, high, at_⟩
        have later : i ≠ which_space := by
          rintro rfl
          exact same (at_.symm.trans here)
        exact ⟨i, by omega, high, at_⟩
      · rintro ⟨i, low, high, at_⟩
        exact ⟨i, by omega, high, at_⟩
  · intro i j low high low' high'
    exact listed.distinct i j (by omega) high (by omega) high'

theorem Chosen.emptied (chosen : Chosen which_space cell s)
    (reordered : Reordered (which_space + 1) (s.setCell cell guess) t) :
    t.board cell = guess ∧ Chosen which_space cell (t.setCell cell 0) ∧ Reordered which_space s (t.setCell cell 0) := by
  have none := chosen.blank
  obtain ⟨listed, more, here⟩ := chosen
  obtain ⟨board, nspaces, order, fixes, spaces⟩ := reordered
  have same : Reordered which_space s (t.setCell cell 0) := by
    refine ⟨?_, nspaces, order, fun i outside => fixes i (by simp only [Globals.setCell]; omega), spaces⟩
    show Function.update t.board cell 0 = s.board
    rw [board, ← none]
    simp [Globals.setCell]
  refine ⟨by rw [board]; exact Function.update_self .., ⟨listed.reordered same, nspaces ▸ more, ?_⟩, same⟩
  show t.spaces which_space = cell
  rw [spaces, Function.comp_apply, fixes which_space (Or.inl (Nat.lt_succ_self _))]
  exact here

theorem mem_guesses : ∀ guess : Value, guess ∈ guesses ↔ guess ≠ 0 := by
  decide

theorem available_iff : available guess cell s = true ↔ Free Adjacent s.board cell guess := by
  simp [available, Free, mem_neighbors]

end chosen

/-! Both searches decide whether the blank cells can be filled. -/

/-- A search is lawful whatever it does to the order of the spaces before it reads the next one. -/
theorem solver_lawful (find : Nat → Globals → Option Globals)
    (finds : ∀ which_space s, Listed which_space s → which_space < s.nspaces →
      ∃ t, find which_space s = some t ∧ Reordered which_space s t) :
    Lawful (solver find) Listed Chosen Reordered (fun s b => Completes Adjacent 0 s.board b)
      (fun cell guess b => b cell = guess) Globals.board (fun which_space s => s.nspaces - which_space) where
  refl := Reordered.refl
  trans _ _ _ _ := Reordered.trans
  solves _ s t b same := by
    rw [same.1]
  length _ s t same := by
    rw [same.2.1]
  ends which_space s listed finished := by
    have past : s.nspaces ≤ which_space := of_decide_eq_true finished
    refine (Completes.full fun cell none => ?_).mpr rfl
    obtain ⟨i, low, high, _⟩ := (listed.blank cell).mp none
    omega
  picks which_space s listed unfinished := by
    have more : which_space < s.nspaces := Nat.lt_of_not_le (of_decide_eq_false unfinished)
    obtain ⟨t, found, same⟩ := finds which_space s listed more
    have listed' := listed.reordered same
    have more' : which_space < t.nspaces := same.2.1 ▸ more
    refine ⟨t.spaces which_space, t, ?_, ⟨listed', more', rfl⟩, same⟩
    simp [solver, found, listed'.space_eq more']
  covers which_space cell s b chosen completes :=
    ⟨b cell, (mem_guesses _).mpr (completes.filled cell chosen.blank), rfl⟩
  blocks which_space cell s guess b chosen _ taken completes takes := by
    have free : Free Adjacent s.board cell guess := takes ▸ completes.free chosen.blank
    have blocked : available guess cell s = false := taken
    rw [available_iff.mpr free] at blocked
    exact absurd blocked (by decide)
  holds which_space cell s guess chosen member free := by
    have colour := (mem_guesses guess).mp member
    have more := chosen.2.1
    refine ⟨(), s.setCell cell guess, if_pos chosen.blank, chosen.filled colour, ?_, fun b => ?_, fun t same => ?_⟩
    · show s.nspaces - (which_space + 1) < s.nspaces - which_space
      omega
    · exact Completes.update adjacent_symmetric adjacent_irreflexive chosen.blank colour (available_iff.mp free)
    · obtain ⟨held, chosen', same'⟩ := chosen.emptied same
      exact ⟨t.setCell cell 0, if_pos held, chosen', same'⟩

section arity
variable {s : Globals} {which_space : Nat}

theorem minSpace_spec (arity : Cell → Int) (listed : Listed which_space s) (left sp min_space : Nat)
    (rest : left = s.nspaces - sp) (from_ : which_space ≤ sp) (here : which_space ≤ min_space ∧ min_space < s.nspaces)
    (least : ∀ i, which_space ≤ i → i < sp → arity (s.spaces min_space) ≤ arity (s.spaces i)) :
    ∃ m, minSpace arity s left sp min_space (arity (s.spaces min_space)) = some m ∧
      (which_space ≤ m ∧ m < s.nspaces) ∧
      (arity (s.spaces m) ≤ 1 ∨ ∀ i, which_space ≤ i → i < s.nspaces → arity (s.spaces m) ≤ arity (s.spaces i)) := by
  induction left generalizing sp min_space with
  | zero =>
    refine ⟨min_space, rfl, here, Or.inr fun i low high => least i low ?_⟩
    omega
  | succ left ih =>
    rw [minSpace]
    split
    · next many =>
      have inside : sp < s.nspaces := by omega
      rw [listed.space_eq inside, Option.bind_some]
      have before : ∀ i, i < sp + 1 → i < sp ∨ i = sp := fun i less => by omega
      split
      · next smaller =>
        refine ih (sp + 1) sp (by omega) (by omega) ⟨from_, inside⟩ fun i low less => ?_
        rcases before i less with earlier | rfl
        · exact smaller.le.trans (least i low earlier)
        · exact le_refl _
      · next larger =>
        refine ih (sp + 1) min_space (by omega) (by omega) here fun i low less => ?_
        rcases before i less with earlier | rfl
        · exact least i low earlier
        · exact not_lt.mp larger
    · next few => exact ⟨min_space, rfl, here, Or.inl (not_lt.mp few)⟩

theorem Globals.swapSpaces_eq (s : Globals) (i j : Nat) : (s.swapSpaces i j).spaces = s.spaces ∘ Equiv.swap i j := by
  funext k
  rw [Function.comp_apply, Equiv.swap_apply_def]
  simp only [Globals.swapSpaces, Function.update_apply]
  split
  · next same =>
    split
    · next same' => rw [← same, same']
    · rfl
  · split <;> rfl

theorem findMinArity_spec (arity : Cell → Int) (listed : Listed which_space s) (more : which_space < s.nspaces) :
    ∃ t, findMinArity arity which_space s = some t ∧ Reordered which_space s t ∧
      (arity (t.spaces which_space) ≤ 1 ∨
        ∀ cell, s.board cell = 0 → arity (t.spaces which_space) ≤ arity cell) := by
  obtain ⟨m, ran, inside, least⟩ := minSpace_spec arity listed _ (which_space + 1) which_space rfl
    (Nat.le_succ _) ⟨Nat.le_refl _, more⟩ fun i low less => by
      obtain rfl : i = which_space := by omega
      exact le_refl _
  have best : arity (s.spaces m) ≤ 1 ∨ ∀ cell, s.board cell = 0 → arity (s.spaces m) ≤ arity cell := by
    refine least.imp_right fun least cell none => ?_
    obtain ⟨i, low, high, rfl⟩ := (listed.blank cell).mp none
    exact least i low high
  simp only [findMinArity, listed.space_eq more, Option.bind_eq_bind, Option.bind_some, ran]
  split
  · next other =>
    have first : (s.swapSpaces m which_space).spaces which_space = s.spaces m := Function.update_self ..
    refine ⟨s.swapSpaces m which_space, rfl, ⟨rfl, rfl, Equiv.swap m which_space, fun i outside => ?_, ?_⟩, ?_⟩
    · refine Equiv.swap_apply_of_ne_of_ne ?_ ?_ <;> omega
    · exact s.swapSpaces_eq m which_space
    · rw [first]
      exact best
  · next same =>
    have same : which_space = m := not_not.mp same
    exact ⟨s, rfl, Reordered.refl _ s, same ▸ best⟩

end arity

theorem basic_finds (which_space : Nat) (s : Globals) (_ : Listed which_space s) (_ : which_space < s.nspaces) :
    ∃ t, some s = some t ∧ Reordered which_space s t :=
  ⟨s, rfl, Reordered.refl which_space s⟩

theorem min_arity_finds (which_space : Nat) (s : Globals) (listed : Listed which_space s)
    (more : which_space < s.nspaces) :
    ∃ t, MinArity.find_min_arity which_space s = some t ∧ Reordered which_space s t := by
  obtain ⟨t, found, same, _⟩ := findMinArity_spec (MinArity.arity s) listed more
  exact ⟨t, found, same⟩

/-- What a search has found out about the board it started with. -/
structure Decided (s : Globals) (found : Bool) (t : Globals) : Prop where
  completes : found = true → Completes Adjacent 0 s.board t.board
  impossible : found = false → ∀ b, ¬ Completes Adjacent 0 s.board b
  restored : found = false → Reordered 0 s t

theorem solver_decides {find : Nat → Globals → Option Globals} {s : Globals} {fuel : Nat}
    (finds : ∀ which_space s, Listed which_space s → which_space < s.nspaces →
      ∃ t, find which_space s = some t ∧ Reordered which_space s t)
    (listed : Listed 0 s) (deep : 81 < fuel) :
    ∃ found t, (solver find).search fuel 0 s = some (found, t) ∧ Decided s found t := by
  have enough : s.nspaces - 0 < fuel := (Nat.sub_le ..).trans_lt (listed.bounded.trans_lt deep)
  obtain ⟨found, t, ran, won, lost⟩ := (solver_lawful find finds).decides listed enough
  exact ⟨found, t, ran, won, fun no => (lost no).1, fun no => (lost no).2⟩

/-- On every line of digits both solvers return. They succeed when the blanks can be filled so that none of
them equals a neighbour, and then the board is filled so; else it is as it was. -/
theorem backtracking_decides (puzzle : List Int8) (memory : Globals) (fuel : Nat) (long : 81 ≤ puzzle.length)
    (digits : Digits puzzle) (deep : 81 < fuel) :
    ∃ s, input puzzle memory = some s ∧ (∀ cell, (s.board cell).val = givenAt puzzle cell) ∧
      (∃ found t, solve_sudoku_basic fuel 0 s = some (found, t) ∧ Decided s found t) ∧
      ∃ found t, solve_sudoku_min_arity fuel 0 s = some (found, t) ∧ Decided s found t := by
  obtain ⟨s, read, given, listed⟩ := input_digits long digits memory
  exact ⟨s, read, given, solver_decides basic_finds listed deep, solver_decides min_arity_finds listed deep⟩

def zeros : List Int8 := List.replicate 81 48

theorem digits_zeros : Digits zeros := by
  unfold Digits
  decide

def untouched : Globals := ⟨fun _ => 0, fun _ => 0, 0⟩

theorem backtracking_decides_zeros :
    ∃ s, input zeros untouched = some s ∧ (∀ cell, (s.board cell).val = givenAt zeros cell) ∧
      (∃ found t, solve_sudoku_basic 82 0 s = some (found, t) ∧ Decided s found t) ∧
      ∃ found t, solve_sudoku_min_arity 82 0 s = some (found, t) ∧ Decided s found t :=
  backtracking_decides zeros untouched 82 (by decide) digits_zeros (by decide)

end CloudLab.TearcherCode
