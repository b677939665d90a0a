import CloudLab.TearcherCode.Solvers

/-! The solver that keeps the occupied values and the number of choices of every cell up to date
instead of counting them again. It follows the one that counts. -/

namespace CloudLab.TearcherCode
open Backtracking Colouring

structure Cached extends Globals where
  occupied : Cell → Value → Bool
  arity : Cell → Int

namespace Cached

def setCell (t : Cached) (cell : Cell) (val : Value) : Cached := { t with toGlobals := t.toGlobals.setCell cell val }

def setOccupied (t : Cached) (cell : Cell) (val : Value) (taken : Bool) : Cached :=
  { t with occupied := Function.update t.occupied cell (Function.update (t.occupied cell) val taken) }

def setArity (t : Cached) (cell : Cell) (n : Int) : Cached := { t with arity := Function.update t.arity cell n }

end Cached

/-- `occupied[neighbor][val] = true; --arity[neighbor]`, unless the value is taken there already. -/
def occupy (val : Value) (t : Cached) (neighbor : Cell) : Cached :=
  if t.occupied neighbor val then t
  else (t.setOccupied neighbor val true).setArity neighbor (t.arity neighbor - 1)

def cacheCell (t : Cached) (cell : Cell) : Cached :=
  let t := t.setOccupied cell 0 true
  let val := t.board cell
  if val > 0 then (neighbors cell).foldl (occupy val) (t.setOccupied cell val true) else t

def init_cache (t : Cached) : Cached :=
  (List.finRange 81).foldl cacheCell { t with occupied := fun _ _ => false, arity := fun _ => 9 }

namespace MinArityCache

def holdNeighbor (guess : Value) (held : List Cell × Cached) (neighbor : Cell) : Option (List Cell × Cached) :=
  if held.2.occupied neighbor guess then some held
  else if held.1.length < NEIGHBOR then some (held.1 ++ [neighbor], occupy guess held.2 neighbor)
  else none

def hold (cell : Cell) (guess : Value) (t : Cached) : Option (List Cell × Cached) :=
  if t.board cell = 0 then
    (neighbors cell).foldlM (holdNeighbor guess) ([], (t.setCell cell guess).setOccupied cell guess true)
  else none

def release (guess : Value) (t : Cached) (neighbor : Cell) : Option Cached :=
  if t.occupied neighbor guess then
    some ((t.setOccupied neighbor guess false).setArity neighbor (t.arity neighbor + 1))
  else none

def unhold (cell : Cell) (guess : Value) (modified : List Cell) (t : Cached) : Option Cached :=
  let t := t.setOccupied cell guess false
  if t.board cell = guess then modified.foldlM (release guess) (t.setCell cell 0) else none

def find_min_arity (space : Nat) (t : Cached) : Option Cached :=
  (findMinArity t.arity space t.toGlobals).map fun s => { t with toGlobals := s }

def solver : Machine Cached Cell Value (List Cell) where
  finished which_space t := which_space ≥ t.nspaces
  pick which_space t := (find_min_arity which_space t).bind fun t => (t.space which_space).map fun cell => (cell, t)
  moves cell :=
    { free := fun guess t => !t.occupied cell guess
      hold := hold cell
      unhold := unhold cell }
  guesses := guesses

end MinArityCache

def solve_sudoku_min_arity_cache (fuel which_space : Nat) (t : Cached) : Option (Bool × Cached) :=
  MinArityCache.solver.search fuel which_space t

/-! What the loops over the neighbours do. -/

def occupyAll (val : Value) (cells : List Cell) (t : Cached) : Cached :=
  { t with
    occupied := fun c v => t.occupied c v || decide (c ∈ cells ∧ v = val)
    arity := fun c => if c ∈ cells ∧ t.occupied c val = false then t.arity c - 1 else t.arity c }

def releaseAll (val : Value) (cells : List Cell) (t : Cached) : Cached :=
  { t with
    occupied := fun c v => t.occupied c v && !decide (c ∈ cells ∧ v = val)
    arity := fun c => if c ∈ cells then t.arity c + 1 else t.arity c }

section loops
variable {val : Value} {cells : List Cell} {cell : Cell}

theorem Cached.ext_parts {t u : Cached} (globals : t.toGlobals = u.toGlobals)
    (occupied : ∀ c v, t.occupied c v = u.occupied c v) (arity : ∀ c, t.arity c = u.arity c) : t = u := by
  cases t
  cases u
  congr 1
  · exact funext fun c => funext (occupied c)
  · exact funext arity

theorem setOccupied_apply (t : Cached) (cell c : Cell) (val v : Value) (taken : Bool) :
    (t.setOccupied cell val taken).occupied c v = if c = cell ∧ v = val then taken else t.occupied c v := by
  simp only [Cached.setOccupied, Function.update_apply]
  by_cases here : c = cell
  · subst here
    simp [Function.update_apply]
  · simp [here]

theorem occupy_eq (t : Cached) : occupy val t cell = occupyAll val [cell] t := by
  rw [occupy]
  split
  · next taken =>
    refine Cached.ext_parts rfl (fun c v => ?_) fun c => ?_
    · simp only [occupyAll, List.mem_singleton]
      by_cases here : c = cell ∧ v = val
      · rw [here.1, here.2, taken]
        rfl
      · simp [here]
    · refine (if_neg fun here => ?_).symm
      rw [List.mem_singleton.mp here.1, taken] at here
      exact absurd here.2 (by decide)
  · next free =>
    have free : t.occupied cell val = false := by simpa using free
    refine Cached.ext_parts rfl (fun c v => ?_) fun c => ?_
    · show (t.setOccupied cell val true).occupied c v = _
      rw [setOccupied_apply, occupyAll]
      by_cases here : c = cell ∧ v = val <;> simp [here]
    · simp only [Cached.setArity, occupyAll, List.mem_singleton, Function.update_apply]
      by_cases here : c = cell
      · rw [here, if_pos rfl, if_pos ⟨rfl, free⟩]
      · rw [if_neg here, if_neg fun both => here both.1]
        rfl

theorem occupyAll_cons (t : Cached) (new : cell ∉ cells) :
    occupyAll val cells (occupyAll val [cell] t) = occupyAll val (cell :: cells) t := by
  refine Cached.ext_parts rfl (fun c v => ?_) fun c => ?_
  · rw [Bool.eq_iff_iff]
    simp only [occupyAll, List.mem_cons, Bool.or_eq_true, decide_eq_true_eq]
    tauto
  · simp only [occupyAll, List.mem_cons]
    by_cases here : c = cell
    · subst here
      simp [new]
    · simp [here]

theorem occupy_loop (distinct : cells.Nodup) (t : Cached) : cells.foldl (occupy val) t = occupyAll val cells t := by
  induction cells generalizing t with
  | nil => exact Cached.ext_parts rfl (fun c v => by simp [occupyAll]) fun c => by simp [occupyAll]
  | cons cell cells ih =>
    obtain ⟨new, distinct⟩ := List.nodup_cons.mp distinct
    rw [List.foldl_cons, ih distinct, occupy_eq, occupyAll_cons t new]

theorem holdNeighbor_loop (distinct : cells.Nodup) (modified : List Cell) (t : Cached)
    (room : modified.length + cells.length ≤ NEIGHBOR) :
    cells.foldlM (MinArityCache.holdNeighbor val) (modified, t) =
      some (modified ++ cells.filter (fun c => !t.occupied c val), occupyAll val cells t) := by
  induction cells generalizing modified t with
  | nil =>
    have same : occupyAll val [] t = t := (occupy_loop List.nodup_nil t).symm
    rw [same]
    simp
  | cons cell cells ih =>
    obtain ⟨new, distinct⟩ := List.nodup_cons.mp distinct
    rw [List.length_cons] at room
    have later : cells.filter (fun c => !(occupyAll val [cell] t).occupied c val) =
        cells.filter fun c => !t.occupied c val := by
      refine List.filter_congr fun c member => ?_
      have other : c ≠ cell := fun same => new (same ▸ member)
      simp [occupyAll, other]
    rw [List.foldlM_cons, MinArityCache.holdNeighbor, occupy_eq]
    by_cases taken : t.occupied cell val = true
    · have same : occupyAll val [cell] t = t := by rw [← occupy_eq, occupy, if_pos taken]
      rw [if_pos taken]
      change List.foldlM _ (modified, t) cells = _
      rw [ih distinct modified t (by omega), ← occupyAll_cons t new, same]
      simp [taken]
    · rw [if_neg taken, if_pos (by show modified.length < NEIGHBOR; omega)]
      change List.foldlM _ (modified ++ [cell], occupyAll val [cell] t) cells = _
      rw [ih distinct _ _ (by rw [List.length_append, List.length_singleton]; omega), later, occupyAll_cons t new]
      simp [taken]

theorem release_loop (distinct : cells.Nodup) (t : Cached) (taken : ∀ c ∈ cells, t.occupied c val = true) :
    cells.foldlM (MinArityCache.release val) t = some (releaseAll val cells t) := by
  induction cells generalizing t with
  | nil => exact congrArg some (Cached.ext_parts rfl (fun c v => by simp [releaseAll]) fun c => by simp [releaseAll])
  | cons cell cells ih =>
    obtain ⟨new, distinct⟩ := List.nodup_cons.mp distinct
    have first : MinArityCache.release val t cell = some (releaseAll val [cell] t) := by
      rw [MinArityCache.release, if_pos (taken cell List.mem_cons_self)]
      refine congrArg some (Cached.ext_parts rfl (fun c v => ?_) fun c => ?_)
      · show (t.setOccupied cell val false).occupied c v = _
        rw [setOccupied_apply, releaseAll]
        by_cases here : c = cell ∧ v = val <;> simp [here]
      · simp only [Cached.setArity, releaseAll, List.mem_singleton, Function.update_apply]
        by_cases here : c = cell
        · rw [if_pos here, if_pos here, here]
        · rw [if_neg here, if_neg here]
          rfl
    have still : ∀ c ∈ cells, (releaseAll val [cell] t).occupied c val = true := by
      intro c member
      have other : c ≠ cell := fun same => new (same ▸ member)
      simp [releaseAll, other, taken c (List.mem_cons_of_mem _ member)]
    rw [List.foldlM_cons, first]
    change List.foldlM _ (releaseAll val [cell] t) cells = _
    rw [ih distinct _ still]
    refine congrArg some (Cached.ext_parts rfl (fun c v => ?_) fun c => ?_)
    · rw [Bool.eq_iff_iff]
      simp only [releaseAll, List.mem_cons, Bool.and_eq_true, Bool.not_eq_true', decide_eq_false_iff_not]
      tauto
    · simp only [releaseAll, List.mem_cons]
      by_cases here : c = cell
      · subst here
        simp [new]
      · simp [here]

end loops

/-! What the caches hold of a blank cell. -/

/-- The array counts the values that are not occupied. -/
def Balanced (t : Cached) (cell : Cell) : Prop := t.arity cell = guesses.countP fun v => !t.occupied cell v

/-- The caches are right for the blank cells. -/
structure Counted (t : Cached) : Prop where
  occupied : ∀ cell v, t.board cell = 0 → v ≠ 0 → (t.occupied cell v = true ↔ ¬ Free Adjacent t.board cell v)
  balanced : ∀ cell, t.board cell = 0 → Balanced t cell

section counts
variable {t u : Cached} {cell c : Cell} {cells : List Cell} {guess val : Value}

theorem nodup_guesses : guesses.Nodup := by
  decide

theorem countP_but {l : List Value} (distinct : l.Nodup) (member : val ∈ l) (p : Value → Bool) (counted : p val = true) :
    l.countP (fun v => p v && !decide (v = val)) + 1 = l.countP p := by
  have inside : val ∈ l.filter p := List.mem_filter.mpr ⟨member, counted⟩
  have without : l.filter (fun v => p v && !decide (v = val)) = (l.filter p).erase val := by
    rw [(distinct.filter p).erase_eq_filter, List.filter_filter]
    refine List.filter_congr fun v _ => ?_
    by_cases here : v = val <;> simp [here]
  rw [List.countP_eq_length_filter, List.countP_eq_length_filter, without, List.length_erase_of_mem inside]
  have some : 0 < (l.filter p).length := List.length_pos_of_mem inside
  omega

theorem Balanced.occupyAll (balanced : Balanced t cell) (colour : val ≠ 0) :
    Balanced (occupyAll val cells t) cell := by
  have member := (mem_guesses val).mpr colour
  rw [Balanced] at balanced ⊢
  simp only [TearcherCode.occupyAll, balanced]
  by_cases fresh : cell ∈ cells ∧ t.occupied cell val = false
  · have fewer := countP_but nodup_guesses member (fun v => !t.occupied cell v) (by simp [fresh.2])
    have same : guesses.countP (fun v => !(t.occupied cell v || decide (cell ∈ cells ∧ v = val))) =
        guesses.countP fun v => !t.occupied cell v && !decide (v = val) := by
      refine List.countP_congr fun v _ => ?_
      simp [fresh.1]
    rw [if_pos fresh, same]
    omega
  · have same : guesses.countP (fun v => !(t.occupied cell v || decide (cell ∈ cells ∧ v = val))) =
        guesses.countP fun v => !t.occupied cell v := by
      refine List.countP_congr fun v _ => ?_
      by_cases here : cell ∈ cells ∧ v = val
      · obtain ⟨inside, rfl⟩ := here
        have taken : t.occupied cell v = true := by simpa [inside] using fresh
        simp [taken]
      · simp [here]
    rw [if_neg fresh, same]

theorem Balanced.setOccupied (balanced : Balanced t cell) (other : cell ≠ c ∨ val = 0) (taken : Bool) :
    Balanced (t.setOccupied c val taken) cell := by
  have same : guesses.countP (fun v => !(t.setOccupied c val taken).occupied cell v) =
      guesses.countP fun v => !t.occupied cell v := by
    refine List.countP_congr fun v member => ?_
    have apart : ¬ (cell = c ∧ v = val) := by
      rintro ⟨here, rfl⟩
      exact other.elim (fun away => away here) ((mem_guesses v).mp member)
    rw [setOccupied_apply, if_neg apart]
  exact balanced.trans (congrArg Int.ofNat same).symm

theorem arity_eq (s : Globals) (cell : Cell) :
    MinArity.arity s cell = guesses.countP fun v => available v cell s := by
  have occupied : ∀ (cells : List Cell) (start : Value → Bool) (v : Value),
      cells.foldl (fun occupied neighbor => Function.update occupied (s.board neighbor) true) start v =
        (start v || !cells.all fun neighbor => s.board neighbor ≠ v) := by
    intro cells
    induction cells with
    | nil => simp
    | cons c cells ih =>
      intro start v
      rw [List.foldl_cons, ih, List.all_cons, Function.update_apply]
      by_cases here : v = s.board c
      · simp [here]
      · simp [here, Ne.symm here]
  rw [MinArity.arity]
  refine congrArg Int.ofNat (List.countP_congr fun v _ => ?_)
  rw [occupied, available]
  simp

theorem Counted.arity_eq (counted : Counted t) (none : t.board cell = 0) :
    t.arity cell = MinArity.arity t.toGlobals cell := by
  rw [counted.balanced cell none, TearcherCode.arity_eq]
  refine congrArg Int.ofNat (List.countP_congr fun v member => ?_)
  have taken := counted.occupied cell v none ((mem_guesses v).mp member)
  rw [available_iff]
  cases occupied : t.occupied cell v with
  | true => simpa using taken.mp occupied
  | false =>
    have free : Free Adjacent t.board cell v := by
      by_contra blocked
      rw [taken.mpr blocked] at occupied
      exact absurd occupied (by decide)
    simpa using free

theorem Counted.free_eq (counted : Counted t) (none : t.board cell = 0) (colour : guess ≠ 0) :
    (!t.occupied cell guess) = available guess cell t.toGlobals := by
  rw [Bool.eq_iff_iff, available_iff, Bool.not_eq_true', ← Bool.not_eq_true, counted.occupied cell guess none colour]
  exact not_not

end counts

end CloudLab.TearcherCode
