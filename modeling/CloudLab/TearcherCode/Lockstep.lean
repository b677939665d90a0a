import CloudLab.TearcherCode.Cache

/-! The solver with the caches makes the same choices as the one without them. -/

namespace CloudLab.TearcherCode
open Backtracking Colouring

def held (cell : Cell) (guess : Value) (t : Cached) : Cached :=
  occupyAll guess (neighbors cell) ((t.setCell cell guess).setOccupied cell guess true)

def modified (cell : Cell) (guess : Value) (t : Cached) : List Cell :=
  (neighbors cell).filter fun c => !t.occupied c guess

section hold
variable {t u : Cached} {cell : Cell} {guess : Value}

theorem held_occupied (t : Cached) (cell c : Cell) (guess v : Value) : (held cell guess t).occupied c v =
    ((decide (c = cell ∧ v = guess) || t.occupied c v) || decide (Adjacent cell c ∧ v = guess)) := by
  have first : ((t.setCell cell guess).setOccupied cell guess true).occupied c v =
      (decide (c = cell ∧ v = guess) || t.occupied c v) := by
    rw [setOccupied_apply]
    by_cases here : c = cell ∧ v = guess <;> simp [here, Cached.setCell]
  simp only [held, occupyAll, first, mem_neighbors]

theorem held_arity (t : Cached) (cell c : Cell) (guess : Value) : (held cell guess t).arity c =
    if Adjacent cell c ∧ t.occupied c guess = false then t.arity c - 1 else t.arity c := by
  have first : ∀ c, Adjacent cell c →
      ((t.setCell cell guess).setOccupied cell guess true).occupied c guess = t.occupied c guess := by
    intro c near
    rw [setOccupied_apply, if_neg fun here => near.1 here.1.symm]
    rfl
  have same : (Adjacent cell c ∧ ((t.setCell cell guess).setOccupied cell guess true).occupied c guess = false) ↔
      (Adjacent cell c ∧ t.occupied c guess = false) := and_congr_right fun near => by rw [first c near]
  simp only [held, occupyAll, mem_neighbors, same]
  rfl

theorem hold_eq (none : t.board cell = 0) :
    MinArityCache.hold cell guess t = some (modified cell guess t, held cell guess t) := by
  have same : (neighbors cell).filter
      (fun c => !((t.setCell cell guess).setOccupied cell guess true).occupied c guess) = modified cell guess t := by
    refine List.filter_congr fun c member => ?_
    rw [setOccupied_apply, if_neg fun here => (mem_neighbors.mp member).1 here.1.symm]
    rfl
  have room : ([] : List Cell).length + (neighbors cell).length ≤ NEIGHBOR := by
    rw [length_neighbors, List.length_nil, Nat.zero_add]
  rw [MinArityCache.hold, if_pos none, holdNeighbor_loop (nodup_neighbors cell) _ _ room, same]
  rfl

theorem mem_modified {c : Cell} : c ∈ modified cell guess t ↔ Adjacent cell c ∧ t.occupied c guess = false := by
  simp [modified, mem_neighbors]

theorem unhold_eq (free : t.occupied cell guess = false) (filled : u.board cell = guess)
    (occupied : u.occupied = (held cell guess t).occupied) (arity : u.arity = (held cell guess t).arity) :
    ∃ v, MinArityCache.unhold cell guess (modified cell guess t) u = some v ∧
      v.toGlobals = u.toGlobals.setCell cell 0 ∧ v.occupied = t.occupied ∧ v.arity = t.arity := by
  have apart : cell ∉ modified cell guess t := fun member => adjacent_irreflexive cell (mem_modified.mp member).1
  have taken : ∀ c ∈ modified cell guess t,
      ((u.setOccupied cell guess false).setCell cell 0).occupied c guess = true := by
    intro c member
    have other : c ≠ cell := fun same => apart (same ▸ member)
    show (u.setOccupied cell guess false).occupied c guess = true
    rw [setOccupied_apply, if_neg fun here => other here.1, occupied, held_occupied]
    simp [(mem_modified.mp member).1]
  have distinct : (modified cell guess t).Nodup := (nodup_neighbors cell).filter _
  refine ⟨releaseAll guess (modified cell guess t) ((u.setOccupied cell guess false).setCell cell 0), ?_, rfl, ?_, ?_⟩
  · rw [MinArityCache.unhold]
    exact (if_pos filled).trans (release_loop distinct _ taken)
  · funext c v
    show ((u.setOccupied cell guess false).occupied c v && !decide (c ∈ modified cell guess t ∧ v = guess)) =
      t.occupied c v
    rw [setOccupied_apply, occupied, held_occupied]
    simp only [mem_modified]
    by_cases value : v = guess
    · subst value
      by_cases here : c = cell
      · subst here
        simp [free]
      · cases t.occupied c v <;> simp [here]
    · simp [value]
  · funext c
    show (if c ∈ modified cell guess t then u.arity c + 1 else u.arity c) = t.arity c
    rw [arity, held_arity]
    by_cases changed : Adjacent cell c ∧ t.occupied c guess = false
    · rw [if_pos (mem_modified.mpr changed), if_pos changed, Int.sub_add_cancel]
    · rw [if_neg fun member => changed (mem_modified.mp member), if_neg changed]

theorem counted_held (counted : Counted t) (blank : t.board cell = 0) (colour : guess ≠ 0) : Counted (held cell guess t) := by
  have rest : ∀ c, (held cell guess t).board c = 0 → c ≠ cell ∧ t.board c = 0 := by
    intro c none
    have none : Function.update t.board cell guess c = 0 := none
    have other : c ≠ cell := by
      rintro rfl
      rw [Function.update_self] at none
      exact colour none
    rw [Function.update_of_ne other] at none
    exact ⟨other, none⟩
  constructor
  · intro c v none value
    obtain ⟨other, none'⟩ := rest c none
    have before := counted.occupied c v none' value
    show _ ↔ ¬ Free Adjacent (Function.update t.board cell guess) c v
    have now : (held cell guess t).occupied c v = true ↔
        t.occupied c v = true ∨ Adjacent cell c ∧ v = guess := by
      simp [held_occupied, other]
    rw [now, before]
    constructor
    · rintro (blocked | ⟨near, rfl⟩) free
      · refine blocked fun y next same => free y next ?_
        have filled : y ≠ cell := by
          rintro rfl
          exact value (same.symm.trans blank)
        rw [Function.update_of_ne filled, same]
      · exact free cell (adjacent_symmetric cell c near) (Function.update_self ..)
    · intro blocked
      by_contra free
      obtain ⟨open_, far⟩ := not_or.mp free
      refine blocked fun y next same => ?_
      by_cases here : y = cell
      · rw [here, Function.update_self] at same
        exact far ⟨adjacent_symmetric c cell (here ▸ next), same.symm⟩
      · rw [Function.update_of_ne here] at same
        exact not_not.mp open_ y next same
  · intro c none
    obtain ⟨other, none'⟩ := rest c none
    have before : Balanced (t.setCell cell guess) c := counted.balanced c none'
    exact (before.setOccupied (Or.inl other) true).occupyAll colour

end hold

/-! `init_cache` fills the caches. -/

def CountedFor (cells : List Cell) (t : Cached) : Prop := ∀ c, t.board c = 0 →
  (∀ v, v ≠ 0 → (t.occupied c v = true ↔ ∃ y ∈ cells, Adjacent c y ∧ t.board y = v)) ∧ Balanced t c

section init
variable {t : Cached} {cells : List Cell}

theorem cacheCell_eq (t : Cached) (cell : Cell) : cacheCell t cell =
    if t.board cell = 0 then t.setOccupied cell 0 true
    else occupyAll (t.board cell) (neighbors cell)
      ((t.setOccupied cell 0 true).setOccupied cell (t.board cell) true) := by
  have same : (t.setOccupied cell 0 true).board cell = t.board cell := rfl
  rw [cacheCell, same, occupy_loop (nodup_neighbors cell)]
  by_cases none : t.board cell = 0
  · rw [if_pos none, if_neg fun more => ?_]
    rw [none] at more
    exact absurd more (lt_irrefl _)
  · rw [if_neg none, if_pos (Fin.pos_iff_ne_zero.mpr none)]

theorem CountedFor.step (counted : CountedFor cells t) (cell : Cell) : CountedFor (cells ++ [cell]) (cacheCell t cell) := by
  rw [cacheCell_eq]
  by_cases none : t.board cell = 0
  · rw [if_pos none]
    intro c blank
    obtain ⟨occupied, balanced⟩ := counted c blank
    refine ⟨fun v value => ?_, balanced.setOccupied (Or.inr rfl) true⟩
    rw [setOccupied_apply, if_neg fun here => value here.2, occupied v value]
    constructor
    · rintro ⟨y, member, near⟩
      exact ⟨y, List.mem_append_left _ member, near⟩
    · rintro ⟨y, member, near, same⟩
      rcases List.mem_append.mp member with before | last
      · exact ⟨y, before, near, same⟩
      · rw [List.mem_singleton.mp last] at same
        exact absurd (same.symm.trans none) value
  · rw [if_neg none]
    intro c blank
    obtain ⟨occupied, balanced⟩ := counted c blank
    have other : c ≠ cell := fun same => none (same ▸ blank)
    refine ⟨fun v value => ?_, ?_⟩
    · have before : ((t.setOccupied cell 0 true).setOccupied cell (t.board cell) true).occupied c v =
          t.occupied c v := by
        rw [setOccupied_apply, if_neg fun here => other here.1, setOccupied_apply, if_neg fun here => other here.1]
      simp only [occupyAll, before, Bool.or_eq_true, decide_eq_true_eq, occupied v value, mem_neighbors]
      constructor
      · rintro (⟨y, member, near⟩ | ⟨near, rfl⟩)
        · exact ⟨y, List.mem_append_left _ member, near⟩
        · exact ⟨cell, by simp, adjacent_symmetric cell c near, rfl⟩
      · rintro ⟨y, member, near, same⟩
        rcases List.mem_append.mp member with before | last
        · exact Or.inl ⟨y, before, near, same⟩
        · rw [List.mem_singleton.mp last] at near same
          exact Or.inr ⟨adjacent_symmetric c cell near, same.symm⟩
    · exact ((balanced.setOccupied (Or.inl other) true).setOccupied (Or.inl other) true).occupyAll none

theorem cacheCell_globals (t : Cached) (cell : Cell) : (cacheCell t cell).toGlobals = t.toGlobals := by
  rw [cacheCell_eq]
  split <;> rfl

theorem cacheCells (counted : CountedFor cells t) (todo : List Cell) :
    CountedFor (cells ++ todo) (todo.foldl cacheCell t) ∧ (todo.foldl cacheCell t).toGlobals = t.toGlobals := by
  induction todo generalizing cells t with
  | nil =>
    rw [List.append_nil]
    exact ⟨counted, rfl⟩
  | cons cell todo ih =>
    obtain ⟨counted', globals⟩ := ih (counted.step cell)
    rw [List.append_assoc, List.singleton_append] at counted'
    exact ⟨counted', globals.trans (cacheCell_globals t cell)⟩

theorem init_cache_counted (t : Cached) : Counted (init_cache t) ∧ (init_cache t).toGlobals = t.toGlobals := by
  have start : CountedFor [] { t with occupied := fun _ _ => false, arity := fun _ => 9 } := by
    have nine : (9 : Int) = guesses.countP fun _ => !false := by simp [guesses]
    refine fun c _ => ⟨fun v _ => ?_, nine⟩
    simp
  rw [init_cache]
  obtain ⟨counted, globals⟩ := cacheCells start (List.finRange 81)
  generalize (List.finRange 81).foldl cacheCell _ = u at counted globals
  refine ⟨⟨fun c v none value => ?_, fun c none => (counted c none).2⟩, globals⟩
  rw [(counted c none).1 v value]
  simp only [List.nil_append, List.mem_finRange, true_and, Free, not_forall, not_not, exists_prop]

end init

/-! The two searches side by side. -/

theorem minSpace_congr {arity arity' : Cell → Int} {s : Globals} {which_space : Nat} (listed : Listed which_space s)
    (agree : ∀ cell, s.board cell = 0 → arity' cell = arity cell) (left sp min_space : Nat) (min_arity : Int)
    (rest : left = s.nspaces - sp) (from_ : which_space ≤ sp) :
    minSpace arity' s left sp min_space min_arity = minSpace arity s left sp min_space min_arity := by
  induction left generalizing sp min_space min_arity with
  | zero => rfl
  | succ left ih =>
    have inside : sp < s.nspaces := by omega
    have blank : s.board (s.spaces sp) = 0 := (listed.blank _).mpr ⟨sp, from_, inside, rfl⟩
    simp only [minSpace, listed.space_eq inside, Option.bind_some, agree _ blank]
    rw [ih (sp + 1) sp _ (by omega) (by omega), ih (sp + 1) min_space _ (by omega) (by omega)]

theorem findMinArity_congr {arity arity' : Cell → Int} {s : Globals} {which_space : Nat}
    (listed : Listed which_space s) (more : which_space < s.nspaces)
    (agree : ∀ cell, s.board cell = 0 → arity' cell = arity cell) :
    findMinArity arity' which_space s = findMinArity arity which_space s := by
  have blank : s.board (s.spaces which_space) = 0 := (listed.blank _).mpr ⟨which_space, Nat.le_refl _, more, rfl⟩
  simp only [findMinArity, listed.space_eq more, Option.bind_eq_bind, Option.bind_some, agree _ blank]
  rw [minSpace_congr listed agree _ _ _ _ rfl (Nat.le_succ _)]

theorem Counted.reordered {t u : Cached} {which_space : Nat} (counted : Counted t)
    (same : Reordered which_space t.toGlobals u.toGlobals) (occupied : u.occupied = t.occupied)
    (arity : u.arity = t.arity) : Counted u := by
  constructor
  · intro c v none value
    rw [same.1] at none ⊢
    rw [occupied]
    exact counted.occupied c v none value
  · intro c none
    rw [same.1] at none
    rw [Balanced, occupied, arity]
    exact counted.balanced c none

theorem cache_follows : Follows (solver MinArity.find_min_arity) MinArityCache.solver
    (fun which_space s t => t.toGlobals = s ∧ Counted t ∧ Listed which_space s)
    (fun which_space cell s t => t.toGlobals = s ∧ Counted t ∧ Chosen which_space cell s)
    (fun which_space s t s' t' => Reordered which_space s s' ∧ t'.occupied = t.occupied ∧ t'.arity = t.arity) where
  refl which_space s t := ⟨Reordered.refl which_space s, rfl, rfl⟩
  trans _ _ _ _ _ _ _ first second :=
    ⟨first.1.trans second.1, second.2.1.trans first.2.1, second.2.2.trans first.2.2⟩
  guesses := rfl
  finished which_space s t related := by
    rw [← related.1]
    rfl
  picks which_space s t cell s' related unfinished picked := by
    obtain ⟨rfl, counted, listed⟩ := related
    have more : which_space < t.nspaces := Nat.lt_of_not_le (of_decide_eq_false unfinished)
    obtain ⟨s₁, found, same, _⟩ := findMinArity_spec (MinArity.arity t.toGlobals) listed more
    have found' : findMinArity t.arity which_space t.toGlobals = some s₁ :=
      (findMinArity_congr listed more fun cell none => counted.arity_eq none).trans found
    have listed' := listed.reordered same
    have more' : which_space < s₁.nspaces := same.2.1 ▸ more
    have plain : (solver MinArity.find_min_arity).pick which_space t.toGlobals = some (s₁.spaces which_space, s₁) := by
      simp [solver, MinArity.find_min_arity, found, listed'.space_eq more']
    obtain ⟨rfl, rfl⟩ := Prod.mk.inj (Option.some.inj (plain.symm.trans picked))
    refine ⟨{ t with toGlobals := s₁ }, ?_, ⟨rfl, counted.reordered same rfl rfl, listed', more', rfl⟩, same, rfl, rfl⟩
    simp [MinArityCache.solver, MinArityCache.find_min_arity, found', listed'.space_eq more']
  rel which_space cell s t at_ := ⟨at_.1, at_.2.1, at_.2.2.1⟩
  free which_space cell s t guess at_ member := by
    obtain ⟨rfl, counted, chosen⟩ := at_
    exact counted.free_eq chosen.blank ((mem_guesses guess).mp member)
  holds which_space cell s t guess m s' at_ member free held_ := by
    obtain ⟨rfl, counted, chosen⟩ := at_
    have colour := (mem_guesses guess).mp member
    have unused : t.occupied cell guess = false := by
      have agree := (counted.free_eq chosen.blank colour).trans free
      simpa using agree
    have plain : hold cell guess t.toGlobals = some ((), t.toGlobals.setCell cell guess) := if_pos chosen.blank
    obtain ⟨_, rfl⟩ := Prod.mk.inj (Option.some.inj (plain.symm.trans held_))
    refine ⟨modified cell guess t, held cell guess t, hold_eq chosen.blank,
      ⟨rfl, counted_held counted chosen.blank colour, chosen.filled colour⟩, ?_⟩
    rintro s₂ t₂ s₃ ⟨rfl, _, _⟩ ⟨same, occupied, arity⟩ unheld
    obtain ⟨filled, chosen', same'⟩ := chosen.emptied same
    obtain ⟨t₃, unheld', globals, occupied', arity'⟩ := unhold_eq unused filled occupied arity
    have plain' : unhold cell guess t₂.toGlobals = some (t₂.toGlobals.setCell cell 0) := if_pos filled
    obtain rfl := Option.some.inj (plain'.symm.trans unheld)
    have back : Reordered which_space t.toGlobals t₃.toGlobals := by
      rw [globals]
      exact same'
    exact ⟨t₃, unheld', ⟨globals, counted.reordered back occupied' arity', chosen'⟩, same', occupied', arity'⟩

/-- The solver with caches does what the one without does, and on failure the caches are as they were. -/
theorem Counted.search {t : Cached} {fuel : Nat} (counted : Counted t) (listed : Listed 0 t.toGlobals)
    (deep : 81 < fuel) :
    ∃ found s u, solve_sudoku_min_arity fuel 0 t.toGlobals = some (found, s) ∧ Decided t.toGlobals found s ∧
      solve_sudoku_min_arity_cache fuel 0 t = some (found, u) ∧ u.toGlobals = s ∧
      (found = false → u.occupied = t.occupied ∧ u.arity = t.arity) := by
  obtain ⟨found, s, ran, decided⟩ := solver_decides min_arity_finds listed deep
  obtain ⟨u, ran', won, lost⟩ := cache_follows.search ⟨rfl, counted, listed⟩ ran
  refine ⟨found, s, u, ran, decided, ran', ?_, fun no => (lost no).2.2⟩
  cases found with
  | true =>
    obtain ⟨_, same, _⟩ := won rfl
    exact same
  | false => exact (lost rfl).1.1

/-- Both solvers answer the same and leave the same board and spaces. On failure the caches are as they were. -/
theorem cache_agrees (puzzle : List Int8) (memory : Cached) (fuel : Nat) (long : 81 ≤ puzzle.length)
    (digits : Digits puzzle) (deep : 81 < fuel) :
    ∃ s found t u, input puzzle memory.toGlobals = some s ∧ solve_sudoku_min_arity fuel 0 s = some (found, t) ∧
      solve_sudoku_min_arity_cache fuel 0 (init_cache { memory with toGlobals := s }) = some (found, u) ∧
      u.toGlobals = t ∧ (found = false → u.occupied = (init_cache { memory with toGlobals := s }).occupied ∧
        u.arity = (init_cache { memory with toGlobals := s }).arity) := by
  obtain ⟨s, read, _, listed⟩ := input_digits long digits memory.toGlobals
  obtain ⟨counted, globals⟩ := init_cache_counted { memory with toGlobals := s }
  have listed' : Listed 0 (init_cache { memory with toGlobals := s }).toGlobals := by
    rw [globals]
    exact listed
  obtain ⟨found, t, u, ran, _, ran', same, kept⟩ := counted.search listed' deep
  rw [globals] at ran
  exact ⟨s, found, t, u, read, ran, ran', same, kept⟩

def uncached : Cached := ⟨untouched, fun _ _ => false, fun _ => 0⟩

theorem cache_agrees_zeros :
    ∃ s found t u, input zeros untouched = some s ∧ solve_sudoku_min_arity 82 0 s = some (found, t) ∧
      solve_sudoku_min_arity_cache 82 0 (init_cache { uncached with toGlobals := s }) = some (found, u) ∧
      u.toGlobals = t ∧ (found = false → u.occupied = (init_cache { uncached with toGlobals := s }).occupied ∧
        u.arity = (init_cache { uncached with toGlobals := s }).arity) :=
  cache_agrees zeros uncached 82 (by decide) digits_zeros (by decide)

end CloudLab.TearcherCode
