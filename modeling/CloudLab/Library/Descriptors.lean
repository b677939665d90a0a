import Mathlib

/-! Descriptors of open files: the next one is the lowest that is free, and a history of their
uses says which are held. -/

namespace CloudLab.Descriptors

variable {used : Finset Int}

def firstFree (used : Finset Int) : Nat → Int → Int
  | 0, d => d
  | fuel + 1, d => if d ∈ used then firstFree used fuel (d + 1) else d

def lowestFree (used : Finset Int) : Int := firstFree used used.card 1

theorem le_firstFree (used : Finset Int) (fuel : Nat) (d : Int) : d ≤ firstFree used fuel d := by
  induction fuel generalizing d with
  | zero => exact le_refl d
  | succ fuel ih =>
    unfold firstFree
    split
    · exact le_trans (by omega) (ih (d + 1))
    · exact le_refl d

theorem firstFree_le {fuel : Nat} {d free : Int} (above : d ≤ free) (unused : free ∉ used) :
    firstFree used fuel d ≤ free := by
  induction fuel generalizing d with
  | zero => exact above
  | succ fuel ih =>
    unfold firstFree
    split
    · next taken =>
      have different : d ≠ free := fun same => unused (same ▸ taken)
      exact ih (by omega)
    · exact above

/-- As many steps as there are descriptors in use from `d` on lead to a free one. -/
theorem firstFree_notMem {fuel : Nat} {d : Int} (enough : (used.filter (d ≤ ·)).card ≤ fuel) :
    firstFree used fuel d ∉ used := by
  induction fuel generalizing d with
  | zero =>
    intro taken
    have some : d ∈ used.filter (d ≤ ·) := Finset.mem_filter.mpr ⟨taken, le_refl d⟩
    have positive := Finset.card_pos.mpr ⟨d, some⟩
    omega
  | succ fuel ih =>
    unfold firstFree
    split
    · next taken =>
      apply ih
      have fewer : (used.filter (d + 1 ≤ ·)).card < (used.filter (d ≤ ·)).card := by
        apply Finset.card_lt_card
        rw [Finset.ssubset_iff_of_subset]
        · refine ⟨d, Finset.mem_filter.mpr ⟨taken, le_refl d⟩, fun inside => ?_⟩
          have above := (Finset.mem_filter.mp inside).2
          omega
        · exact Finset.monotone_filter_right _ fun x _ above => by omega
      omega
    · next free => exact free

theorem lowestFree_notMem (used : Finset Int) : lowestFree used ∉ used :=
  firstFree_notMem (Finset.card_filter_le _ _)

theorem lowestFree_pos (used : Finset Int) : 0 < lowestFree used :=
  lt_of_lt_of_le Int.one_pos (le_firstFree used _ 1)

theorem lowestFree_le {free : Int} (positive : 0 < free) (unused : free ∉ used) : lowestFree used ≤ free :=
  firstFree_le positive unused

inductive Use
  | taken (fd : Int)
  | closed (fd : Int)
  deriving DecidableEq

/-- The descriptors that are held after these uses; none when one is taken that is held already,
or one closed that is not. -/
def ledger : Finset Int → List Use → Option (Finset Int)
  | held, [] => some held
  | held, .taken fd :: uses => if fd ∈ held then none else ledger (insert fd held) uses
  | held, .closed fd :: uses => if fd ∈ held then ledger (held.erase fd) uses else none

section ledger

variable {held left : Finset Int} {uses : List Use} {fd : Int}

theorem ledger_append (held : Finset Int) (first second : List Use) :
    ledger held (first ++ second) = (ledger held first).bind fun held => ledger held second := by
  induction first generalizing held with
  | nil => rfl
  | cons use first ih =>
    rw [List.cons_append]
    cases use with
    | taken fd =>
      rw [ledger, ledger]
      split
      · rfl
      · exact ih _
    | closed fd =>
      rw [ledger, ledger]
      split
      · exact ih _
      · rfl

theorem ledger_taken (book : ledger held uses = some left) (free : fd ∉ left) :
    ledger held (uses ++ [.taken fd]) = some (insert fd left) := by
  rw [ledger_append, book, Option.bind_some, ledger, if_neg free, ledger]

theorem ledger_closed (book : ledger held uses = some left) (mine : fd ∈ left) :
    ledger held (uses ++ [.closed fd]) = some (left.erase fd) := by
  rw [ledger_append, book, Option.bind_some, ledger, if_pos mine, ledger]

theorem ledger_count (book : ledger held uses = some left) (fd : Int) :
    (if fd ∈ held then 1 else 0) + uses.count (.taken fd) = uses.count (.closed fd) + if fd ∈ left then 1 else 0 := by
  induction uses generalizing held with
  | nil =>
    cases book
    simp
  | cons use uses ih =>
    cases use with
    | taken other =>
      rw [ledger] at book
      split at book
      · cases book
      · next free =>
        have rest := ih book
        by_cases same : fd = other
        · subst same
          simp [free] at rest ⊢
          omega
        · simp [same, Ne.symm same] at rest ⊢
          exact rest
    | closed other =>
      rw [ledger] at book
      split at book
      · next mine =>
        have rest := ih book
        by_cases same : fd = other
        · subst same
          simp [mine] at rest ⊢
          omega
        · simp [same, Ne.symm same] at rest ⊢
          exact rest
      · cases book

end ledger

end CloudLab.Descriptors
