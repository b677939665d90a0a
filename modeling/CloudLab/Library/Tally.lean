import Mathlib

/-! Counting the indices below a bound that a Boolean function selects, and adding up over
them. -/

namespace CloudLab

/-- How many `i < n` have `f i`. -/
def tally (n : Nat) (f : Nat → Bool) : Nat := (List.range n).countP f

namespace Tally

variable {n i : Nat} {f g : Nat → Bool}

theorem tally_succ (n : Nat) (f : Nat → Bool) : tally (n + 1) f = tally n f + (f n).toNat := by
  rw [tally, tally, List.range_succ, List.countP_append, List.countP_singleton]
  cases f n <;> rfl

theorem tally_congr (same : ∀ i < n, f i = g i) : tally n f = tally n g := by
  apply List.countP_congr
  intro i member
  rw [same i (List.mem_range.mp member)]

theorem length_filter_range (n : Nat) (f : Nat → Bool) :
    ((List.range n).filter f).length = tally n f := by
  rw [tally, List.countP_eq_length_filter]

theorem tally_eq_zero : tally n f = 0 ↔ ∀ i < n, f i = false := by
  simp [tally, List.countP_eq_zero]

@[simp] theorem tally_false (n : Nat) : tally n (fun _ => false) = 0 :=
  tally_eq_zero.mpr fun _ _ => rfl

theorem of_update_false {j : Nat} (selected : Function.update f i false j = true) : j ≠ i ∧ f j = true := by
  by_cases same : j = i
  · rw [same, Function.update_self] at selected
    cases selected
  · rw [Function.update_of_ne same] at selected
    exact ⟨same, selected⟩

theorem tally_update_true (bound : i < n) (unselected : f i = false) :
    tally n (Function.update f i true) = tally n f + 1 := by
  induction n with
  | zero => omega
  | succ n ih =>
    rw [tally_succ, tally_succ]
    by_cases last : n = i
    · subst last
      have before : tally n (Function.update f n true) = tally n f :=
        tally_congr fun j small => Function.update_of_ne (by omega) _ _
      rw [before, Function.update_self, unselected]
      rfl
    · rw [ih (by omega), Function.update_of_ne last]
      omega

theorem tally_update_false (bound : i < n) (selected : f i = true) :
    tally n (Function.update f i false) + 1 = tally n f := by
  have again := tally_update_true bound (Function.update_self i false f)
  rw [Function.update_idem, ← selected, Function.update_eq_self] at again
  exact again.symm

theorem tally_split (n : Nat) (f g : Nat → Bool) :
    tally n f = tally n (fun i => f i && g i) + tally n (fun i => f i && !g i) := by
  induction n with
  | zero => rfl
  | succ n ih =>
    rw [tally_succ, tally_succ, tally_succ, ih]
    cases f n <;> cases g n <;> simp <;> omega

theorem tally_single (bound : i < n) : tally n (fun j => decide (j = i)) = 1 := by
  have one := tally_update_true (f := fun _ => false) bound rfl
  rw [tally_false, Nat.zero_add] at one
  rw [← one]
  apply tally_congr
  intro j _
  by_cases same : j = i
  · simp [same]
  · simp [same]

theorem exists_of_tally (some : tally n f ≠ 0) : ∃ i < n, f i = true := by
  by_contra none
  apply some
  rw [tally_eq_zero]
  intro i bound
  rw [← Bool.not_eq_true]
  exact fun on => none ⟨i, bound, on⟩

theorem tally_le (n : Nat) (f : Nat → Bool) : tally n f ≤ n := by
  have bound := List.countP_le_length (p := f) (l := List.range n)
  rwa [List.length_range] at bound

theorem sum_update {v : Nat} {f : Nat → Nat} (bound : i < n) :
    ∑ j ∈ Finset.range n, Function.update f i v j + f i = ∑ j ∈ Finset.range n, f j + v := by
  have member := Finset.mem_range.mpr bound
  have others : ∑ j ∈ (Finset.range n).erase i, Function.update f i v j = ∑ j ∈ (Finset.range n).erase i, f j :=
    Finset.sum_congr rfl fun j inside => Function.update_of_ne (Finset.ne_of_mem_erase inside) _ _
  rw [← Finset.add_sum_erase _ _ member, ← Finset.add_sum_erase _ f member, others, Function.update_self]
  omega

end Tally

end CloudLab
