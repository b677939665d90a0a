import Mathlib

/-! Partial colourings of a graph, and how the blank vertices can be filled. -/

namespace CloudLab.Colouring

variable {V K : Type*} {adj : V → V → Prop} {blank : K} {b b' : V → K} {x : V} {k : K}

/-- The blank vertices are filled, and none of them has the colour of a neighbour. -/
structure Completes (adj : V → V → Prop) (blank : K) (b b' : V → K) : Prop where
  kept : ∀ x, b x ≠ blank → b' x = b x
  filled : ∀ x, b x = blank → b' x ≠ blank
  apart : ∀ x y, b x = blank → adj x y → b' x ≠ b' y

def Free (adj : V → V → Prop) (b : V → K) (x : V) (k : K) : Prop := ∀ y, adj x y → b y ≠ k

def Proper (adj : V → V → Prop) (b : V → K) : Prop := ∀ x y, adj x y → b x ≠ b y

def Consistent (adj : V → V → Prop) (blank : K) (b : V → K) : Prop :=
  ∀ x y, adj x y → b x ≠ blank → b x ≠ b y

theorem Completes.full (full : ∀ x, b x ≠ blank) : Completes adj blank b b' ↔ b' = b := by
  constructor
  · intro completes
    funext x
    exact completes.kept x (full x)
  · rintro rfl
    exact ⟨fun _ _ => rfl, fun x none => absurd none (full x), fun x _ none => absurd none (full x)⟩

theorem Completes.free (completes : Completes adj blank b b') (here : b x = blank) : Free adj b x (b' x) := by
  intro y next same
  by_cases other : b y = blank
  · exact completes.filled x here (same ▸ other)
  · exact completes.apart x y here next (same.symm.trans (completes.kept y other).symm)

theorem Completes.update [DecidableEq V] (symmetric : ∀ x y, adj x y → adj y x) (irreflexive : ∀ x, ¬ adj x x)
    (here : b x = blank) (colour : k ≠ blank) (free : Free adj b x k) :
    Completes adj blank (Function.update b x k) b' ↔ Completes adj blank b b' ∧ b' x = k := by
  have others : ∀ y, y ≠ x → Function.update b x k y = b y := fun y other => Function.update_of_ne other ..
  have own : Function.update b x k x = k := Function.update_self ..
  constructor
  · intro completes
    have chosen : b' x = k := by
      have kept := completes.kept x
      rw [own] at kept
      exact kept colour
    refine ⟨⟨?_, ?_, ?_⟩, chosen⟩
    · intro y colored
      have other : y ≠ x := fun same => colored (same ▸ here)
      rw [← others y other] at colored ⊢
      exact completes.kept y colored
    · intro y none
      by_cases same : y = x
      · rw [same, chosen]
        exact colour
      · rw [← others y same] at none
        exact completes.filled y none
    · intro y z none next
      by_cases same : y = x
      · rw [same] at next ⊢
        have other : z ≠ x := fun same => irreflexive x (same ▸ next)
        by_cases blankz : b z = blank
        · rw [← others z other] at blankz
          exact (completes.apart z x blankz (symmetric x z next)).symm
        · have kept : b' z = b z := by
            rw [← others z other] at blankz ⊢
            exact completes.kept z blankz
          rw [chosen, kept]
          exact (free z next).symm
      · rw [← others y same] at none
        exact completes.apart y z none next
  · rintro ⟨completes, chosen⟩
    refine ⟨?_, ?_, ?_⟩
    · intro y colored
      by_cases same : y = x
      · rw [same, own, chosen]
      · rw [others y same] at colored ⊢
        exact completes.kept y colored
    · intro y none
      have other : y ≠ x := fun same => colour (own ▸ same ▸ none)
      rw [others y other] at none
      exact completes.filled y none
    · intro y z none next
      have other : y ≠ x := fun same => colour (own ▸ same ▸ none)
      rw [others y other] at none
      exact completes.apart y z none next

theorem Completes.proper (symmetric : ∀ x y, adj x y → adj y x) (consistent : Consistent adj blank b)
    (completes : Completes adj blank b b') : Proper adj b' := by
  intro x y next
  by_cases first : b x = blank
  · exact completes.apart x y first next
  by_cases second : b y = blank
  · exact (completes.apart y x second (symmetric x y next)).symm
  · rw [completes.kept x first, completes.kept y second]
    exact consistent x y next first

theorem Completes.of_proper (proper : Proper adj b') (filled : ∀ x, b' x ≠ blank)
    (kept : ∀ x, b x ≠ blank → b' x = b x) : Completes adj blank b b' :=
  ⟨kept, fun x _ => filled x, fun x y _ next => proper x y next⟩

theorem Consistent.of_proper (proper : Proper adj b') (kept : ∀ x, b x ≠ blank → b' x = b x) :
    Consistent adj blank b := by
  intro x y next first same
  have second : b y ≠ blank := same ▸ first
  apply proper x y next
  rw [kept x first, kept y second, same]

end CloudLab.Colouring
