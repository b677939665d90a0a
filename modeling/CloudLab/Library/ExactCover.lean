import Mathlib

/-! Exact covers of a set of columns by rows, and the search that branches on a column. -/

namespace CloudLab

variable {R K : Type*} {has : R → K → Prop} {cols : Set K} {rows : Set R} {r : R} {k : K}

/-- Every column is in exactly one of the rows, which have no other columns. -/
structure ExactCover (has : R → K → Prop) (cols : Set K) (rows : Set R) : Prop where
  within : ∀ r ∈ rows, ∀ k, has r k → k ∈ cols
  once : ∀ k ∈ cols, ∃! r, r ∈ rows ∧ has r k

namespace ExactCover

def Solvable (has : R → K → Prop) (cols : Set K) : Prop := ∃ rows, ExactCover has cols rows

def left (has : R → K → Prop) (cols : Set K) (r : R) : Set K := {k | k ∈ cols ∧ ¬ has r k}

theorem empty : ExactCover has ∅ ∅ := ⟨fun _ none => none.elim, fun _ none => none.elim⟩

theorem add (fits : ∀ k, has r k → k ∈ cols) (cover : ExactCover has (left has cols r) rows) :
    ExactCover has cols (insert r rows) := by
  constructor
  · intro s member k inside
    rcases member with rfl | member
    · exact fits k inside
    · exact (cover.within s member k inside).1
  · intro k wanted
    by_cases here : has r k
    · refine ⟨r, ⟨Set.mem_insert r rows, here⟩, ?_⟩
      rintro s ⟨rfl | member, inside⟩
      · rfl
      · exact absurd here (cover.within s member k inside).2
    · obtain ⟨s, ⟨member, inside⟩, only⟩ := cover.once k ⟨wanted, here⟩
      refine ⟨s, ⟨Set.mem_insert_of_mem r member, inside⟩, ?_⟩
      rintro t ⟨rfl | other, inside'⟩
      · exact absurd inside' here
      · exact only t ⟨other, inside'⟩

theorem fresh (nonempty : has r k) (cover : ExactCover has (left has cols r) rows) : r ∉ rows :=
  fun member => (cover.within r member k nonempty).2 nonempty

theorem branch (cover : ExactCover has cols rows) (wanted : k ∈ cols) :
    ∃ r, has r k ∧ (∀ k, has r k → k ∈ cols) ∧ Solvable has (left has cols r) := by
  obtain ⟨r, ⟨chosen, inside⟩, _⟩ := cover.once k wanted
  refine ⟨r, inside, cover.within r chosen, rows \ {r}, ?_, ?_⟩
  · rintro s ⟨member, other⟩ k' inside'
    have there := cover.within s member k' inside'
    refine ⟨there, fun both => other ?_⟩
    obtain ⟨t, _, only⟩ := cover.once k' there
    exact (only s ⟨member, inside'⟩).trans (only r ⟨chosen, both⟩).symm
  · rintro k' ⟨wanted', notHere⟩
    obtain ⟨s, ⟨member, inside'⟩, only⟩ := cover.once k' wanted'
    refine ⟨s, ⟨⟨member, ?_⟩, inside'⟩, fun t found => only t ⟨found.1.1, found.2⟩⟩
    rintro rfl
    exact notHere inside'

end ExactCover

end CloudLab
