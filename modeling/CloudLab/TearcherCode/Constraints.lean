import CloudLab.TearcherCode.Construct
import CloudLab.Library.Colouring

/-! The rows, the columns and the boxes of the board as three kinds of one thing, and what the names of
the matrix say about them. -/

namespace CloudLab.TearcherCode
open Colouring
open Sudoku (DLX put MAXSIZE)

/-- Which row, which column or which box a cell is in. -/
def part (kind : Fin 3) : Cell → Nat := ![row, col, box] kind

def partName (kind : Fin 3) (u v : Nat) : Nat := 100 * (kind + 1) + u * 10 + v

def GivenIn (inout : Board) (kind : Fin 3) (u v : Nat) : Prop := ∃ i, part kind i = u ∧ (inout i).val = v

section parts
variable {inout : Board} {i j : Cell} {kind : Fin 3} {u v n : Nat}

theorem forall_kind {P : Fin 3 → Prop} : (∀ kind, P kind) ↔ P 0 ∧ P 1 ∧ P 2 := by
  rw [Fin.forall_fin_succ, Fin.forall_fin_two]
  rfl

theorem exists_kind {P : Fin 3 → Prop} : (∃ kind, P kind) ↔ P 0 ∨ P 1 ∨ P 2 := by
  rw [Fin.exists_fin_succ, Fin.exists_fin_two]
  rfl

theorem part_less (kind : Fin 3) (i : Cell) : part kind i < 9 := by
  revert kind
  exact forall_kind.mpr ⟨row_less i, col_less i, box_less i⟩

theorem card_part : ∀ (kind : Fin 3) (u : Fin 9), (Finset.univ.filter fun i : Cell => part kind i = u.val).card = 9 := by
  decide +kernel

theorem adjacent_iff : Adjacent i j ↔ i ≠ j ∧ ∃ kind, part kind i = part kind j := by
  rw [exists_kind, Adjacent]
  refine and_congr_right fun _ => or_congr Iff.rfl (or_congr Iff.rfl ?_)
  show _ ↔ box i = box j
  simp only [box, row, col]
  omega

theorem proper_parts {b : Board} :
    Proper Adjacent b ↔ ∀ kind i j, part kind i = part kind j → b i = b j → i = j := by
  constructor
  · intro proper kind i j together same
    by_contra other
    exact proper i j (adjacent_iff.mpr ⟨other, kind, together⟩) same
  · intro apart i j adjacent same
    obtain ⟨other, kind, together⟩ := adjacent_iff.mp adjacent
    exact other (apart kind i j together same)

theorem part_values {b : Board} (full : ∀ i, b i ≠ 0) (kind : Fin 3) (u : Fin 9) :
    Set.MapsTo b (Finset.univ.filter fun i : Cell => part kind i = u.val)
      (Finset.univ.filter fun v : Value => v ≠ 0) ∧
    (Finset.univ.filter fun i : Cell => part kind i = u.val).card = (Finset.univ.filter fun v : Value => v ≠ 0).card := by
  refine ⟨fun i _ => ?_, (card_part kind u).trans (by decide)⟩
  simpa using full i

theorem everywhere_of_proper {b : Board} (proper : Proper Adjacent b) (full : ∀ i, b i ≠ 0) (kind : Fin 3)
    (small : u < 9) (value : 1 ≤ v ∧ v ≤ 9) : ∃ i, part kind i = u ∧ (b i).val = v := by
  obtain ⟨maps, cards⟩ := part_values full kind ⟨u, small⟩
  have injective : Set.InjOn b (Finset.univ.filter fun i : Cell => part kind i = u) := by
    intro i member j member' same
    have first : part kind i = u := by simpa using member
    have second : part kind j = u := by simpa using member'
    exact proper_parts.mp proper kind i j (first.trans second.symm) same
  have colour : (⟨v, by omega⟩ : Value) ∈ (Finset.univ.filter fun v : Value => v ≠ 0 : Set Value) := by
    simp only [ne_eq, Finset.coe_filter, Finset.mem_univ, true_and, Set.mem_ofPred_eq, Fin.ext_iff, Fin.val_zero]
    omega
  obtain ⟨i, member, same⟩ := Finset.surjOn_of_injOn_of_card_le b maps injective cards.ge colour
  exact ⟨i, by simpa using member, congrArg Fin.val same⟩

theorem proper_of_everywhere {b : Board} (full : ∀ i, b i ≠ 0)
    (everywhere : ∀ kind u v, u < 9 → 1 ≤ v ∧ v ≤ 9 → ∃ i, part kind i = u ∧ (b i).val = v) : Proper Adjacent b := by
  refine proper_parts.mpr fun kind i j together same => ?_
  obtain ⟨maps, cards⟩ := part_values full kind ⟨part kind i, part_less kind i⟩
  have surjective : Set.SurjOn b (Finset.univ.filter fun k : Cell => part kind k = part kind i)
      (Finset.univ.filter fun v : Value => v ≠ 0) := by
    intro v member
    have colour : v ≠ 0 := by simpa using member
    obtain ⟨k, there, value⟩ := everywhere kind (part kind i) v.val (part_less kind i) (by
      rw [ne_eq, Fin.ext_iff, Fin.val_zero] at colour
      omega)
    exact ⟨k, by simpa using there, Fin.ext value⟩
  refine Finset.injOn_of_surjOn_of_card_le b maps surjective cards.le ?_ ?_ same
  · simp
  · simpa using together.symm

/-! The names. -/

theorem givenOf_iff : (givenOf inout).rows u v = false ∧ n = Dance.get_row_col u v ∨
    (givenOf inout).cols u v = false ∧ n = Dance.get_col_col u v ∨
      (givenOf inout).boxes u v = false ∧ n = Dance.get_box_col u v ↔
    ∃ kind, ¬ GivenIn inout kind u v ∧ n = partName kind u v := by
  rw [exists_kind]
  simp only [← Bool.not_eq_true, given_rows, given_cols, given_boxes]
  rfl

/-- The columns are the blank cells and the values that a part still needs. -/
theorem columnNames_iff : n ∈ columnNames inout ↔ (∃ i : Cell, inout i = 0 ∧ n = i.val) ∨
    ∃ kind u v, (u < 9 ∧ 1 ≤ v ∧ v ≤ 9) ∧ ¬ GivenIn inout kind u v ∧ n = partName kind u v := by
  rw [mem_columnNames]
  refine or_congr Iff.rfl ?_
  simp only [mem_neededNames, and_comm (a := n = _), givenOf_iff]
  constructor
  · rintro ⟨u, v, range, kind, needed⟩
    exact ⟨kind, u, v, range, needed⟩
  · rintro ⟨kind, u, v, range, needed⟩
    exact ⟨u, v, range, kind, needed⟩

theorem candidateNames_iff : n ∈ candidateNames (i, v) ↔ n = i.val ∨ ∃ kind, n = partName kind (part kind i) v := by
  rw [exists_kind]
  simp only [candidateNames, List.mem_cons, List.not_mem_nil, or_false]
  rfl

theorem candidates_iff : (i, v) ∈ candidates inout ↔
    inout i = 0 ∧ (1 ≤ v ∧ v ≤ 9) ∧ ∀ kind, ¬ GivenIn inout kind (part kind i) v := by
  rw [mem_candidates, forall_kind]
  simp only [fits, Bool.not_eq_true', ← Bool.not_eq_true, Bool.or_eq_true, not_or, given_rows, given_cols, given_boxes,
    and_assoc]
  rfl

theorem cell_ne_part (i : Cell) (kind : Fin 3) (u v : Nat) : i.val ≠ partName kind u v := by
  simp only [partName]
  omega

theorem partName_inj {kind' : Fin 3} {u' v' : Nat} (range : u < 9 ∧ v ≤ 9) (range' : u' < 9 ∧ v' ≤ 9) :
    partName kind u v = partName kind' u' v' ↔ kind = kind' ∧ u = u' ∧ v = v' := by
  rw [Fin.ext_iff]
  simp only [partName]
  omega

end parts

end CloudLab.TearcherCode
