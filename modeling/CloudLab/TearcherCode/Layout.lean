import CloudLab.TearcherCode.Constraints

/-! The matrix as the search finds it. -/

namespace CloudLab.TearcherCode
open Links
open Sudoku (DLX put MAXSIZE)
open Sudoku.DLX

def rowOf (c : Cell × Nat) : Nat := 10 * c.1 + c.2

theorem rowOf_inj {c c' : Cell × Nat} (value : c.2 ≤ 9) (value' : c'.2 ≤ 9) : rowOf c = rowOf c' ↔ c = c' := by
  rw [Prod.ext_iff, Fin.ext_iff]
  simp only [rowOf]
  omega

namespace Dance

def links (d : Dance) (names : List Nat) (cands : List (Cell × Nat)) : DLX where
  n := 0
  m := names.length
  tot := d.cur_node_ - 1
  first := fun _ => 0
  siz := d.size
  L := d.left
  R := d.right
  U := d.up
  D := d.down
  col := d.col
  row := fun x => (cands[(x - (names.length + 1)) / 4]?.map rowOf).getD 0
  stk := fun _ => 0
  ans := fun _ _ => 0

section start
variable {d : Dance} {names : List Nat} {cands : List (Cell × Nat)} {c : Cell × Nat} {x g t n r k : Nat}

theorem Grown.tot (grown : Grown d names cands) : (d.links names cands).tot = names.length + 4 * cands.length := by
  have cur := grown.cur
  simp only [links, base] at cur ⊢
  omega

theorem Grown.node (grown : Grown d names cands) (node : (d.links names cands).Node x) :
    ∃ g c t n, cands[g]? = some c ∧ (candidateNames c)[t]? = some n ∧ x = base names.length g + t := by
  obtain ⟨low, high⟩ := node
  rw [grown.tot] at high
  have low' : names.length < x := low
  let g := (x - (names.length + 1)) / 4
  let t := (x - (names.length + 1)) % 4
  have inside : g < cands.length := by
    simp only [g]
    omega
  have few : t < (candidateNames cands[g]).length := Nat.mod_lt _ (by decide)
  refine ⟨g, cands[g], t, _, List.getElem?_eq_getElem inside, List.getElem?_eq_getElem few, ?_⟩
  simp only [base, g, t]
  omega

theorem Grown.spot (grown : Grown d names cands) (found : cands[g]? = some c) (named : (candidateNames c)[t]? = some n) :
    (d.links names cands).Node (base names.length g + t) ∧
      (d.links names cands).row (base names.length g + t) = rowOf c ∧ d.name (base names.length g + t) = n ∧
      d.columns_ n = some (d.col (base names.length g + t)) := by
  have inside : g < cands.length := (List.getElem?_eq_some_iff.mp found).1
  have few : t < 4 := (List.getElem?_eq_some_iff.mp named).1
  have node : names.length < base names.length g + t ∧ base names.length g + t ≤ names.length + 4 * cands.length := by
    simp only [base]
    omega
  have cur := grown.cur
  have name := grown.name g c t n found named
  have index : (base names.length g + t - (names.length + 1)) / 4 = g := by
    simp only [base]
    omega
  refine ⟨⟨node.1, node.2.trans grown.tot.ge⟩, ?_, name, ?_⟩
  · simp only [links, index, found, Option.map_some, Option.getD_some]
  · rw [← name]
    refine grown.hung.target _ node.1 ?_
    rw [cur]
    simp only [base] at node ⊢
    omega

theorem Grown.has (grown : Grown d names cands) : (d.links names cands).Has r k ↔
    ∃ c ∈ cands, rowOf c = r ∧ ∃ n ∈ candidateNames c, 1 ≤ k ∧ names[k - 1]? = some n := by
  constructor
  · rintro ⟨x, node, rfl, rfl⟩
    obtain ⟨g, c, t, n, found, named, rfl⟩ := grown.node node
    obtain ⟨_, row, _, column⟩ := grown.spot found named
    exact ⟨c, List.mem_of_getElem? found, row.symm, n, List.mem_of_getElem? named, (grown.columns n _).mp column⟩
  · rintro ⟨c, member, rfl, n, inside, range⟩
    obtain ⟨g, found⟩ := List.mem_iff_getElem?.mp member
    obtain ⟨t, named⟩ := List.mem_iff_getElem?.mp inside
    obtain ⟨node, row, _, column⟩ := grown.spot found named
    exact ⟨_, node, row, Option.some.inj (column.symm.trans ((grown.columns n k).mpr range))⟩

theorem nodup_candidateNames {c : Cell × Nat} (value : c.2 ≤ 9) : (candidateNames c).Nodup := by
  have row := row_less c.1
  have column := col_less c.1
  simp only [candidateNames, Dance.get_row_col, Dance.get_col_col, Dance.get_box_col, kRow, kCol, kBox,
    List.nodup_cons, List.mem_cons, List.not_mem_nil, List.nodup_nil, or_false, not_false_eq_true, and_true]
  omega

structure Numbered (cands : List (Cell × Nat)) : Prop where
  distinct : cands.Nodup
  value : ∀ c ∈ cands, 1 ≤ c.2 ∧ c.2 ≤ 9

theorem Numbered.index (numbered : Numbered cands) {g' : Nat} {c' : Cell × Nat} (found : cands[g]? = some c)
    (found' : cands[g']? = some c') (same : rowOf c = rowOf c') : g = g' ∧ c = c' := by
  have value := (numbered.value c (List.mem_of_getElem? found)).2
  have value' := (numbered.value c' (List.mem_of_getElem? found')).2
  obtain rfl := (rowOf_inj value value').mp same
  have inside : g < cands.length := (List.getElem?_eq_some_iff.mp found).1
  exact ⟨(List.getElem?_inj inside numbered.distinct).mp (found.trans found'.symm), rfl⟩

theorem Grown.others (grown : Grown d names cands) (numbered : Numbered cands) (node : (d.links names cands).Node x) :
    ∃ others, Ring d.right d.left x others ∧ ∀ y, y ∈ others ↔ (d.links names cands).Node y ∧
      (d.links names cands).row y = (d.links names cands).row x ∧ y ≠ x := by
  obtain ⟨g, c, t, n, found, named, rfl⟩ := grown.node node
  have inside : g < cands.length := (List.getElem?_eq_some_iff.mp found).1
  have row := (grown.spot found named).2.1
  -- the four nodes of the row
  have four : ∀ y, y ∈ [base names.length g, base names.length g + 1, base names.length g + 2, base names.length g + 3] ↔
      (d.links names cands).Node y ∧ (d.links names cands).row y = rowOf c := by
    intro y
    constructor
    · intro member
      obtain ⟨t', few, rfl⟩ : ∃ t', t' < 4 ∧ y = base names.length g + t' := by
        simp only [List.mem_cons, List.not_mem_nil, or_false] at member
        exact ⟨y - base names.length g, by omega, by omega⟩
      have named' : (candidateNames c)[t']? = some (candidateNames c)[t'] := List.getElem?_eq_getElem few
      exact ⟨(grown.spot found named').1, (grown.spot found named').2.1⟩
    · rintro ⟨node', row'⟩
      obtain ⟨g', c', t', n', found', named', rfl⟩ := grown.node node'
      rw [(grown.spot found' named').2.1] at row'
      obtain ⟨rfl, rfl⟩ := numbered.index found' found row'
      have few : t' < 4 := (List.getElem?_eq_some_iff.mp named').1
      simp only [List.mem_cons, List.not_mem_nil, or_false]
      omega
  obtain ⟨others, ring, members⟩ := (grown.line g inside).around ((four _).mpr ⟨node, row⟩)
  refine ⟨others, ring, fun y => ?_⟩
  rw [members, four, row, and_assoc]

/-- At the start of the search every column is left. -/
theorem Grown.layout (grown : Grown d names cands) (numbered : Numbered cands)
    (room : base names.length cands.length ≤ kMaxNodes) :
    ∃ nodes others, Layout (d.links names cands) (DLX.columns names.length) (List.range' 1 names.length) nodes others := by
  choose! nodes ring members using fun k => fun range : 1 ≤ k ∧ k ≤ names.length => grown.hung.column k range.1 range.2
  choose! others line inner using fun x => fun node : (d.links names cands).Node x => grown.others numbered node
  have range : ∀ {r k}, (d.links names cands).Has r k → 1 ≤ k ∧ k ≤ names.length := by
    intro r k has
    obtain ⟨c, _, _, n, _, low, at_⟩ := grown.has.mp has
    have inside := (List.getElem?_eq_some_iff.mp at_).1
    omega
  have tot := grown.tot
  have cur := grown.cur
  have node : ∀ x, (d.links names cands).Node x ↔ names.length < x ∧ x < d.cur_node_ := by
    intro x
    show names.length < x ∧ x ≤ (d.links names cands).tot ↔ _
    rw [tot, cur]
    simp only [base]
    omega
  refine ⟨nodes, others, ⟨?_, ?_⟩, fun x node => range ⟨x, node, rfl, rfl⟩, ?_, fun k wanted => wanted,
    grown.hung.header, ?_, ring, ?_, line, inner⟩
  · rw [tot]
    exact Nat.le_add_right _ _
  · rw [tot]
    simp only [base, kMaxNodes] at room
    simp only [MAXSIZE]
    omega
  · intro x y node node' row column
    obtain ⟨g, c, t, n, found, named, rfl⟩ := grown.node node
    obtain ⟨g', c', t', n', found', named', rfl⟩ := grown.node node'
    obtain ⟨_, row₁, _, column₁⟩ := grown.spot found named
    obtain ⟨_, row₂, _, column₂⟩ := grown.spot found' named'
    obtain ⟨rfl, rfl⟩ := numbered.index found found' (row₁.symm.trans (row.trans row₂))
    -- one name has one column
    have first := ((grown.columns n _).mp column₁).2
    have second := ((grown.columns n' _).mp column₂).2
    have column : d.col (base names.length g + t) = d.col (base names.length g + t') := column
    obtain rfl : n = n' := Option.some.inj (first.symm.trans (column ▸ second))
    have few : t < (candidateNames c).length := (List.getElem?_eq_some_iff.mp named).1
    have distinct := nodup_candidateNames (numbered.value c (List.mem_of_getElem? found)).2
    rw [(List.getElem?_inj few distinct).mp (named.trans named'.symm)]
  · intro k
    rw [List.mem_range'_1]
    show _ ↔ 1 ≤ k ∧ k ≤ names.length
    omega
  · intro k wanted x
    rw [members k wanted, ← node]
    constructor
    · rintro ⟨node, column⟩
      exact ⟨⟨node, fun k' has => range has⟩, column⟩
    · rintro ⟨active, column⟩
      exact ⟨active.1, column⟩

theorem Grown.labelled (grown : Grown d names cands) (numbered : Numbered cands) :
    Labelled d.name (d.links names cands) := by
  -- the first name is the cell, and the others end in the value
  have told : ∀ (g : Nat) (c : Cell × Nat) (t n : Nat), cands[g]? = some c → (candidateNames c)[t]? = some n →
      (n < 100 → n = rowOf c / 10) ∧ (¬ n < 100 → n % 10 = rowOf c % 10) := by
    intro g c t n found named
    have value := numbered.value c (List.mem_of_getElem? found)
    have member := List.mem_of_getElem? named
    simp only [candidateNames, Dance.get_row_col, Dance.get_col_col, Dance.get_box_col, kRow, kCol, kBox,
      List.mem_cons, List.not_mem_nil, or_false] at member
    simp only [rowOf]
    omega
  refine ⟨fun x node less => ?_, fun x node large => ?_, fun x node => ?_, fun x node => ?_⟩
  · obtain ⟨g, c, t, n, found, named, rfl⟩ := grown.node node
    obtain ⟨_, row, name, _⟩ := grown.spot found named
    rw [name] at less ⊢
    rw [row]
    exact (told g c t n found named).1 less
  · obtain ⟨g, c, t, n, found, named, rfl⟩ := grown.node node
    obtain ⟨_, row, name, _⟩ := grown.spot found named
    rw [name] at large ⊢
    rw [row]
    exact (told g c t n found named).2 large
  · obtain ⟨g, c, t, n, found, named, rfl⟩ := grown.node node
    have row := (grown.spot found named).2.1
    have first : (candidateNames c)[0]? = some c.1.val := rfl
    have second : (candidateNames c)[1]? = some (get_row_col (TearcherCode.row c.1) c.2) := rfl
    obtain ⟨node₀, row₀, name₀, _⟩ := grown.spot found first
    obtain ⟨node₁, row₁, name₁, _⟩ := grown.spot found second
    refine ⟨⟨_, node₀, row₀.trans row.symm, ?_⟩, _, node₁, row₁.trans row.symm, ?_⟩
    · rw [name₀]
      omega
    · rw [name₁]
      simp only [get_row_col, kRow]
      omega
  · obtain ⟨g, c, t, n, found, named, rfl⟩ := grown.node node
    rw [(grown.spot found named).2.1]
    have value := numbered.value c (List.mem_of_getElem? found)
    simp only [rowOf]
    omega

end start

end Dance

end CloudLab.TearcherCode
