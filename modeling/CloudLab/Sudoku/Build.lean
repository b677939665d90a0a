import CloudLab.Sudoku.Dance

/-! The rings that `build` and `insert` make, and the search on them. -/

namespace CloudLab.Sudoku
open Links

namespace DLX

/-- The state after `build` and the insertions of these pairs of row and column. -/
structure Built (s : DLX) (calls : List (Nat × Nat)) : Prop where
  above : s.m ≤ s.tot
  has : ∀ r k, s.Has r k ↔ (r, k) ∈ calls
  apart : ∀ x y, s.Node x → s.Node y → s.row x = s.row y → s.col x = s.col y → x = y
  header : Ring s.R s.L 0 (List.range' 1 s.m)
  column : ∀ k, 1 ≤ k → k ≤ s.m → ∃ nodes, Ring s.D s.U k nodes ∧ ∀ x, x ∈ nodes ↔ s.Node x ∧ s.col x = k
  unused : ∀ r, s.first r = 0 → ∀ x, s.Node x → s.row x ≠ r
  used : ∀ r, s.first r ≠ 0 → s.Node (s.first r) ∧ s.row (s.first r) = r ∧
    ∃ others, Ring s.R s.L (s.first r) others ∧ ∀ x, x ∈ others ↔ s.Node x ∧ s.row x = r ∧ x ≠ s.first r

section build
variable {s : DLX} {c r j : Nat}

structure Columns (s : DLX) (j : Nat) : Prop where
  links : ∀ i < j, s.L i = i - 1 ∧ s.R i = i + 1
  alone : ∀ i < j, s.U i = i ∧ s.D i = i

theorem Columns.next (columns : Columns s j) (small : j < MAXSIZE + 10) :
    ∃ s', buildColumn s j = some s' ∧ Columns s' (j + 1) ∧ s'.m = s.m := by
  have fits : inside [j] = some () := inside_small (by simpa using small)
  have ran : buildColumn s j =
      some { s with L := put s.L j (j - 1), R := put s.R j (j + 1), U := put s.U j j, D := put s.D j j } := by
    simp only [buildColumn, fits, Option.bind_eq_bind, Option.bind_some]
  refine ⟨_, ran, ⟨?_, ?_⟩, rfl⟩
  · intro i low
    by_cases last : i = j
    · subst last
      exact ⟨Function.update_self .., Function.update_self ..⟩
    · have old := columns.links i (by omega)
      exact ⟨(Function.update_of_ne last ..).trans old.1, (Function.update_of_ne last ..).trans old.2⟩
  · intro i low
    by_cases last : i = j
    · subst last
      exact ⟨Function.update_self .., Function.update_self ..⟩
    · have old := columns.alone i (by omega)
      exact ⟨(Function.update_of_ne last ..).trans old.1, (Function.update_of_ne last ..).trans old.2⟩

theorem columns_range (s : DLX) (small : j ≤ MAXSIZE + 10) :
    ∃ s', (List.range j).foldlM buildColumn s = some s' ∧ Columns s' j ∧ s'.m = s.m := by
  induction j with
  | zero => exact ⟨s, rfl, ⟨fun i low => by omega, fun i low => by omega⟩, rfl⟩
  | succ j ih =>
    obtain ⟨s', ran, columns, m⟩ := ih (by omega)
    obtain ⟨s'', last, columns', m'⟩ := columns.next (by omega)
    refine ⟨s'', ?_, columns', m'.trans m⟩
    rw [List.range_succ, List.foldlM_append, ran]
    simp [last]

theorem ring_range' {next prev : Nat → Nat} (inner : ∀ i < c, next i = i + 1 ∧ prev (i + 1) = i)
    (last : next c = 0 ∧ prev 0 = c) : Ring next prev 0 (List.range' 1 c) := by
  constructor
  · have shape : 0 :: List.range' 1 c ++ [0] = List.range' 0 (c + 1) ++ [0] := by
      rw [List.range'_succ]
    rw [shape, List.isChain_append]
    refine ⟨?_, List.isChain_singleton 0, ?_⟩
    · refine (List.isChain_range' 0 (c + 1) 1).imp_of_mem_imp ?_
      intro a b first second follows
      subst follows
      have bound := (List.mem_range'_1.mp second).2
      exact inner a (by omega)
    · intro a final b zero
      have same : a = c := by
        rw [List.range'_concat] at final
        simpa using final.symm
      have zero : b = 0 := by simpa using zero.symm
      subst same zero
      exact last
  · refine List.nodup_cons.mpr ⟨by simp, List.nodup_range'⟩

theorem build_built (s : DLX) (r : Nat) (small : c < MAXSIZE + 10) :
    ∃ s', s.build r c = some s' ∧ Built s' [] ∧ s'.m = c ∧ s'.tot = c := by
  obtain ⟨t, ran, columns, m⟩ := columns_range { s with n := r, m := c } (Nat.succ_le_of_lt small)
  have fits : inside [0, c] = some () := inside_small (by simpa using small)
  have none : ∀ x : Nat, ¬ (c < x ∧ x ≤ c) := fun x between => by omega
  have built : s.build r c = some { t with
      L := put t.L 0 c, R := put t.R c 0, tot := c, first := fun _ => 0, siz := fun _ => 0 } := by
    simp only [build, ran, Option.bind_eq_bind, Option.bind_some, fits]
  refine ⟨_, built, ?_, m, rfl⟩
  have m' : t.m = c := m
  constructor
  · exact Nat.le_of_eq m'
  · intro r k
    refine iff_of_false ?_ List.not_mem_nil
    rintro ⟨x, node, _⟩
    exact none x (m' ▸ node)
  · intro x _ node
    exact absurd (m' ▸ node) (none x)
  · show Ring (put t.R c 0) (put t.L 0 c) 0 (List.range' 1 t.m)
    rw [m']
    refine ring_range' (fun i low => ⟨?_, ?_⟩) ⟨Function.update_self .., Function.update_self ..⟩
    · exact (Function.update_of_ne (Nat.ne_of_lt low) ..).trans (columns.links i (by omega)).2
    · exact (Function.update_of_ne (Nat.succ_ne_zero i) ..).trans (columns.links (i + 1) (by omega)).1
  · intro k _ high
    have set : k < c + 1 := Nat.lt_succ_of_le (high.trans (Nat.le_of_eq m'))
    refine ⟨[], Ring.self ⟨(columns.alone k set).2, (columns.alone k set).1⟩, fun x => ?_⟩
    refine iff_of_false List.not_mem_nil ?_
    rintro ⟨node, _⟩
    exact none x (m' ▸ node)
  · intro r _ x node
    exact absurd (m' ▸ node) (none x)
  · intro r used
    exact absurd rfl used

end build

section insert
variable {s : DLX} {calls : List (Nat × Nat)} {r k : Nat}

/-- The row links after `insert`: a ring of its own, or behind the first node of the row. -/
def insertedRow (s : DLX) (r : Nat) : (Nat → Nat) × (Nat → Nat) × (Nat → Nat) :=
  if s.first r = 0 then
    (put s.first r (s.tot + 1), put s.L (s.tot + 1) (s.tot + 1), put s.R (s.tot + 1) (s.tot + 1))
  else
    (s.first, put (put s.L (s.R (s.first r)) (s.tot + 1)) (s.tot + 1) (s.first r),
      put (put s.R (s.tot + 1) (s.R (s.first r))) (s.first r) (s.tot + 1))

def inserted (s : DLX) (r k : Nat) : DLX :=
  { s with
    tot := s.tot + 1
    col := put s.col (s.tot + 1) k
    row := put s.row (s.tot + 1) r
    siz := put s.siz k (s.siz k + 1)
    D := put (put s.D (s.tot + 1) (s.D k)) k (s.tot + 1)
    U := put (put s.U (s.D k) (s.tot + 1)) (s.tot + 1) k
    first := (s.insertedRow r).1
    L := (s.insertedRow r).2.1
    R := (s.insertedRow r).2.2 }

theorem put_ne {β : Type} {array : Nat → β} {i j : Nat} {value : β} (other : i ≠ j) : put array j value i = array i :=
  Function.update_of_ne other ..

@[simp] theorem put_self {β : Type} (array : Nat → β) (i : Nat) (value : β) : put array i value i = value :=
  Function.update_self ..

theorem Built.insert_eq (built : Built s calls) (column : 1 ≤ k ∧ k ≤ s.m) (row : r < MAXSIZE + 10)
    (room : s.tot + 1 < MAXSIZE + 10) : s.insert r k = some (s.inserted r k) := by
  have above := built.above
  have notNew : k ≠ s.tot + 1 := by omega
  have node : ∀ x, s.Node x → x < MAXSIZE + 10 := fun x node => by
    have bound := node.2
    omega
  obtain ⟨nodes, ring, members⟩ := built.column k column.1 column.2
  have below : s.D k < MAXSIZE + 10 := by
    rcases List.mem_cons.mp (ring.next_mem List.mem_cons_self) with same | inner
    · omega
    · exact node _ ((members _).mp inner).1
  have fits : inside [s.tot + 1, k, r, s.D k] = some () := inside_small (by
    simp only [List.mem_cons, List.not_mem_nil, or_false, forall_eq_or_imp, forall_eq]
    exact ⟨room, by omega, row, below⟩)
  simp only [insert, fits, Option.bind_eq_bind, Option.bind_some, put_ne notNew]
  by_cases free : s.first r = 0
  · simp only [if_pos free, inserted, insertedRow]
  · obtain ⟨here, _, others, line, inner⟩ := built.used r free
    have notFirst : s.first r ≠ s.tot + 1 := by
      have bound := here.2
      omega
    have fits' : inside [s.first r, s.R (s.first r)] = some () := inside_small (by
      simp only [List.mem_cons, List.not_mem_nil, or_false, forall_eq_or_imp, forall_eq]
      refine ⟨node _ here, ?_⟩
      rcases List.mem_cons.mp (line.next_mem List.mem_cons_self) with same | other
      · rw [same]
        exact node _ here
      · exact node _ ((inner _).mp other).1)
    simp only [if_neg free, fits', Option.bind_some, put_ne notFirst, inserted, insertedRow]

theorem Built.node_inserted (built : Built s calls) (x : Nat) :
    (s.inserted r k).Node x ↔ s.Node x ∨ x = s.tot + 1 := by
  have above := built.above
  simp only [Node, inserted]
  omega

theorem node_old {x : Nat} (node : s.Node x) : x ≠ s.tot + 1 := by
  have bound := node.2
  omega

theorem row_old {x : Nat} (node : s.Node x) : (s.inserted r k).row x = s.row x := put_ne (node_old node)

theorem col_old {x : Nat} (node : s.Node x) : (s.inserted r k).col x = s.col x := put_ne (node_old node)

@[simp] theorem row_new (s : DLX) (r k : Nat) : (s.inserted r k).row (s.tot + 1) = r := put_self ..

@[simp] theorem col_new (s : DLX) (r k : Nat) : (s.inserted r k).col (s.tot + 1) = k := put_self ..

theorem Built.has_inserted (built : Built s calls) (r' k' : Nat) :
    (s.inserted r k).Has r' k' ↔ (r', k') ∈ calls ++ [(r, k)] := by
  rw [List.mem_append, ← built.has, List.mem_singleton, Prod.mk.injEq]
  constructor
  · rintro ⟨x, node, row, column⟩
    rcases (built.node_inserted x).mp node with old | rfl
    · exact Or.inl ⟨x, old, (row_old old).symm.trans row, (col_old old).symm.trans column⟩
    · rw [row_new] at row
      rw [col_new] at column
      exact Or.inr ⟨row.symm, column.symm⟩
  · rintro (⟨x, old, row, column⟩ | ⟨rfl, rfl⟩)
    · exact ⟨x, (built.node_inserted x).mpr (Or.inl old), (row_old old).trans row, (col_old old).trans column⟩
    · exact ⟨_, (built.node_inserted _).mpr (Or.inr rfl), row_new .., col_new ..⟩

theorem Built.column_inserted (built : Built s calls) (column : 1 ≤ k ∧ k ≤ s.m) {c : Nat} (range : 1 ≤ c ∧ c ≤ s.m) :
    ∃ nodes, Ring (s.inserted r k).D (s.inserted r k).U c nodes ∧
      ∀ x, x ∈ nodes ↔ (s.inserted r k).Node x ∧ (s.inserted r k).col x = c := by
  have above := built.above
  obtain ⟨nodes, ring, members⟩ := built.column c range.1 range.2
  have outside : ∀ y ∈ c :: nodes, y ≠ s.tot + 1 := by
    intro y member
    rcases List.mem_cons.mp member with rfl | inner
    · omega
    · exact node_old ((members y).mp inner).1
  by_cases here : c = k
  · subst here
    refine ⟨(s.tot + 1) :: nodes, ring.insert fun member => outside _ member rfl, fun x => ?_⟩
    rw [List.mem_cons, members, built.node_inserted]
    constructor
    · rintro (rfl | ⟨old, column⟩)
      · exact ⟨Or.inr rfl, col_new ..⟩
      · exact ⟨Or.inl old, (col_old old).trans column⟩
    · rintro ⟨old | new, column⟩
      · exact Or.inr ⟨old, (col_old old).symm.trans column⟩
      · exact Or.inl new
  · obtain ⟨nodes', ring', members'⟩ := built.column k column.1 column.2
    have apart : ∀ y ∈ c :: nodes, ∀ z ∈ k :: nodes', y ≠ z := by
      rintro y member z member' rfl
      rcases List.mem_cons.mp member with rfl | inner
      · rcases List.mem_cons.mp member' with same | inner'
        · exact here same
        · have bound := ((members' y).mp inner').1.1
          omega
      · obtain ⟨node, there⟩ := (members y).mp inner
        rcases List.mem_cons.mp member' with rfl | inner'
        · have bound := node.1
          omega
        · exact here (there.symm.trans ((members' y).mp inner').2)
    refine ⟨nodes, ring.congr fun y member => ?_, fun x => ?_⟩
    · have head := apart y member k List.mem_cons_self
      have down := apart y member _ (ring'.next_mem List.mem_cons_self)
      exact ⟨(put_ne head).trans (put_ne (outside y member)), (put_ne (outside y member)).trans (put_ne down)⟩
    · rw [members, built.node_inserted]
      constructor
      · rintro ⟨old, column⟩
        exact ⟨Or.inl old, (col_old old).trans column⟩
      · rintro ⟨old | rfl, column⟩
        · exact ⟨old, (col_old old).symm.trans column⟩
        · rw [col_new] at column
          exact absurd column.symm here

theorem row_links {y : Nat} (old : y ≠ s.tot + 1)
    (other : s.first r = 0 ∨ (y ≠ s.first r ∧ y ≠ s.R (s.first r))) :
    (s.inserted r k).R y = s.R y ∧ (s.inserted r k).L y = s.L y := by
  simp only [inserted, insertedRow]
  split
  · exact ⟨put_ne old, put_ne old⟩
  · next used =>
    obtain ⟨notFirst, notRight⟩ := other.resolve_left used
    exact ⟨(put_ne notFirst).trans (put_ne old), (put_ne old).trans (put_ne notRight)⟩

theorem Built.right_first (built : Built s calls) (used : s.first r ≠ 0) :
    s.Node (s.R (s.first r)) ∧ s.row (s.R (s.first r)) = r := by
  obtain ⟨node, row, others, ring, members⟩ := built.used r used
  rcases List.mem_cons.mp (ring.next_mem List.mem_cons_self) with same | inner
  · rw [same]
    exact ⟨node, row⟩
  · obtain ⟨there, row', _⟩ := (members _).mp inner
    exact ⟨there, row'⟩

theorem Built.header_inserted (built : Built s calls) :
    Ring (s.inserted r k).R (s.inserted r k).L 0 (List.range' 1 s.m) := by
  refine built.header.congr fun y member => ?_
  have low : y ≤ s.m := by
    rcases List.mem_cons.mp member with rfl | inner
    · exact Nat.zero_le _
    · have bound := (List.mem_range'_1.mp inner).2
      omega
  have above := built.above
  have head : ∀ x, s.Node x → y ≠ x := fun x node => by
    have bound := node.1
    omega
  refine row_links (by omega) ?_
  by_cases used : s.first r = 0
  · exact Or.inl used
  · exact Or.inr ⟨head _ (built.used r used).1, head _ (built.right_first used).1⟩

theorem Built.own_inserted (built : Built s calls) :
    (s.inserted r k).first r ≠ 0 ∧ (s.inserted r k).Node ((s.inserted r k).first r) ∧
      (s.inserted r k).row ((s.inserted r k).first r) = r ∧
      ∃ others, Ring (s.inserted r k).R (s.inserted r k).L ((s.inserted r k).first r) others ∧
        ∀ x, x ∈ others ↔ (s.inserted r k).Node x ∧ (s.inserted r k).row x = r ∧ x ≠ (s.inserted r k).first r := by
  by_cases used : s.first r = 0
  · have first : (s.inserted r k).first r = s.tot + 1 := by simp [inserted, insertedRow, used]
    have right : (s.inserted r k).R (s.tot + 1) = s.tot + 1 := by simp [inserted, insertedRow, used]
    have left : (s.inserted r k).L (s.tot + 1) = s.tot + 1 := by simp [inserted, insertedRow, used]
    rw [first]
    refine ⟨Nat.succ_ne_zero _, (built.node_inserted _).mpr (Or.inr rfl), row_new .., [], Ring.self ⟨right, left⟩, ?_⟩
    intro x
    refine iff_of_false List.not_mem_nil ?_
    rintro ⟨node, row, other⟩
    rcases (built.node_inserted x).mp node with old | new
    · exact built.unused r used x old ((row_old old).symm.trans row)
    · exact other new
  · obtain ⟨node, row, others, ring, members⟩ := built.used r used
    have first : (s.inserted r k).first r = s.first r := by simp [inserted, insertedRow, used]
    have outside : s.tot + 1 ∉ s.first r :: others := by
      intro member
      rcases List.mem_cons.mp member with same | inner
      · exact node_old node same.symm
      · exact node_old ((members _).mp inner).1 rfl
    have links : (s.inserted r k).R = put (put s.R (s.tot + 1) (s.R (s.first r))) (s.first r) (s.tot + 1) ∧
        (s.inserted r k).L = put (put s.L (s.R (s.first r)) (s.tot + 1)) (s.tot + 1) (s.first r) := by
      simp [inserted, insertedRow, used]
    rw [first, links.1, links.2]
    refine ⟨used, (built.node_inserted _).mpr (Or.inl node), (row_old node).trans row, _, ring.insert outside, ?_⟩
    intro x
    rw [List.mem_cons, members, built.node_inserted]
    constructor
    · rintro (rfl | ⟨old, row', other⟩)
      · exact ⟨Or.inr rfl, row_new .., (node_old node).symm⟩
      · exact ⟨Or.inl old, (row_old old).trans row', other⟩
    · rintro ⟨old | new, row', other⟩
      · exact Or.inr ⟨old, (row_old old).symm.trans row', other⟩
      · exact Or.inl new

theorem first_other {r' : Nat} (other : r' ≠ r) : (s.inserted r k).first r' = s.first r' := by
  simp only [inserted, insertedRow]
  split
  · exact put_ne other
  · rfl

theorem Built.other_inserted (built : Built s calls) {r' : Nat} (other : r' ≠ r) (used : s.first r' ≠ 0) :
    (s.inserted r k).Node (s.first r') ∧ (s.inserted r k).row (s.first r') = r' ∧
      ∃ others, Ring (s.inserted r k).R (s.inserted r k).L (s.first r') others ∧
        ∀ x, x ∈ others ↔ (s.inserted r k).Node x ∧ (s.inserted r k).row x = r' ∧ x ≠ s.first r' := by
  obtain ⟨node, row, others, ring, members⟩ := built.used r' used
  have whole : ∀ y ∈ s.first r' :: others, s.Node y ∧ s.row y = r' := by
    intro y member
    rcases List.mem_cons.mp member with rfl | inner
    · exact ⟨node, row⟩
    · exact ⟨((members y).mp inner).1, ((members y).mp inner).2.1⟩
  refine ⟨(built.node_inserted _).mpr (Or.inl node), (row_old node).trans row, others, ?_, ?_⟩
  · refine ring.congr fun y member => ?_
    obtain ⟨here, row'⟩ := whole y member
    refine row_links (node_old here) ?_
    by_cases free : s.first r = 0
    · exact Or.inl free
    · refine Or.inr ⟨?_, ?_⟩
      · rintro rfl
        exact other (row'.symm.trans (built.used r free).2.1)
      · rintro rfl
        exact other (row'.symm.trans (built.right_first free).2)
  · intro x
    rw [members, built.node_inserted]
    constructor
    · rintro ⟨old, row', apart⟩
      exact ⟨Or.inl old, (row_old old).trans row', apart⟩
    · rintro ⟨old | rfl, row', apart⟩
      · exact ⟨old, (row_old old).symm.trans row', apart⟩
      · rw [row_new] at row'
        exact absurd row'.symm other

theorem Built.insert (built : Built s calls) (column : 1 ≤ k ∧ k ≤ s.m) (new : (r, k) ∉ calls) :
    Built (s.inserted r k) (calls ++ [(r, k)]) := by
  have fresh : ∀ x, s.Node x → s.row x = r → s.col x = k → False := fun x node row column =>
    new ((built.has r k).mp ⟨x, node, row, column⟩)
  constructor
  · exact Nat.le_succ_of_le built.above
  · exact built.has_inserted
  · intro x y node node' row column'
    rcases (built.node_inserted x).mp node with old | rfl
    · rcases (built.node_inserted y).mp node' with old' | rfl
      · rw [row_old old, row_old old'] at row
        rw [col_old old, col_old old'] at column'
        exact built.apart x y old old' row column'
      · rw [row_old old, row_new] at row
        rw [col_old old, col_new] at column'
        exact (fresh x old row column').elim
    · rcases (built.node_inserted y).mp node' with old' | rfl
      · rw [row_old old', row_new] at row
        rw [col_old old', col_new] at column'
        exact (fresh y old' row.symm column'.symm).elim
      · rfl
  · exact built.header_inserted
  · exact fun c low high => built.column_inserted column ⟨low, high⟩
  · intro r' free x node
    have other : r' ≠ r := by
      rintro rfl
      exact built.own_inserted.1 free
    rw [first_other other] at free
    rcases (built.node_inserted x).mp node with old | rfl
    · rw [row_old old]
      exact built.unused r' free x old
    · rw [row_new]
      exact other.symm
  · intro r' used
    by_cases same : r' = r
    · subst same
      exact built.own_inserted.2
    · rw [first_other same] at used ⊢
      exact built.other_inserted same used

def insertAll (calls : List (Nat × Nat)) (s : DLX) : Option DLX :=
  calls.foldlM (fun s call => s.insert call.1 call.2) s

theorem Built.insertAll (built : Built s calls) {more : List (Nat × Nat)} (distinct : (calls ++ more).Nodup)
    (columns : ∀ call ∈ more, 1 ≤ call.2 ∧ call.2 ≤ s.m) (rows : ∀ call ∈ more, call.1 < MAXSIZE + 10)
    (room : s.tot + more.length < MAXSIZE + 10) :
    ∃ s', DLX.insertAll more s = some s' ∧ Built s' (calls ++ more) ∧ s'.m = s.m ∧ s'.tot = s.tot + more.length := by
  induction more generalizing s calls with
  | nil => exact ⟨s, rfl, by simpa using built, rfl, rfl⟩
  | cons call more ih =>
    obtain ⟨r, k⟩ := call
    rw [List.length_cons] at room
    have column := columns (r, k) (by simp)
    have new : (r, k) ∉ calls := by
      rw [List.nodup_append] at distinct
      exact fun old => distinct.2.2 _ old (r, k) (by simp) rfl
    have ran := built.insert_eq column (rows (r, k) (by simp)) (by omega)
    have shape : calls ++ (r, k) :: more = calls ++ [(r, k)] ++ more := by simp
    rw [shape] at distinct ⊢
    obtain ⟨s', rest, built', m, tot⟩ := ih (built.insert column new) distinct
      (fun call member => columns call (List.mem_cons_of_mem _ member))
      (fun call member => rows call (List.mem_cons_of_mem _ member)) (show s.tot + 1 + more.length < MAXSIZE + 10 by omega)
    refine ⟨s', ?_, built', m, ?_⟩
    · rw [DLX.insertAll, List.foldlM_cons, ran]
      exact rest
    · rw [tot, List.length_cons]
      show s.tot + 1 + more.length = _
      omega

end insert

section solve
variable {s : DLX} {calls : List (Nat × Nat)} {c : Nat}

def withAns (s : DLX) (ans : Nat → Nat → Int) : DLX := { s with ans := ans }

theorem Layout.withAns {C : Set Nat} {headers : List Nat} {nodes others : Nat → List Nat}
    (layout : Layout s C headers nodes others) (ans : Nat → Nat → Int) :
    Layout (s.withAns ans) C headers nodes others :=
  ⟨layout.bounded, layout.column, layout.apart, layout.range, layout.header, layout.mem_header,
    layout.ring, layout.mem_ring, layout.line, layout.mem_line⟩

def columns (c : Nat) : Set Nat := {k | 1 ≤ k ∧ k ≤ c}

theorem Built.line (built : Built s calls) {x : Nat} (node : s.Node x) :
    ∃ others, Ring s.R s.L x others ∧ ∀ y, y ∈ others ↔ s.Node y ∧ s.row y = s.row x ∧ y ≠ x := by
  have used : s.first (s.row x) ≠ 0 := fun free => built.unused _ free x node rfl
  obtain ⟨here, row, others, ring, members⟩ := built.used _ used
  by_cases first : x = s.first (s.row x)
  · rw [← first] at ring members
    exact ⟨others, ring, members⟩
  · obtain ⟨before, after, rfl⟩ := List.append_of_mem ((members x).mpr ⟨node, rfl, first⟩)
    refine ⟨_, ring.rotate, fun y => ?_⟩
    have apart := ring.rotate.nodup
    have same : y ∈ after ++ s.first (s.row x) :: before ↔
        (y = s.first (s.row x) ∨ y ∈ before ++ x :: after) ∧ y ≠ x := by
      have other : y ∈ after ++ s.first (s.row x) :: before → y ≠ x := by
        rintro member rfl
        exact (List.nodup_cons.mp apart).1 member
      simp only [List.mem_append, List.mem_cons] at other ⊢
      tauto
    rw [same, members]
    constructor
    · rintro ⟨rfl | ⟨there, row', _⟩, other⟩
      · exact ⟨here, row, other⟩
      · exact ⟨there, row', other⟩
    · rintro ⟨there, row', other⟩
      by_cases head : y = s.first (s.row x)
      · exact ⟨Or.inl head, other⟩
      · exact ⟨Or.inr ⟨there, row', head⟩, other⟩

theorem Built.layout (built : Built s calls) (columns_ : ∀ call ∈ calls, 1 ≤ call.2 ∧ call.2 ≤ s.m)
    (small : s.tot < MAXSIZE + 10) :
    ∃ nodes others, Layout s (columns s.m) (List.range' 1 s.m) nodes others := by
  choose! nodes ring members using fun k => fun range : 1 ≤ k ∧ k ≤ s.m => built.column k range.1 range.2
  choose! others line inner using fun x => fun node : s.Node x => built.line node
  have call : ∀ {r k}, s.Has r k → 1 ≤ k ∧ k ≤ s.m := fun has => columns_ _ ((built.has _ _).mp has)
  refine ⟨nodes, others, ⟨built.above, small⟩, fun x node => call ⟨x, node, rfl, rfl⟩, built.apart,
    fun k range => range, built.header, ?_, ring, ?_, line, inner⟩
  · intro k
    rw [List.mem_range'_1]
    show _ ↔ 1 ≤ k ∧ k ≤ s.m
    omega
  · intro k range x
    rw [members k range]
    constructor
    · rintro ⟨node, column⟩
      exact ⟨⟨node, fun k' has => call has⟩, column⟩
    · rintro ⟨active, column⟩
      exact ⟨active.1, column⟩

theorem solve (memory : DLX) (r : Nat) (distinct : calls.Nodup) (columns_ : ∀ call ∈ calls, 1 ≤ call.2 ∧ call.2 ≤ c)
    (rows : ∀ call ∈ calls, 1 ≤ call.1 ∧ call.1 ≤ 729) (small : c + calls.length < MAXSIZE) :
    ∃ s, (memory.build r c).bind (insertAll calls) = some s ∧ (∀ r k, s.Has r k ↔ (r, k) ∈ calls) ∧
      ∀ ans, ∃ result,
        (∀ loops fuel, c + calls.length < loops → c < fuel → (s.withAns ans).dance loops fuel 1 = some result) ∧
          Result (s.withAns ans) (columns c) 1 result := by
  obtain ⟨empty, began, built, m, tot⟩ := build_built (c := c) memory r (by omega)
  obtain ⟨s, inserted, built, m', tot'⟩ := built.insertAll distinct (fun call member => m.symm ▸ columns_ call member)
    (fun call member => Nat.lt_of_le_of_lt (rows call member).2 (by decide)) (by omega)
  rw [m] at m'
  rw [tot] at tot'
  rw [List.nil_append] at built
  obtain ⟨nodes, others, layout⟩ := built.layout (m'.symm ▸ columns_) (by omega)
  rw [m'] at layout
  refine ⟨s, ?_, built.has, fun ans => ?_⟩
  · rw [began]
    exact inserted
  · have wide : (List.range' 1 c).length = c := List.length_range'
    have turns : (s.withAns ans).tot < c + calls.length + 1 := by
      show s.tot < _
      omega
    have room : 1 + (List.range' 1 c).length ≤ (s.withAns ans).m + 1 := by
      show _ ≤ s.m + 1
      omega
    have decodable : Decodable (s.withAns ans) 1 := by
      refine ⟨?_, ?_, fun i low high => by omega⟩
      · show s.m < MAXSIZE
        omega
      · exact fun x node => rows _ ((built.has _ _).mp ⟨x, node, rfl, rfl⟩)
    obtain ⟨result, ran, right⟩ :=
      dance_spec (layout.withAns ans) turns (Nat.lt_succ_of_le (Nat.le_of_eq wide)) room decodable
    refine ⟨result, fun loops fuel turns deep => ?_, right⟩
    exact dance_more turns deep 1 _ result ran

end solve

/-- `dance(1)` after `build` and any distinct insertions returns, and it returns 1 exactly
when some rows cover every column once; the rows it has put on the stack are such rows. -/
theorem dance_exact_cover (memory : DLX) (c r : Nat) (calls : List (Nat × Nat)) (distinct : calls.Nodup)
    (columns_ : ∀ call ∈ calls, 1 ≤ call.2 ∧ call.2 ≤ c) (rows : ∀ call ∈ calls, 1 ≤ call.1 ∧ call.1 ≤ 729)
    (small : c + calls.length < MAXSIZE) :
    ∃ (s : DLX) (found : Option Nat) (s' : DLX), (memory.build r c).bind (insertAll calls) = some s ∧
      (∀ loops fuel, c + calls.length < loops → c < fuel → s.dance loops fuel 1 = some (found, s')) ∧
      (found.isSome ↔ ∃ S : Set Nat, ∀ k, 1 ≤ k → k ≤ c → ∃! r, r ∈ S ∧ (r, k) ∈ calls) ∧
      ∀ d, found = some d →
        (∀ i, 1 ≤ i → i < d → ∃ k, (s'.stk i, k) ∈ calls) ∧
          (∀ i j, 1 ≤ i → i < j → j < d → s'.stk i ≠ s'.stk j) ∧
          ∀ k, 1 ≤ k → k ≤ c → ∃! i, (1 ≤ i ∧ i < d) ∧ (s'.stk i, k) ∈ calls := by
  obtain ⟨s, made, has, search⟩ := solve memory r distinct columns_ rows small
  obtain ⟨⟨found, s'⟩, ran, right⟩ : ∃ result,
      (∀ loops fuel, c + calls.length < loops → c < fuel → s.dance loops fuel 1 = some result) ∧
        Result s (columns c) 1 result := search s.ans
  refine ⟨s, found, s', made, ran, ?_, ?_⟩
  · cases found with
    | some d =>
      refine iff_of_true rfl ⟨s'.chosen 1 d, fun k low high => ?_⟩
      simpa only [has] using right.cover.once k ⟨low, high⟩
    | none =>
      refine iff_of_false (by simp) ?_
      rintro ⟨S, once⟩
      refine right.unsolvable ⟨S, ?_, ?_⟩
      · exact fun r _ k inside => columns_ (r, k) ((has r k).mp inside)
      · rintro k ⟨low, high⟩
        simpa only [has] using once k low high
  · rintro d rfl
    have found : Found s (columns c) 1 s' d := right
    refine ⟨?_, found.apart, ?_⟩
    · intro i low high
      obtain ⟨k, inside⟩ := found.row i low high
      exact ⟨k, (has _ k).mp inside⟩
    · intro k low high
      obtain ⟨_, ⟨⟨i, first, last, rfl⟩, inside⟩, only⟩ := found.cover.once k ⟨low, high⟩
      refine ⟨i, ⟨⟨first, last⟩, (has _ k).mp inside⟩, ?_⟩
      rintro j ⟨⟨first', last'⟩, inside'⟩
      have same : s'.stk j = s'.stk i := only _ ⟨⟨j, first', last', rfl⟩, (has _ k).mpr inside'⟩
      rcases Nat.lt_trichotomy j i with less | equal | less
      · exact absurd same (found.apart j i first' less last)
      · exact equal
      · exact absurd same.symm (found.apart i j first less last')

def zeros : DLX :=
  ⟨0, 0, 0, fun _ => 0, fun _ => 0, fun _ => 0, fun _ => 0, fun _ => 0, fun _ => 0, fun _ => 0, fun _ => 0,
    fun _ => 0, fun _ _ => 0⟩

theorem dance_exact_cover_three : ∃ (s : DLX) (d : Nat) (s' : DLX),
    (zeros.build 3 3).bind (insertAll [(1, 1), (2, 2), (1, 3), (3, 2), (3, 3)]) = some s ∧
      ∀ loops fuel, 8 < loops → 3 < fuel → s.dance loops fuel 1 = some (some d, s') := by
  obtain ⟨s, found, s', made, ran, solvable, _⟩ := dance_exact_cover zeros 3 3
    [(1, 1), (2, 2), (1, 3), (3, 2), (3, 3)] (by decide) (by decide) (by decide) (by decide)
  have cover : found.isSome := by
    refine solvable.mpr ⟨fun r => r = 1 ∨ r = 2, fun k low high => ?_⟩
    obtain rfl | rfl | rfl : k = 1 ∨ k = 2 ∨ k = 3 := by omega
    · exact ⟨1, ⟨Or.inl rfl, by decide⟩, by rintro r ⟨rfl | rfl, inside⟩ <;> simp_all⟩
    · exact ⟨2, ⟨Or.inr rfl, by decide⟩, by rintro r ⟨rfl | rfl, inside⟩ <;> simp_all⟩
    · exact ⟨1, ⟨Or.inl rfl, by decide⟩, by rintro r ⟨rfl | rfl, inside⟩ <;> simp_all⟩
  obtain ⟨d, rfl⟩ := Option.isSome_iff_exists.mp cover
  exact ⟨s, d, s', made, ran⟩

end DLX

end CloudLab.Sudoku
