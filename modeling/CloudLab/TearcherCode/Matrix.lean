import CloudLab.TearcherCode.Search
import CloudLab.Sudoku.Build

/-! The matrix that the constructor makes: its columns in order, and behind them four nodes for every
value that a blank cell may have. -/

namespace CloudLab.TearcherCode
open Links
open Sudoku (DLX put MAXSIZE)
open Sudoku.DLX

def neededNames (given : Given) (iv : Nat × Nat) : List Nat :=
  (if !given.rows iv.1 iv.2 then [Dance.get_row_col iv.1 iv.2] else []) ++
    (if !given.cols iv.1 iv.2 then [Dance.get_col_col iv.1 iv.2] else []) ++
      if !given.boxes iv.1 iv.2 then [Dance.get_box_col iv.1 iv.2] else []

def columnNames (inout : Board) : List Nat :=
  ((List.finRange 81).filter (inout · = 0)).map Fin.val ++
    ((List.range 9).flatMap fun i => values.map fun v => (i, v)).flatMap (neededNames (givenOf inout))

def fits (given : Given) (i : Cell) (v : Nat) : Bool :=
  !(given.rows (row i) v || given.cols (col i) v || given.boxes (box i) v)

def candidates (inout : Board) : List (Cell × Nat) :=
  ((List.finRange 81).filter (inout · = 0)).flatMap fun i => (values.filter (fits (givenOf inout) i)).map fun v => (i, v)

def candidateNames (c : Cell × Nat) : List Nat :=
  [c.1.val, Dance.get_row_col (row c.1) c.2, Dance.get_col_col (col c.1) c.2, Dance.get_box_col (box c.1) c.2]

namespace Dance

/-! Single steps. -/

/-- What `new_row` does when its assertions hold and the column is `k`. -/
def newNode (n k : Nat) (d : Dance) : Dance :=
  ({ d with
    cur_node_ := d.cur_node_ + 1
    left := put d.left d.cur_node_ d.cur_node_
    right := put d.right d.cur_node_ d.cur_node_
    up := put d.up d.cur_node_ d.cur_node_
    down := put d.down d.cur_node_ d.cur_node_
    name := put d.name d.cur_node_ n
    col := put d.col d.cur_node_ k
    size := put d.size d.cur_node_ 0 } : Dance).put_up k d.cur_node_

section steps
variable {d : Dance} {n k old nnew x : Nat} {nodes : List Nat}

theorem new_row_eq (small : n < 400) (column : d.columns_ n = some k) (room : d.cur_node_ < kMaxNodes) :
    d.new_row n = some (d.cur_node_, d.newNode n k) := by
  have read : put d.col d.cur_node_ k d.cur_node_ = k := put_self ..
  simp only [new_row, if_pos small, column, Option.bind_eq_bind, Option.bind_some, if_pos room, read]
  rfl

@[simp] theorem newNode_cur : (d.newNode n k).cur_node_ = d.cur_node_ + 1 := rfl
@[simp] theorem newNode_columns : (d.newNode n k).columns_ = d.columns_ := rfl
@[simp] theorem newNode_root : (d.newNode n k).root_ = d.root_ := rfl
@[simp] theorem newNode_stack : (d.newNode n k).stack_ = d.stack_ := rfl
@[simp] theorem newNode_inout : (d.newNode n k).inout_ = d.inout_ := rfl
@[simp] theorem newNode_left : (d.newNode n k).left = put d.left d.cur_node_ d.cur_node_ := rfl
@[simp] theorem newNode_right : (d.newNode n k).right = put d.right d.cur_node_ d.cur_node_ := rfl
@[simp] theorem newNode_name : (d.newNode n k).name = put d.name d.cur_node_ n := rfl
@[simp] theorem newNode_col : (d.newNode n k).col = put d.col d.cur_node_ k := by
  simp [newNode, put_up, put]

@[simp] theorem put_left_cur : (d.put_left old nnew).cur_node_ = d.cur_node_ := rfl
@[simp] theorem put_left_columns : (d.put_left old nnew).columns_ = d.columns_ := rfl
@[simp] theorem put_left_root : (d.put_left old nnew).root_ = d.root_ := rfl
@[simp] theorem put_left_stack : (d.put_left old nnew).stack_ = d.stack_ := rfl
@[simp] theorem put_left_inout : (d.put_left old nnew).inout_ = d.inout_ := rfl
@[simp] theorem put_left_up : (d.put_left old nnew).up = d.up := rfl
@[simp] theorem put_left_down : (d.put_left old nnew).down = d.down := rfl
@[simp] theorem put_left_name : (d.put_left old nnew).name = d.name := rfl
@[simp] theorem put_left_col : (d.put_left old nnew).col = d.col := rfl

theorem put_left_ring (ring : Ring d.right d.left old nodes) (new : nnew ∉ old :: nodes) :
    Ring (d.put_left old nnew).right (d.put_left old nnew).left old (nodes ++ [nnew]) := by
  have other : old ≠ nnew := fun same => new (same ▸ List.mem_cons_self)
  have read : put d.left nnew (d.left old) old = d.left old := put_ne other
  have right : (d.put_left old nnew).right = put (put d.right nnew old) (d.left old) nnew := by
    simp only [put_left, read]
  rw [right]
  exact ring.append new

theorem put_left_other (first : x ≠ nnew) (second : x ≠ old) (third : x ≠ d.left old) (apart : old ≠ nnew) :
    (d.put_left old nnew).right x = d.right x ∧ (d.put_left old nnew).left x = d.left x := by
  have read : put d.left nnew (d.left old) old = d.left old := put_ne apart
  simp only [put_left, read]
  exact ⟨(put_ne third).trans (put_ne first), (put_ne second).trans (put_ne first)⟩

theorem newNode_ring (ring : Ring d.down d.up k nodes) (new : d.cur_node_ ∉ k :: nodes) :
    Ring (d.newNode n k).down (d.newNode n k).up k (nodes ++ [d.cur_node_]) := by
  have other : k ≠ d.cur_node_ := fun same => new (same ▸ List.mem_cons_self)
  have above : d.up k ≠ d.cur_node_ := fun same => new (same ▸ ring.prev_mem List.mem_cons_self)
  have up : (d.newNode n k).up = put (put d.up d.cur_node_ (d.up k)) k d.cur_node_ := by
    simp only [newNode, put_up, put_ne other]
    simp [put]
  have down : (d.newNode n k).down = put (put d.down d.cur_node_ k) (d.up k) d.cur_node_ := by
    simp only [newNode, put_up, put_ne other]
    simp [put]
  rw [up, down]
  exact ring.append new

theorem newNode_other (other : k ≠ d.cur_node_) (first : x ≠ d.cur_node_) (second : x ≠ k) (third : x ≠ d.up k) :
    (d.newNode n k).down x = d.down x ∧ (d.newNode n k).up x = d.up x := by
  simp only [newNode, put_up, put_ne other]
  constructor
  · exact (put_ne third).trans ((put_ne first).trans (put_ne first))
  · exact (put_ne second).trans ((put_ne first).trans (put_ne first))

end steps

/-! The columns. -/

structure Columned (d : Dance) (names : List Nat) : Prop where
  root : d.root_ = 0
  cur : d.cur_node_ = names.length + 1
  header : Ring d.right d.left 0 (List.range' 1 names.length)
  alone : ∀ k, 1 ≤ k → k ≤ names.length → d.down k = k ∧ d.up k = k
  columns : ∀ n k, d.columns_ n = some k ↔ 1 ≤ k ∧ names[k - 1]? = some n

section columned
variable {d : Dance} {names : List Nat} {n : Nat}

theorem Columned.append (columned : Columned d names) (small : n < 400) (new : n ∉ names)
    (room : names.length + 1 < kMaxNodes) :
    ∃ d', d.append_column n = some d' ∧ Columned d' (names ++ [n]) ∧ d'.inout_ = d.inout_ ∧ d'.stack_ = d.stack_ := by
  have free : d.columns_ n = none := by
    by_contra taken
    obtain ⟨k, column⟩ := Option.ne_none_iff_exists'.mp taken
    exact new (List.mem_of_getElem? ((columned.columns n k).mp column).2)
  have cur := columned.cur
  have room' : d.cur_node_ < kMaxNodes := cur ▸ room
  -- the new column, before it joins the ring of the root
  let d₁ : Dance := { d with
    cur_node_ := d.cur_node_ + 1
    left := put d.left d.cur_node_ d.cur_node_
    right := put d.right d.cur_node_ d.cur_node_
    up := put d.up d.cur_node_ d.cur_node_
    down := put d.down d.cur_node_ d.cur_node_
    col := put d.col d.cur_node_ d.cur_node_
    name := put d.name d.cur_node_ n
    size := put d.size d.cur_node_ 0 }
  have made : d.new_column n = some (d.cur_node_, d₁) := if_pos room'
  have outside : d.cur_node_ ∉ 0 :: List.range' 1 names.length := by
    simp only [List.mem_cons, List.mem_range'_1]
    omega
  have header : Ring d₁.right d₁.left 0 (List.range' 1 names.length) := by
    refine columned.header.congr fun y member => ?_
    have other : y ≠ d.cur_node_ := fun same => outside (same ▸ member)
    exact ⟨put_ne other, put_ne other⟩
  have longer : (names ++ [n]).length = names.length + 1 := by simp
  refine ⟨{ d₁.put_left 0 d.cur_node_ with columns_ := put d.columns_ n (some d.cur_node_) }, ?_, ⟨columned.root, ?_, ?_,
    fun k low high => ?_, fun n' k => ?_⟩, rfl, rfl⟩
  · have root : d₁.root_ = 0 := columned.root
    have columns : (d₁.put_left 0 d.cur_node_).columns_ = d.columns_ := rfl
    simp only [append_column, if_pos (And.intro small free), made, Option.bind_eq_bind, Option.bind_some, root, columns]
  · rw [longer, ← cur]
    rfl
  · rw [longer, List.range'_concat, Nat.one_mul, Nat.add_comm 1, ← cur]
    exact put_left_ring header outside
  · rw [longer] at high
    show put d.down d.cur_node_ d.cur_node_ k = k ∧ put d.up d.cur_node_ d.cur_node_ k = k
    by_cases here : k = d.cur_node_
    · rw [here, put_self, put_self]
      exact ⟨rfl, rfl⟩
    · rw [put_ne here, put_ne here]
      exact columned.alone k low (by omega)
  · show put d.columns_ n (some d.cur_node_) n' = some k ↔ _
    rw [List.getElem?_append]
    by_cases here : n' = n
    · subst here
      rw [put_self]
      constructor
      · intro same
        obtain rfl := Option.some.inj same
        refine ⟨by omega, ?_⟩
        rw [if_neg (by omega), cur]
        simp
      · rintro ⟨low, found⟩
        split at found
        · exact absurd (List.mem_of_getElem? found) new
        · next beyond =>
          have index := (List.getElem?_eq_some_iff.mp found).1
          rw [List.length_singleton] at index
          exact congrArg some (by omega)
    · rw [put_ne here, columned.columns]
      refine and_congr_right fun low => ?_
      split
      · exact Iff.rfl
      · next beyond =>
        rw [List.getElem?_eq_none (not_lt.mp beyond)]
        refine iff_of_false (by simp) fun found => here ?_
        exact (List.mem_singleton.mp (List.mem_of_getElem? found))

theorem Columned.appendAll (columned : Columned d names) (more : List Nat) (distinct : (names ++ more).Nodup)
    (small : ∀ n ∈ more, n < 400) (room : names.length + more.length < kMaxNodes) :
    ∃ d', more.foldlM (fun d n => append_column n d) d = some d' ∧ Columned d' (names ++ more) ∧
      d'.inout_ = d.inout_ ∧ d'.stack_ = d.stack_ := by
  induction more generalizing d names with
  | nil =>
    rw [List.append_nil]
    exact ⟨d, rfl, columned, rfl, rfl⟩
  | cons n more ih =>
    rw [List.length_cons] at room
    have new : n ∉ names := fun member => (List.nodup_append.mp distinct).2.2 n member n List.mem_cons_self rfl
    obtain ⟨d₁, first, columned₁, inout₁, stack₁⟩ :=
      columned.append (small n List.mem_cons_self) new (by omega)
    rw [List.append_cons] at distinct ⊢
    obtain ⟨d', ran, columned', inout', stack'⟩ := ih columned₁ distinct
      (fun n member => small n (List.mem_cons_of_mem _ member)) (by rw [List.length_append, List.length_singleton]; omega)
    refine ⟨d', ?_, columned', inout'.trans inout₁, stack'.trans stack₁⟩
    rw [List.foldlM_cons, first]
    exact ran

end columned

/-! The rows. -/

/-- The rings of the columns `1` to `m` hold the nodes behind them. -/
structure Hung (d : Dance) (m : Nat) : Prop where
  above : m < d.cur_node_
  header : Ring d.right d.left 0 (List.range' 1 m)
  column : ∀ k, 1 ≤ k → k ≤ m → ∃ nodes, Ring d.down d.up k nodes ∧
    ∀ x, x ∈ nodes ↔ (m < x ∧ x < d.cur_node_) ∧ d.col x = k
  target : ∀ x, m < x → x < d.cur_node_ → d.columns_ (d.name x) = some (d.col x)

section hung
variable {d : Dance} {m n k old nnew : Nat} {nodes : List Nat}

theorem Columned.hung {names : List Nat} (columned : Columned d names) : Hung d names.length := by
  have cur := columned.cur
  refine ⟨by omega, columned.header, fun k low high => ?_, fun x low high => by omega⟩
  obtain ⟨down, up⟩ := columned.alone k low high
  refine ⟨[], Ring.self ⟨down, up⟩, fun x => iff_of_false List.not_mem_nil ?_⟩
  rintro ⟨⟨low', high'⟩, _⟩
  omega

theorem Hung.newNode (hung : Hung d m) (column : d.columns_ n = some k) (range : 1 ≤ k ∧ k ≤ m) :
    Hung (d.newNode n k) m := by
  have above := hung.above
  refine ⟨Nat.lt_succ_of_lt above, ?_, fun c low high => ?_, fun x low high => ?_⟩
  · refine hung.header.congr fun y member => ?_
    have other : y ≠ d.cur_node_ := by
      simp only [List.mem_cons, List.mem_range'_1] at member
      omega
    exact ⟨put_ne other, put_ne other⟩
  · obtain ⟨nodes, ring, members⟩ := hung.column c low high
    have fresh : d.cur_node_ ∉ c :: nodes := by
      intro member
      rcases List.mem_cons.mp member with same | inner
      · omega
      · have bound := ((members _).mp inner).1.2
        omega
    by_cases here : c = k
    · subst here
      refine ⟨nodes ++ [d.cur_node_], newNode_ring ring fresh, fun x => ?_⟩
      rw [List.mem_append, List.mem_singleton, members, newNode_cur, newNode_col]
      by_cases last : x = d.cur_node_
      · subst last
        simp [above]
      · rw [put_ne last]
        constructor
        · rintro (⟨⟨low', high'⟩, column'⟩ | same)
          · exact ⟨⟨low', by omega⟩, column'⟩
          · exact absurd same last
        · rintro ⟨⟨low', high'⟩, column'⟩
          exact Or.inl ⟨⟨low', by omega⟩, column'⟩
    · obtain ⟨nodes', ring', members'⟩ := hung.column k range.1 range.2
      -- the rings of two columns are apart
      have apart : ∀ x ∈ c :: nodes, x ∉ k :: nodes' := by
        intro x member member'
        rcases List.mem_cons.mp member with rfl | inner
        · rcases List.mem_cons.mp member' with same | inner'
          · exact here same
          · have bound := ((members' _).mp inner').1.1
            omega
        · obtain ⟨bound, column₁⟩ := (members _).mp inner
          rcases List.mem_cons.mp member' with same | inner'
          · omega
          · exact here (column₁.symm.trans ((members' _).mp inner').2)
      refine ⟨nodes, ring.congr fun y member => ?_, fun x => ?_⟩
      · refine newNode_other (by omega) (fun same => fresh (same ▸ member)) (fun same => ?_) fun same => ?_
        · exact apart y member (same ▸ List.mem_cons_self)
        · exact apart y member (same ▸ ring'.prev_mem List.mem_cons_self)
      · rw [members, newNode_cur, newNode_col]
        by_cases last : x = d.cur_node_
        · subst last
          rw [put_self]
          exact iff_of_false (fun bad => absurd bad.1.2 (lt_irrefl _)) fun bad => here bad.2.symm
        · rw [put_ne last]
          refine and_congr_left fun _ => and_congr_right fun _ => ?_
          omega
  · rw [newNode_columns, newNode_name, newNode_col]
    by_cases last : x = d.cur_node_
    · subst last
      rw [put_self, put_self]
      exact column
    · rw [put_ne last, put_ne last]
      rw [newNode_cur] at high
      exact hung.target x low (by omega)

theorem Hung.put_left (hung : Hung d m) (first : m < old) (second : m < nnew) (third : m < d.left old)
    (apart : old ≠ nnew) : Hung (d.put_left old nnew) m := by
  refine ⟨hung.above, hung.header.congr fun y member => ?_, hung.column, hung.target⟩
  simp only [List.mem_cons, List.mem_range'_1] at member
  exact put_left_other (by omega) (by omega) (by omega) apart

end hung

/-- These candidates have been added behind the columns: the nodes of the `g`-th are `base m g` to `base m g + 3`. -/
def base (m g : Nat) : Nat := m + 1 + 4 * g

structure Grown (d : Dance) (names : List Nat) (cands : List (Cell × Nat)) : Prop where
  hung : Hung d names.length
  root : d.root_ = 0
  cur : d.cur_node_ = base names.length cands.length
  columns : ∀ n k, d.columns_ n = some k ↔ 1 ≤ k ∧ names[k - 1]? = some n
  line : ∀ g, g < cands.length → Ring d.right d.left (base names.length g)
    [base names.length g + 1, base names.length g + 2, base names.length g + 3]
  name : ∀ g c t n, cands[g]? = some c → (candidateNames c)[t]? = some n → d.name (base names.length g + t) = n

section grown
variable {d : Dance} {names : List Nat} {cands : List (Cell × Nat)} {n k : Nat} {i : Cell} {v : Nat}

theorem Columned.grown (columned : Columned d names) : Grown d names [] := by
  refine ⟨columned.hung, columned.root, columned.cur, columned.columns, fun g none => ?_, fun g c t n none => ?_⟩
  · exact absurd none (Nat.not_lt_zero g)
  · exact absurd none (by simp)

theorem Grown.column (grown : Grown d names cands) (member : n ∈ names) :
    ∃ k, d.columns_ n = some k ∧ 1 ≤ k ∧ k ≤ names.length := by
  obtain ⟨j, less, at_⟩ := List.mem_iff_getElem.mp member
  refine ⟨j + 1, (grown.columns n (j + 1)).mpr ⟨Nat.succ_pos j, ?_⟩, Nat.succ_pos j, less⟩
  rw [Nat.add_sub_cancel, ← at_]
  exact List.getElem?_eq_getElem less

theorem Hung.join {m x y : Nat} {nodes : List Nat} (hung : Hung d m) (above : m < x)
    (ring : Ring d.right d.left x nodes) (between : ∀ z ∈ x :: nodes, x ≤ z ∧ z < y) :
    Hung (d.put_left x y) m ∧ Ring (d.put_left x y).right (d.put_left x y).left x (nodes ++ [y]) ∧
      ∀ z, z < x → (d.put_left x y).right z = d.right z ∧ (d.put_left x y).left z = d.left z := by
  have left := (between _ (ring.prev_mem List.mem_cons_self)).1
  have first := (between x List.mem_cons_self).2
  refine ⟨hung.put_left above (by omega) (by omega) (by omega), put_left_ring ring fun member => ?_, fun z less => ?_⟩
  · exact absurd (between y member).2 (lt_irrefl y)
  · exact put_left_other (by omega) (by omega) (by omega) (by omega)

theorem Grown.addRow (grown : Grown d names cands) (known : ∀ n ∈ candidateNames (i, v), n ∈ names ∧ n < 400)
    (room : base names.length cands.length + 4 ≤ kMaxNodes) :
    ∃ d', d.addRow i v = some d' ∧ Grown d' names (cands ++ [(i, v)]) ∧ d'.inout_ = d.inout_ ∧ d'.stack_ = d.stack_ := by
  obtain ⟨known0, small0⟩ := known i.val (by simp [candidateNames])
  obtain ⟨known1, small1⟩ := known (get_row_col (row i) v) (by simp [candidateNames])
  obtain ⟨known2, small2⟩ := known (get_col_col (TearcherCode.col i) v) (by simp [candidateNames])
  obtain ⟨known3, small3⟩ := known (get_box_col (box i) v) (by simp [candidateNames])
  obtain ⟨k0, column0, range0⟩ := grown.column known0
  obtain ⟨k1, column1, range1⟩ := grown.column known1
  obtain ⟨k2, column2, range2⟩ := grown.column known2
  obtain ⟨k3, column3, range3⟩ := grown.column known3
  have cur := grown.cur
  have above := grown.hung.above
  -- the four nodes, one after the other
  let d1 := d.newNode i.val k0
  let d2 := d1.newNode (get_row_col (row i) v) k1
  let d3 := d2.newNode (get_col_col (TearcherCode.col i) v) k2
  let d4 := d3.newNode (get_box_col (box i) v) k3
  have made0 : d.new_row i = some (d.cur_node_, d1) := new_row_eq small0 column0 (by omega)
  have made1 : d1.new_row _ = some (d.cur_node_ + 1, d2) := new_row_eq small1 column1 (by rw [newNode_cur]; omega)
  have made2 : d2.new_row _ = some (d.cur_node_ + 2, d3) :=
    new_row_eq small2 column2 (by rw [newNode_cur, newNode_cur]; omega)
  have made3 : d3.new_row _ = some (d.cur_node_ + 3, d4) :=
    new_row_eq small3 column3 (by rw [newNode_cur, newNode_cur, newNode_cur]; omega)
  have hung4 : Hung d4 names.length :=
    (((grown.hung.newNode column0 range0).newNode column1 range1).newNode column2 range2).newNode column3 range3
  have ran : d.addRow i v = some (((d4.put_left d.cur_node_ (d.cur_node_ + 1)).put_left d.cur_node_
      (d.cur_node_ + 2)).put_left d.cur_node_ (d.cur_node_ + 3)) := by
    simp only [Dance.addRow, made0, made1, made2, made3, Option.bind_eq_bind, Option.bind_some]
  have old4 : ∀ y, y < d.cur_node_ → d4.right y = d.right y ∧ d4.left y = d.left y := by
    intro y less
    simp only [d4, d3, d2, d1, newNode_left, newNode_right, newNode_cur]
    repeat rw [put_ne (by omega)]
    exact ⟨rfl, rfl⟩
  have self4 : d4.right d.cur_node_ = d.cur_node_ ∧ d4.left d.cur_node_ = d.cur_node_ := by
    simp only [d4, d3, d2, d1, newNode_left, newNode_right, newNode_cur]
    constructor
    · repeat rw [put_ne (by omega)]
      exact put_self ..
    · repeat rw [put_ne (by omega)]
      exact put_self ..
  have names4 : d4.name = put (put (put (put d.name d.cur_node_ i.val) (d.cur_node_ + 1) (get_row_col (row i) v))
      (d.cur_node_ + 2) (get_col_col (TearcherCode.col i) v)) (d.cur_node_ + 3) (get_box_col (box i) v) := rfl
  have cur4 : d4.cur_node_ = d.cur_node_ + 4 := rfl
  have columns4 : d4.columns_ = d.columns_ := rfl
  have root4 : d4.root_ = d.root_ := rfl
  have kept4 : d4.inout_ = d.inout_ ∧ d4.stack_ = d.stack_ := ⟨rfl, rfl⟩
  clear_value d4
  obtain ⟨hung1, ring1, old1⟩ := hung4.join above (Ring.self self4) (y := d.cur_node_ + 1) (by simp)
  obtain ⟨hung2, ring2, old2⟩ := hung1.join above ring1 (y := d.cur_node_ + 2) (by simp)
  obtain ⟨hung3, ring3, old3⟩ := hung2.join above ring2 (y := d.cur_node_ + 3) (by simp)
  have links : ∀ y, y < d.cur_node_ → _ ∧ _ := fun y less =>
    And.intro ((old3 y less).1.trans ((old2 y less).1.trans ((old1 y less).1.trans (old4 y less).1)))
      ((old3 y less).2.trans ((old2 y less).2.trans ((old1 y less).2.trans (old4 y less).2)))
  have longer : (cands ++ [(i, v)]).length = cands.length + 1 := by simp
  refine ⟨_, ran, ⟨hung3, root4.trans grown.root, ?_, ?_, fun g less => ?_, fun g c t n at_ name => ?_⟩, kept4.1, kept4.2⟩
  · rw [longer]
    exact cur4.trans (by rw [cur, base, base]; omega)
  · intro n k
    exact (congrArg (· n = some k) columns4).to_iff.trans (grown.columns n k)
  · rw [longer] at less
    by_cases last : g = cands.length
    · rw [last, ← cur]
      exact ring3
    · refine (grown.line g (by omega)).congr fun y member => links y ?_
      have among : y = base names.length g ∨ y = base names.length g + 1 ∨ y = base names.length g + 2 ∨
          y = base names.length g + 3 := by simpa using member
      rw [cur]
      simp only [base] at among ⊢
      omega
  · show d4.name _ = n
    rw [names4]
    rw [List.getElem?_append] at at_
    split at at_
    · next before =>
      have few : t < 4 := (List.getElem?_eq_some_iff.mp name).1
      have less : base names.length g + t < d.cur_node_ := by
        rw [cur]
        simp only [base]
        omega
      repeat rw [put_ne (by omega)]
      exact grown.name g c t n at_ name
    · next beyond =>
      have index : g - cands.length < 1 := (List.getElem?_eq_some_iff.mp at_).1
      obtain rfl : g = cands.length := by omega
      obtain rfl : (i, v) = c := by simpa using at_
      rw [← cur]
      have few : t < 4 := (List.getElem?_eq_some_iff.mp name).1
      obtain rfl | rfl | rfl | rfl : t = 0 ∨ t = 1 ∨ t = 2 ∨ t = 3 := by omega
      · obtain rfl := Option.some.inj name
        repeat rw [put_ne (by omega)]
        exact put_self ..
      · obtain rfl := Option.some.inj name
        repeat rw [put_ne (by omega)]
        exact put_self ..
      · obtain rfl := Option.some.inj name
        rw [put_ne (by omega)]
        exact put_self ..
      · obtain rfl := Option.some.inj name
        exact put_self ..

end grown

end Dance

end CloudLab.TearcherCode
