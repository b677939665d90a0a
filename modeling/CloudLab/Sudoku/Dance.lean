import CloudLab.Library.ExactCover
import CloudLab.Sudoku.Covered

/-! The search: `dance` finds an exact cover of the columns left, or shows that there is
none and leaves the links as they were. -/

namespace CloudLab.Sudoku
open Links

namespace DLX

section row
variable {s : DLX} {C : Set Nat} {headers : List Nat} {nodes others : Nat → List Nat} {k i : Nat} {ks : List Nat}
  {stk : Nat → Nat} {loops : Nat}

@[simp] theorem coveredAll_col (others : Nat → List Nat) (state : DLX × (Nat → List Nat)) (ks : List Nat) :
    (coveredAll others state ks).1.col = state.1.col :=
  coveredAll_keeps DLX.col (fun _ _ => rfl) (fun _ _ => rfl) state ks

@[simp] theorem coveredAll_row (others : Nat → List Nat) (state : DLX × (Nat → List Nat)) (ks : List Nat) :
    (coveredAll others state ks).1.row = state.1.row :=
  coveredAll_keeps DLX.row (fun _ _ => rfl) (fun _ _ => rfl) state ks

@[simp] theorem coveredAll_m (others : Nat → List Nat) (state : DLX × (Nat → List Nat)) (ks : List Nat) :
    (coveredAll others state ks).1.m = state.1.m :=
  coveredAll_keeps DLX.m (fun _ _ => rfl) (fun _ _ => rfl) state ks

@[simp] theorem coveredAll_tot (others : Nat → List Nat) (state : DLX × (Nat → List Nat)) (ks : List Nat) :
    (coveredAll others state ks).1.tot = state.1.tot :=
  coveredAll_keeps DLX.tot (fun _ _ => rfl) (fun _ _ => rfl) state ks

theorem coveredAll_node (others : Nat → List Nat) (state : DLX × (Nat → List Nat)) (ks : List Nat) (x : Nat) :
    (coveredAll others state ks).1.Node x ↔ state.1.Node x := by
  simp [Node]

theorem coveredAll_has (others : Nat → List Nat) (state : DLX × (Nat → List Nat)) (ks : List Nat) :
    (coveredAll others state ks).1.Has = state.1.Has := by
  funext r k
  simp [Has, coveredAll_node]

def rest (s : DLX) (others : Nat → List Nat) (i : Nat) : List Nat := (others i).map s.col

theorem Layout.nodup_rest (layout : Layout s C headers nodes others) (node : s.Node i) : (s.rest others i).Nodup := by
  refine (List.nodup_cons.mp (layout.line i node).nodup).2.map_on ?_
  intro x member y member' same
  obtain ⟨here, row, _⟩ := (layout.mem_line i node x).mp member
  obtain ⟨here', row', _⟩ := (layout.mem_line i node y).mp member'
  exact layout.apart x y here here' (row.trans row'.symm) same

theorem Layout.removeOthers_turn (layout : Layout s C headers nodes others) (node : s.Node i)
    (wanted : ∀ k ∈ s.rest others i, k ∈ C) (enough : s.tot < loops) (done : List Nat) (j : Nat) (todo : List Nat)
    (t : DLX) (split : others i = done ++ j :: todo) (at_ : t = (coveredAll others (s, nodes) (done.map s.col)).1) :
    ∃ t', (do inside [j]; remove loops (t.col j) t) = some t' ∧
      t' = (coveredAll others (s, nodes) ((done ++ [j]).map s.col)).1 ∧ t'.right j = some (todo.headD i) := by
  subst at_
  have nodup := layout.nodup_rest node
  have columns : s.rest others i = (done.map s.col ++ [s.col j]) ++ todo.map s.col := by
    simp [rest, split]
  rw [columns] at nodup wanted
  have nodup' := (List.nodup_append.mp nodup).1
  have wanted' := fun k member => wanted k (List.mem_append_left _ member)
  have inner : s.Node j := ((layout.mem_line i node j).mp (by rw [split]; simp)).1
  refine ⟨_, ?_, by rw [List.map_append], ?_⟩
  · simp only [layout.fits_node inner, Option.bind_eq_bind, Option.bind_some, coveredAll_col]
    exact (layout.remove_next nodup' wanted' enough).1
  · have links := (layout.several nodup' wanted').line i ((coveredAll_node others _ _ i).mpr node)
    rw [split] at links
    simp only [right, layout.fits_node inner, Option.bind_eq_bind, Option.bind_some]
    exact congrArg some links.next_node

theorem removeOthers_eq (layout : Layout s C headers nodes others) (node : s.Node i)
    (wanted : ∀ k ∈ s.rest others i, k ∈ C) (enough : s.tot < loops) :
    s.removeOthers loops i = some (coveredAll others (s, nodes) (s.rest others i)).1 := by
  obtain ⟨t, ran, rfl⟩ := follow_rule right (fun j s => do
      inside [j]
      remove loops (s.col j) s) loops
    (fun done _ t => t = (coveredAll others (s, nodes) (done.map s.col)).1) (others i)
    (List.nodup_cons.mp (layout.line i node).nodup).1 (layout.removeOthers_turn node wanted enough)
    ((layout.length_line node).trans_lt enough) rfl
  simp only [removeOthers, right, layout.fits_node node, Option.bind_eq_bind, Option.bind_some,
    (layout.line i node).next_head]
  exact ran

theorem Layout.recoverOthers_turn (layout : Layout s C headers nodes others) (node : s.Node i)
    (wanted : ∀ k ∈ s.rest others i, k ∈ C) (enough : s.tot < loops) (done : List Nat) (j : Nat) (todo : List Nat)
    (t : DLX) (split : (others i).reverse = done ++ j :: todo)
    (at_ : t = (coveredAll others (s, nodes) ((j :: todo).reverse.map s.col)).1) :
    ∃ t', (do inside [j]; recover loops (t.col j) t) = some t' ∧
      t' = (coveredAll others (s, nodes) (todo.reverse.map s.col)).1 ∧ t'.left j = some (todo.headD i) := by
  subst at_
  have nodup := layout.nodup_rest node
  have line : others i = todo.reverse ++ j :: done.reverse := by
    rw [← List.reverse_reverse (others i), split]
    simp
  have columns : s.rest others i = (todo.reverse.map s.col ++ [s.col j]) ++ done.reverse.map s.col := by
    simp [rest, line]
  rw [columns] at nodup wanted
  have nodup' := (List.nodup_append.mp nodup).1
  have wanted' := fun k member => wanted k (List.mem_append_left _ member)
  have inner : s.Node j := ((layout.mem_line i node j).mp (by rw [line]; simp)).1
  refine ⟨_, ?_, rfl, ?_⟩
  · simp only [layout.fits_node inner, Option.bind_eq_bind, Option.bind_some, coveredAll_col, List.reverse_cons,
      List.map_append, List.map_cons, List.map_nil]
    exact (layout.remove_next nodup' wanted' enough).2
  · have links := ((layout.several (List.nodup_append.mp nodup').1 fun k member =>
      wanted' k (List.mem_append_left _ member)).line i ((coveredAll_node others _ _ i).mpr node)).reverse
    rw [split] at links
    simp only [left, layout.fits_node inner, Option.bind_eq_bind, Option.bind_some]
    exact congrArg some links.next_node

theorem recoverOthers_eq (layout : Layout s C headers nodes others) (node : s.Node i)
    (wanted : ∀ k ∈ s.rest others i, k ∈ C) (enough : s.tot < loops) :
    (coveredAll others (s, nodes) (s.rest others i)).1.recoverOthers loops i = some s := by
  have all := (layout.several (layout.nodup_rest node) wanted).line i ((coveredAll_node others _ _ i).mpr node)
  obtain ⟨t, ran, rfl⟩ := follow_rule left (fun j s => do
      inside [j]
      recover loops (s.col j) s) loops
    (fun _ todo t => t = (coveredAll others (s, nodes) (todo.reverse.map s.col)).1) (others i).reverse
    (List.nodup_cons.mp all.reverse.nodup).1 (layout.recoverOthers_turn node wanted enough)
    (by simpa using (layout.length_line node).trans_lt enough) rfl
  rw [List.reverse_reverse] at ran
  simp only [recoverOthers, left, layout.fits_node node, Option.bind_eq_bind, Option.bind_some, all.reverse.next_head]
  exact ran

theorem Layout.length_header (layout : Layout s C headers nodes others) : headers.length ≤ s.tot := by
  apply Layout.length_ring layout.header
  intro x member
  rcases List.mem_cons.mp member with rfl | inner
  · exact Nat.zero_le _
  · exact ((layout.range x ((layout.mem_header x).mp inner)).2).trans layout.bounded.1

theorem chooseColumn_least (layout : Layout s C headers nodes others) (some_ : headers ≠ [])
    (enough : headers.length < loops) :
    ∃ c, s.chooseColumn loops = some c ∧ c ∈ headers ∧ ∀ k ∈ headers, s.siz c ≤ s.siz k := by
  have begins : s.R 0 = headers.headD 0 := layout.header.next_head
  have fits : ∀ k ∈ headers, inside [k] = some () := fun k member =>
    inside_small (by simpa using layout.small_column ((layout.mem_header k).mp member))
  have start : headers.headD 0 ∈ headers := by
    cases headers with
    | nil => exact absurd rfl some_
    | cons k rest => exact List.mem_cons_self
  obtain ⟨c, ran, member, least⟩ := follow_rule (fun _ i => s.right i) (fun i c => do
      inside [i, c]
      some (if s.siz i < s.siz c then i else c)) loops
    (fun done _ c => c ∈ headers ∧ ∀ k ∈ done, s.siz c ≤ s.siz k) headers
    (List.nodup_cons.mp layout.header.nodup).1 (by
      rintro done k todo c split ⟨member, least⟩
      have here : k ∈ headers := by rw [split]; simp
      have links := layout.header
      rw [split] at links
      have both : inside [k, c] = some () := inside_small (by
        simpa using ⟨layout.small_column ((layout.mem_header k).mp here),
          layout.small_column ((layout.mem_header c).mp member)⟩)
      refine ⟨if s.siz k < s.siz c then k else c, ?_, ⟨?_, ?_⟩, ?_⟩
      · simp only [both, Option.bind_eq_bind, Option.bind_some]
      · split <;> assumption
      · intro j among
        rcases List.mem_append.mp among with old | new
        · have bound := least j old
          split <;> omega
        · rw [List.mem_singleton.mp new]
          split <;> omega
      · simp only [right, fits k here, Option.bind_eq_bind, Option.bind_some]
        exact congrArg some links.next_node)
    enough ⟨begins ▸ start, fun k none => absurd none List.not_mem_nil⟩
  refine ⟨c, ?_, member, least⟩
  rw [chooseColumn]
  rw [← begins] at ran
  exact ran

theorem chooseColumn_mem (layout : Layout s C headers nodes others) (some_ : headers ≠ [])
    (enough : headers.length < loops) : ∃ c, s.chooseColumn loops = some c ∧ c ∈ C := by
  obtain ⟨c, chose, member, _⟩ := chooseColumn_least layout some_ enough
  exact ⟨c, chose, (layout.mem_header c).mp member⟩

end row

/-! Writing out the candidates. -/

def placed (stk : Nat → Nat) (ans : Nat → Nat → Int) (i : Nat) : Nat → Nat → Int :=
  put ans ((stk i - 1) / 9 / 9 + 1)
    (put (ans ((stk i - 1) / 9 / 9 + 1)) ((stk i - 1) / 9 % 9 + 1) ((stk i - 1) % 9 + 1 : Nat))

def written (stk : Nat → Nat) (ans : Nat → Nat → Int) (dep : Nat) : Nat → Nat → Int :=
  (List.range' 1 (dep - 1)).foldl (placed stk) ans

theorem writeCell_eq {s : DLX} {i : Nat} (small : i < MAXSIZE) (candidate : 1 ≤ s.stk i ∧ s.stk i ≤ 729) :
    s.writeCell i = some { s with ans := placed s.stk s.ans i } := by
  obtain ⟨id, same⟩ : ∃ id, s.stk i = id + 1 := ⟨s.stk i - 1, by omega⟩
  have less : ((s.stk i : Int) - 1) = (id : Nat) := by omega
  have bound : id ≤ 728 := by omega
  have x : ((id : Int).tdiv 9).tdiv 9 + 1 = ((id / 9 / 9 + 1 : Nat) : Int) := rfl
  have y : ((id : Int).tdiv 9).tmod 9 + 1 = ((id / 9 % 9 + 1 : Nat) : Int) := rfl
  have v : (id : Int).tmod 9 + 1 = ((id % 9 + 1 : Nat) : Int) := rfl
  have fits : i < MAXSIZE ∧ (0 : Int) ≤ ((id / 9 / 9 + 1 : Nat) : Int) ∧ ((id / 9 / 9 + 1 : Nat) : Int) < 11 ∧
      (0 : Int) ≤ ((id / 9 % 9 + 1 : Nat) : Int) ∧ ((id / 9 % 9 + 1 : Nat) : Int) < 11 := by
    refine ⟨small, ?_, ?_, ?_, ?_⟩ <;> omega
  simp only [writeCell, less, x, y, v, if_pos fits, Int.toNat_natCast]
  simp only [placed, same, Nat.add_sub_cancel]

theorem foldlM_writeCell {l : List Nat} {s : DLX}
    (candidates : ∀ i ∈ l, i < MAXSIZE ∧ 1 ≤ s.stk i ∧ s.stk i ≤ 729) :
    l.foldlM writeCell s = some { s with ans := l.foldl (placed s.stk) s.ans } := by
  induction l generalizing s with
  | nil => rfl
  | cons i l ih =>
    obtain ⟨small, candidate⟩ := candidates i (by simp)
    rw [List.foldlM_cons, writeCell_eq small candidate]
    exact ih fun j member => candidates j (List.mem_cons_of_mem i member)

/-- The rows are candidates of the puzzle, and so are those on the stack: `ans` has a place
for each of them. -/
structure Decodable (s : DLX) (dep : Nat) : Prop where
  small : s.m < MAXSIZE
  rows : ∀ x, s.Node x → 1 ≤ s.row x ∧ s.row x ≤ 729
  stack : ∀ i, 1 ≤ i → i < dep → 1 ≤ s.stk i ∧ s.stk i ≤ 729

theorem writeAns_eq {s : DLX} {dep : Nat} (small : dep ≤ MAXSIZE) (decodable : Decodable s dep) :
    s.writeAns dep = some { s with ans := written s.stk s.ans dep } := by
  refine foldlM_writeCell fun i member => ?_
  obtain ⟨low, high⟩ := List.mem_range'_1.mp member
  exact ⟨by omega, decodable.stack i low (by omega)⟩

/-! The search. -/

def chosen (s : DLX) (dep d : Nat) : Set Nat := {r | ∃ i, dep ≤ i ∧ i < d ∧ s.stk i = r}

/-- What `dance` has done when it returns 1: the columns are covered, each by one of the
rows put on the stack, and the whole stack is written out. -/
structure Found (s : DLX) (C : Set Nat) (dep : Nat) (s' : DLX) (d : Nat) : Prop where
  later : dep ≤ d
  kept : ∀ i < dep, s'.stk i = s.stk i
  cover : ExactCover s.Has C (s'.chosen dep d)
  row : ∀ i, dep ≤ i → i < d → ∃ k, s.Has (s'.stk i) k
  apart : ∀ i j, dep ≤ i → i < j → j < d → s'.stk i ≠ s'.stk j
  ans : s'.ans = written s'.stk s.ans d

/-- What `dance` has done when it returns 0: nothing but change the stack. -/
structure Failed (s : DLX) (C : Set Nat) (dep : Nat) (s' : DLX) : Prop where
  unsolvable : ¬ ExactCover.Solvable s.Has C
  restored : ∃ stk, (∀ i < dep, stk i = s.stk i) ∧ s' = s.withStk stk

def Result (s : DLX) (C : Set Nat) (dep : Nat) : Option Nat × DLX → Prop
  | (some d, s') => Found s C dep s' d
  | (none, s') => Failed s C dep s'

section search
variable {s : DLX} {C : Set Nat} {headers : List Nat} {nodes others : Nat → List Nat} {c i dep d : Nat}
  {stk : Nat → Nat} {loops : Nat}

theorem Layout.left_eq (layout : Layout s C headers nodes others) (node : s.Node i) :
    without (without C [s.col i]) (s.rest others i) = ExactCover.left s.Has C (s.row i) := by
  ext k
  simp only [without, ExactCover.left, Set.mem_ofPred_eq, List.mem_singleton]
  constructor
  · rintro ⟨⟨wanted, other⟩, absent⟩
    refine ⟨wanted, ?_⟩
    rintro ⟨x, here, row, rfl⟩
    refine absent (List.mem_map.mpr ⟨x, (layout.mem_line i node x).mpr ⟨here, row, ?_⟩, rfl⟩)
    rintro rfl
    exact other rfl
  · rintro ⟨wanted, absent⟩
    refine ⟨⟨wanted, fun same => absent ⟨i, node, rfl, same.symm⟩⟩, fun member => ?_⟩
    obtain ⟨x, inner, rfl⟩ := List.mem_map.mp member
    obtain ⟨here, row, _⟩ := (layout.mem_line i node x).mp inner
    exact absent ⟨x, here, row, rfl⟩

theorem Found.push {t s' : DLX} (row : ∃ k, s.Has (stk dep) k) (fits : ∀ k, s.Has (stk dep) k → k ∈ C)
    (found : Found t (ExactCover.left s.Has C (stk dep)) (dep + 1) s' d) (has : t.Has = s.Has) (ans : t.ans = s.ans)
    (stack : t.stk = stk) (below : ∀ i < dep, stk i = s.stk i) : Found s C dep s' d := by
  have top : s'.stk dep = stk dep := by rw [found.kept dep (Nat.lt_succ_self dep), stack]
  have cover := found.cover
  rw [has] at cover
  have all : s'.chosen dep d = Set.insert (stk dep) (s'.chosen (dep + 1) d) := by
    ext r
    constructor
    · rintro ⟨i, low, high, rfl⟩
      by_cases first : i = dep
      · exact Or.inl (by rw [first, top])
      · exact Or.inr ⟨i, by omega, high, rfl⟩
    · rintro (rfl | ⟨i, low, high, rfl⟩)
      · exact ⟨dep, Nat.le_refl dep, found.later, top⟩
      · exact ⟨i, by omega, high, rfl⟩
  refine ⟨Nat.le_of_succ_le found.later, ?_, ?_, ?_, ?_, ?_⟩
  · intro i low
    rw [found.kept i (by omega), stack, below i low]
  · rw [all]
    exact cover.add fits
  · intro i low high
    by_cases first : i = dep
    · rw [first, top]
      exact row
    · rw [← has]
      exact found.row i (by omega) high
  · intro i j low less high
    by_cases first : i = dep
    · obtain ⟨k, inside⟩ := row
      rw [first, top]
      exact fun same => cover.fresh inside ⟨j, by omega, high, same.symm⟩
    · exact found.apart i j (by omega) less high
  · rw [found.ans, ans]

def all (s : DLX) (others : Nat → List Nat) (c i : Nat) : List Nat := c :: s.rest others i

theorem Layout.all_left (layout : Layout s C headers nodes others) (wanted : c ∈ C) (here : i ∈ nodes c) :
    (s.all others c i).Nodup ∧ (∀ k ∈ s.all others c i, k ∈ C) ∧
      without C (s.all others c i) = ExactCover.left s.Has C (s.row i) := by
  obtain ⟨active, column⟩ := (layout.mem_ring c wanted i).mp here
  have node := active.1
  have outer : ∀ k ∈ s.rest others i, k ∈ C ∧ k ≠ c := by
    intro k member
    obtain ⟨j, inner, rfl⟩ := List.mem_map.mp member
    obtain ⟨there, row, other⟩ := (layout.mem_line i node j).mp inner
    exact ⟨(Layout.active_row active there row).2, fun same => other
      (layout.apart j i there node row (same.trans column.symm))⟩
  refine ⟨List.nodup_cons.mpr ⟨fun member => (outer c member).2 rfl, layout.nodup_rest node⟩, ?_, ?_⟩
  · intro k member
    rcases List.mem_cons.mp member with rfl | inner
    · exact wanted
    · exact (outer k inner).1
  · rw [← layout.left_eq node, column]
    ext k
    simp [without, all, and_assoc]

theorem Layout.others_ready (layout : Layout s C headers nodes others) (wanted : c ∈ C) (here : i ∈ nodes c)
    (stk : Nat → Nat) :
    ((covered others (s, nodes) c).1.withStk stk).Node i ∧
      ∀ k ∈ ((covered others (s, nodes) c).1.withStk stk).rest others i, k ∈ without C [c] := by
  obtain ⟨nodup, inside, _⟩ := layout.all_left wanted here
  have node := ((layout.mem_ring c wanted i).mp here).1.1
  have rest_ : ((covered others (s, nodes) c).1.withStk stk).rest others i = s.rest others i :=
    congrArg (fun col => (others i).map col) (coveredAll_col others (s, nodes) [c])
  refine ⟨(coveredAll_node others (s, nodes) [c] i).mpr node, fun k member => ?_⟩
  rw [rest_] at member
  refine ⟨inside k (List.mem_cons_of_mem c member), fun same => ?_⟩
  exact (List.nodup_cons.mp nodup).1 (List.mem_singleton.mp same ▸ member)

theorem coveredAll_all (others nodes : Nat → List Nat) (s : DLX) (c i : Nat) (stk : Nat → Nat) :
    (coveredAll others ((covered others (s, nodes) c).1.withStk stk, (covered others (s, nodes) c).2)
      (((covered others (s, nodes) c).1.withStk stk).rest others i)).1 =
        (coveredAll others (s, nodes) (s.all others c i)).1.withStk stk := by
  have rest_ : ((covered others (s, nodes) c).1.withStk stk).rest others i = s.rest others i :=
    congrArg (fun col => (others i).map col) (coveredAll_col others (s, nodes) [c])
  rw [rest_]
  exact congrArg Prod.fst (coveredAll_stk _ stk _ _)

theorem Layout.others_eq (layout : Layout s C headers nodes others) (wanted : c ∈ C) (enough : s.tot < loops)
    (here : i ∈ nodes c) (stk : Nat → Nat) :
    ((covered others (s, nodes) c).1.withStk stk).removeOthers loops i =
        some ((coveredAll others (s, nodes) (s.all others c i)).1.withStk stk) ∧
      ((coveredAll others (s, nodes) (s.all others c i)).1.withStk stk).recoverOthers loops i =
        some ((covered others (s, nodes) c).1.withStk stk) := by
  have layout' := (layout.removed wanted).withStk stk
  obtain ⟨node, fits⟩ := layout.others_ready wanted here stk
  have enough' : ((covered others (s, nodes) c).1.withStk stk).tot < loops :=
    lt_of_eq_of_lt (coveredAll_tot others (s, nodes) [c]) enough
  rw [← coveredAll_all]
  exact ⟨removeOthers_eq layout' node fits enough', recoverOthers_eq layout' node fits enough'⟩

def Tried (s : DLX) (C : Set Nat) (nodes others : Nat → List Nat) (c dep : Nat) : Option Nat × DLX → Prop
  | (some d, s') => Found s C dep s' d
  | (none, s') =>
      (∀ i ∈ nodes c, ¬ ExactCover.Solvable s.Has (ExactCover.left s.Has C (s.row i))) ∧
        ∃ stk, (∀ i < dep, stk i = s.stk i) ∧ s' = (covered others (s, nodes) c).1.withStk stk

def Below (s : DLX) (C : Set Nat) (nodes others : Nat → List Nat) (c i dep : Nat) : Option Nat × DLX → Prop
  | (some d, s') => Found s C dep s' d
  | (none, s') =>
      ¬ ExactCover.Solvable s.Has (ExactCover.left s.Has C (s.row i)) ∧
        ∃ stk, (∀ j < dep, stk j = s.stk j) ∧
          s' = (coveredAll others (s, nodes) (s.all others c i)).1.withStk stk

theorem below_candidate {dance : DLX → Option (Option Nat × DLX)} (layout : Layout s C headers nodes others)
    (wanted : c ∈ C) (here : i ∈ nodes c) (enough : s.tot < loops) (room : dep + headers.length ≤ s.m + 1)
    (decodable : Decodable s dep)
    (deeper : ∀ {t : DLX} {C' : Set Nat} {headers' : List Nat} {nodes' : Nat → List Nat},
      Layout t C' headers' nodes' others → t.tot < loops → headers'.length < headers.length →
      dep + 1 + headers'.length ≤ t.m + 1 → Decodable t (dep + 1) →
      ∃ result, dance t = some result ∧ Result t C' (dep + 1) result)
    {stk : Nat → Nat} (below : ∀ j < dep, stk j = s.stk j) :
    ∃ result, dance ((coveredAll others (s, nodes) (s.all others c i)).1.withStk (put stk dep (s.row i))) =
      some result ∧ Below s C nodes others c i dep result := by
  obtain ⟨active, column⟩ := (layout.mem_ring c wanted i).mp here
  obtain ⟨nodup, inside_, left⟩ := layout.all_left wanted here
  have fewer : (headers.filter (· ∉ s.all others c i)).length < headers.length :=
    List.length_filter_lt_length_iff_exists.mpr ⟨c, (layout.mem_header c).mpr wanted, by simp [all]⟩
  -- the state in which the candidate is on the stack and its columns are removed
  let stk' := put stk dep (s.row i)
  have top : stk' dep = s.row i := Function.update_self ..
  have below' : ∀ j < dep, stk' j = s.stk j := fun j less =>
    (Function.update_of_ne (Nat.ne_of_lt less) _ _).trans (below j less)
  have pushed := (layout.several nodup inside_).withStk stk'
  rw [left] at pushed
  have has : ((coveredAll others (s, nodes) (s.all others c i)).1.withStk stk').Has = s.Has :=
    coveredAll_has others (s, nodes) _
  have tot : ((coveredAll others (s, nodes) (s.all others c i)).1.withStk stk').tot = s.tot :=
    coveredAll_tot others (s, nodes) _
  have m : ((coveredAll others (s, nodes) (s.all others c i)).1.withStk stk').m = s.m :=
    coveredAll_m others (s, nodes) _
  have ans : ((coveredAll others (s, nodes) (s.all others c i)).1.withStk stk').ans = s.ans :=
    coveredAll_keeps DLX.ans (fun _ _ => rfl) (fun _ _ => rfl) (s, nodes) _
  have decodable' : Decodable ((coveredAll others (s, nodes) (s.all others c i)).1.withStk stk') (dep + 1) := by
    refine ⟨m ▸ decodable.small, ?_, ?_⟩
    · intro x node
      have row : ((coveredAll others (s, nodes) (s.all others c i)).1.withStk stk').row = s.row :=
        coveredAll_row others (s, nodes) _
      rw [row]
      exact decodable.rows x ((coveredAll_node others (s, nodes) _ x).mp node)
    · intro j low high
      show 1 ≤ stk' j ∧ stk' j ≤ 729
      by_cases first : j = dep
      · rw [first, top]
        exact decodable.rows i active.1
      · rw [below' j (by omega)]
        exact decodable.stack j low (by omega)
  obtain ⟨⟨found, s'⟩, ran, result⟩ := deeper pushed (by omega) fewer (by omega) decodable'
  refine ⟨(found, s'), ran, ?_⟩
  cases found with
  | some d =>
    have found : Found _ _ (dep + 1) s' d := result
    rw [← top] at found
    exact Found.push ⟨c, i, active.1, top.symm, column⟩ (fun k inside => active.2 k (top ▸ inside)) found has ans
      rfl below'
  | none =>
    obtain ⟨unsolvable, stk₂, same, rfl⟩ := (result : Failed _ _ (dep + 1) s')
    rw [has] at unsolvable
    exact ⟨unsolvable, stk₂, fun j less => (same j (Nat.lt_succ_of_lt less)).trans (below' j less), rfl⟩

theorem tryRows_cons {dance : DLX → Option (Option Nat × DLX)} (layout : Layout s C headers nodes others)
    (wanted : c ∈ C) (enough : s.tot < loops) (here : i ∈ nodes c) (depth : ¬ MAXSIZE ≤ dep) (fuel : Nat)
    (stk : Nat → Nat) :
    tryRows loops dance c dep (fuel + 1) i ((covered others (s, nodes) c).1.withStk stk) =
      (dance ((coveredAll others (s, nodes) (s.all others c i)).1.withStk (put stk dep (s.row i)))).bind
        fun answer => if answer.1.isSome then some answer
          else (answer.2.recoverOthers loops i).bind fun t => (t.down i).bind fun j =>
            tryRows loops dance c dep fuel j t := by
  have node := ((layout.mem_ring c wanted i).mp here).1.1
  have notHead : i ≠ c := fun same => (List.nodup_cons.mp (layout.ring c wanted).nodup).1 (same ▸ here)
  have row : (covered others (s, nodes) c).1.row = s.row := coveredAll_row others (s, nodes) [c]
  have fits : inside [i] = some () := layout.fits_node node
  have state : ({ (covered others (s, nodes) c).1.withStk stk with
      stk := put ((covered others (s, nodes) c).1.withStk stk).stk dep
        (((covered others (s, nodes) c).1.withStk stk).row i) } : DLX) =
      (covered others (s, nodes) c).1.withStk (put stk dep (s.row i)) := by
    show (covered others (s, nodes) c).1.withStk (put stk dep ((covered others (s, nodes) c).1.row i)) = _
    rw [row]
  rw [tryRows, if_neg notHead, if_neg depth]
  simp only [fits, Option.bind_eq_bind, Option.bind_some]
  rw [state, (layout.others_eq wanted enough here _).1]
  rfl

theorem Layout.down_covered (layout : Layout s C headers nodes others) (wanted : c ∈ C) {done todo : List Nat}
    (split : nodes c = done ++ i :: todo) (stk : Nat → Nat) :
    ((covered others (s, nodes) c).1.withStk stk).down i = some (todo.headD c) := by
  have node := ((layout.mem_ring c wanted i).mp (by rw [split]; simp)).1.1
  have ring := layout.ring_own wanted (List.append_nil _).symm
  rw [split] at ring
  simp only [down, layout.fits_node node, Option.bind_eq_bind, Option.bind_some]
  exact congrArg some ring.next_node

theorem Layout.down_chosen (layout : Layout s C headers nodes others) (wanted : c ∈ C) (stk : Nat → Nat) :
    ((covered others (s, nodes) c).1.withStk stk).down c = some ((nodes c).headD c) := by
  have ring := layout.ring_own wanted (List.append_nil _).symm
  have fits : inside [c] = some () := inside_small (by simpa using layout.small_column wanted)
  simp only [down, fits, Option.bind_eq_bind, Option.bind_some]
  exact congrArg some ring.next_head

theorem Layout.chosen_eq (layout : Layout s C headers nodes others) (wanted : c ∈ C) (enough : s.tot < loops) :
    s.remove loops c = some ((covered others (s, nodes) c).1.withStk s.stk) ∧
      ∀ stk, ((covered others (s, nodes) c).1.withStk stk).recover loops c = some (s.withStk stk) := by
  constructor
  · rw [layout.remove_eq wanted enough]
    exact congrArg some (unlinkedAll_stk (s.hidden c) s.stk _)
  · intro stk
    rw [← (layout.withStk stk).recover_eq wanted enough]
    exact congrArg (recover loops c) (unlinkedAll_stk (s.hidden c) stk _).symm

theorem tryRows_spec {dance : DLX → Option (Option Nat × DLX)} (layout : Layout s C headers nodes others)
    (wanted : c ∈ C) (enough : s.tot < loops) (room : dep + headers.length ≤ s.m + 1)
    (decodable : Decodable s dep)
    (deeper : ∀ {t : DLX} {C' : Set Nat} {headers' : List Nat} {nodes' : Nat → List Nat},
      Layout t C' headers' nodes' others → t.tot < loops → headers'.length < headers.length →
      dep + 1 + headers'.length ≤ t.m + 1 → Decodable t (dep + 1) →
      ∃ result, dance t = some result ∧ Result t C' (dep + 1) result)
    (todo done : List Nat) (split : nodes c = done ++ todo) (fuel : Nat) (turns : todo.length < fuel)
    (stk : Nat → Nat) (below : ∀ i < dep, stk i = s.stk i)
    (tried : ∀ i ∈ done, ¬ ExactCover.Solvable s.Has (ExactCover.left s.Has C (s.row i))) :
    ∃ result, tryRows loops dance c dep fuel (todo.headD c) ((covered others (s, nodes) c).1.withStk stk) =
      some result ∧ Tried s C nodes others c dep result := by
  induction todo generalizing done fuel stk with
  | nil =>
    obtain ⟨fuel, rfl⟩ : ∃ k, fuel = k + 1 := ⟨fuel - 1, by simp at turns; omega⟩
    rw [List.append_nil] at split
    refine ⟨(none, (covered others (s, nodes) c).1.withStk stk), by simp [tryRows], ?_⟩
    exact ⟨by rw [split]; exact tried, stk, below, rfl⟩
  | cons i todo ih =>
    obtain ⟨fuel, rfl⟩ : ∃ k, fuel = k + 1 := ⟨fuel - 1, by simp at turns; omega⟩
    have here : i ∈ nodes c := by rw [split]; simp
    have depth : ¬ MAXSIZE ≤ dep := by
      have bounded := decodable.small
      have some : 0 < headers.length := List.length_pos_of_mem ((layout.mem_header c).mpr wanted)
      omega
    obtain ⟨⟨found, s'⟩, ran, result⟩ := below_candidate layout wanted here enough room decodable deeper below
    rw [List.headD_cons, tryRows_cons layout wanted enough here depth, ran, Option.bind_some]
    cases found with
    | some d => exact ⟨(some d, s'), by simp, result⟩
    | none =>
      obtain ⟨unsolvable, stk₂, below₂, rfl⟩ := result
      obtain ⟨result, looped, tried'⟩ := ih (done ++ [i]) (by rw [split]; simp) fuel
        (by simpa using turns) stk₂ below₂ (by
          intro j member
          rcases List.mem_append.mp member with old | new
          · exact tried j old
          · rw [List.mem_singleton.mp new]
            exact unsolvable)
      refine ⟨result, ?_, tried'⟩
      simp only [Option.isSome_none, Bool.false_eq_true, if_false]
      rw [(layout.others_eq wanted enough here stk₂).2, Option.bind_some, layout.down_covered wanted split,
        Option.bind_some]
      exact looped

theorem found_empty (layout : Layout s C [] nodes others) (room : dep ≤ s.m + 1)
    (decodable : Decodable s dep) :
    ∃ s', s.writeAns dep = some s' ∧ Found s C dep s' dep := by
  have bounded := decodable.small
  refine ⟨_, writeAns_eq (by omega) decodable, Nat.le_refl dep, fun _ _ => rfl, ?_, ?_, ?_, rfl⟩
  · constructor
    · rintro r ⟨i, low, high, _⟩
      omega
    · intro k wanted
      exact absurd ((layout.mem_header k).mpr wanted) List.not_mem_nil
  · intro i low high
    omega
  · intro i j low less high
    omega

/-- The search with enough fuel for its depth returns, and what it returns is right. -/
theorem dance_spec (layout : Layout s C headers nodes others) (enough : s.tot < loops) {fuel : Nat}
    (deep : headers.length < fuel) (room : dep + headers.length ≤ s.m + 1)
    (decodable : Decodable s dep) :
    ∃ result, dance loops fuel dep s = some result ∧ Result s C dep result := by
  induction fuel generalizing dep s C headers nodes with
  | zero => omega
  | succ fuel ih =>
    have begins : s.R 0 = headers.headD 0 := layout.header.next_head
    cases headers with
    | nil =>
      obtain ⟨s', ran, found⟩ := found_empty layout (Nat.le_of_add_right_le room) decodable
      refine ⟨(some dep, s'), ?_, found⟩
      have none_left : s.R 0 = 0 := begins
      rw [dance, if_pos none_left, ran]
      rfl
    | cons k rest =>
      have left_over : s.R 0 ≠ 0 := by
        have positive := (layout.range k ((layout.mem_header k).mp (by simp))).1
        rw [begins, List.headD_cons]
        omega
      have short : (k :: rest).length < loops := layout.length_header.trans_lt enough
      obtain ⟨c, chose, wanted⟩ := chooseColumn_mem layout (by simp) short
      obtain ⟨removed, recovered⟩ := layout.chosen_eq wanted enough
      obtain ⟨⟨found, s'⟩, ran, tried⟩ := tryRows_spec layout wanted enough room decodable
        (fun layout' enough' fewer room' decodable' => ih layout' enough' (by omega) room' decodable')
        (nodes c) [] rfl loops ((layout.length_column wanted).trans_lt enough) s.stk (fun _ _ => rfl)
        (fun _ none => nomatch none)
      rw [dance, if_neg left_over]
      simp only [chose, Option.bind_eq_bind, Option.bind_some, removed, layout.down_chosen wanted, ran]
      cases found with
      | some d => exact ⟨(some d, s'), by simp, tried⟩
      | none =>
        obtain ⟨unsolvable, stk', below, rfl⟩ := tried
        refine ⟨(none, s.withStk stk'), ?_, ?_, stk', below, rfl⟩
        · simp [recovered]
        · rintro ⟨rows, cover⟩
          obtain ⟨r, ⟨i, node, rfl, column⟩, fits, rest_⟩ := cover.branch wanted
          exact unsolvable i ((layout.mem_ring c wanted i).mpr ⟨⟨node, fits⟩, column⟩) rest_

end search

/-! More turns for the loops and more depth for the search change no result. -/

section more
variable {loops loops' fuel fuel' : Nat}

theorem unlinkRow_more (more : loops ≤ loops') (i : Nat) (s : DLX) :
    More (s.unlinkRow loops i) (s.unlinkRow loops' i) :=
  (More.refl _).bind fun _ => follow_more (fun _ _ => More.refl _) more _ _

theorem remove_more (more : loops ≤ loops') (c : Nat) (s : DLX) : More (s.remove loops c) (s.remove loops' c) :=
  (More.refl _).bind fun _ => (More.refl _).bind fun _ => follow_more (unlinkRow_more more) more _ _

theorem relinkRow_more (more : loops ≤ loops') (i : Nat) (s : DLX) :
    More (s.relinkRow loops i) (s.relinkRow loops' i) :=
  (More.refl _).bind fun _ => follow_more (fun _ _ => More.refl _) more _ _

theorem recover_more (more : loops ≤ loops') (c : Nat) (s : DLX) : More (s.recover loops c) (s.recover loops' c) :=
  (More.refl _).bind fun _ => (follow_more (relinkRow_more more) more _ _).bind fun _ => More.refl _

theorem chooseColumn_more (more : loops ≤ loops') (s : DLX) : More (s.chooseColumn loops) (s.chooseColumn loops') :=
  follow_more (fun _ _ => More.refl _) more _ _

theorem removeOthers_more (more : loops ≤ loops') (i : Nat) (s : DLX) :
    More (s.removeOthers loops i) (s.removeOthers loops' i) :=
  (More.refl _).bind fun _ =>
    follow_more (fun _ _ => (More.refl _).bind fun _ => remove_more more _ _) more _ _

theorem recoverOthers_more (more : loops ≤ loops') (i : Nat) (s : DLX) :
    More (s.recoverOthers loops i) (s.recoverOthers loops' i) :=
  (More.refl _).bind fun _ =>
    follow_more (fun _ _ => (More.refl _).bind fun _ => recover_more more _ _) more _ _

theorem tryRows_more {dance dance' : DLX → Option (Option Nat × DLX)} (weaker : ∀ s, More (dance s) (dance' s))
    (more : loops ≤ loops') (deeper : fuel ≤ fuel') (c dep i : Nat) (s : DLX) :
    More (tryRows loops dance c dep fuel i s) (tryRows loops' dance' c dep fuel' i s) := by
  induction fuel generalizing fuel' i s with
  | zero => exact fun _ none => nomatch none
  | succ fuel ih =>
    obtain ⟨fuel', rfl⟩ : ∃ k, fuel' = k + 1 := ⟨fuel' - 1, by omega⟩
    rw [tryRows, tryRows]
    split
    · exact More.refl _
    · split
      · exact More.refl _
      · refine (More.refl _).bind fun _ => (removeOthers_more more _ _).bind fun s => (weaker s).bind ?_
        rintro ⟨found, s⟩
        dsimp only
        split
        · exact More.refl _
        · exact (recoverOthers_more more _ _).bind fun s => (More.refl _).bind fun i => ih (by omega) i s

theorem dance_more (more : loops ≤ loops') (deeper : fuel ≤ fuel') (dep : Nat) (s : DLX) :
    More (dance loops fuel dep s) (dance loops' fuel' dep s) := by
  induction fuel generalizing fuel' dep s with
  | zero => exact fun _ none => nomatch none
  | succ fuel ih =>
    obtain ⟨fuel', rfl⟩ : ∃ k, fuel' = k + 1 := ⟨fuel' - 1, by omega⟩
    rw [dance, dance]
    split
    · exact More.refl _
    · refine (chooseColumn_more more s).bind fun c => (remove_more more c s).bind fun s =>
        (More.refl _).bind fun i =>
          (tryRows_more (fun s => ih (by omega) (dep + 1) s) more more c dep i s).bind ?_
      rintro ⟨found, s⟩
      dsimp only
      split
      · exact More.refl _
      · exact (recover_more more c s).bind fun s => More.refl _

end more

end DLX

end CloudLab.Sudoku
