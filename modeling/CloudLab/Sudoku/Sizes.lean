import CloudLab.Sudoku.Restore

/-! What the arrays hold whenever `dance` chooses a column: the rings of the columns that are
left, the rings of the rows, and the number of nodes in each of these columns. -/

namespace CloudLab.Sudoku
open Links

namespace DLX

/-- The columns `headers` of the matrix are left, with the rows that have no other columns. -/
structure Represents (c : Nat) (calls : List (Nat × Nat)) (headers : List Nat) (s : DLX) : Prop where
  range : ∀ k ∈ headers, 1 ≤ k ∧ k ≤ c
  header : Ring s.R s.L 0 headers
  column : ∀ k ∈ headers, ∃ nodes, Ring s.D s.U k nodes ∧ s.siz k = nodes.length ∧
    ∀ x, x ∈ nodes ↔ ∃ r, entry c calls x = some (r, k) ∧ ∀ k', (r, k') ∈ calls → k' ∈ headers
  row : ∀ x r k, entry c calls x = some (r, k) →
    ∃ others, Ring s.R s.L x others ∧ ∀ y, y ∈ x :: others ↔ ∃ k', entry c calls y = some (r, k')

/-- The size of each column is the number of nodes in its ring. -/
def Sized (s : DLX) (C : Set Nat) (nodes : Nat → List Nat) : Prop := ∀ k ∈ C, s.siz k = (nodes k).length

section sizes
variable {s t : DLX} {C : Set Nat} {headers : List Nat} {nodes others : Nat → List Nat} {k c : Nat} {ks xs ys : List Nat}
  {calls : List (Nat × Nat)} {loops dep dep' : Nat}

theorem length_filter_ne {l : List Nat} {x : Nat} (nodup : l.Nodup) (member : x ∈ l) :
    (l.filter (· ≠ x)).length + 1 = l.length := by
  have erased : l.erase x = l.filter (· ≠ x) := by
    rw [nodup.erase_eq_filter]
    exact List.filter_congr fun y _ => by by_cases same : y = x <;> simp [same]
  rw [← erased, List.length_erase_of_mem member, Nat.sub_add_cancel (List.length_pos_of_mem member)]

theorem Sized.swept (sized : Sized s C nodes) (layout : Layout s C headers nodes others) (wanted : k ∈ C)
    (split : swept nodes others k = xs ++ ys) (wanted' : c ∈ C) :
    ((s.hidden k).unlinkedAll xs).siz c = ((nodes c).filter (· ∉ xs)).length := by
  induction xs using List.reverseRecOn generalizing ys c with
  | nil =>
    have all : (nodes c).filter (· ∉ ([] : List Nat)) = nodes c := by simp
    rw [all]
    exact sized c wanted'
  | append_singleton xs x ih =>
    have split' : DLX.swept nodes others k = xs ++ x :: ys := by rw [split]; simp
    obtain ⟨_, inside, here⟩ := layout.left_swept wanted split'
    rw [unlinkedAll_snoc, filter_snoc]
    simp only [unlinked, unlinkedAll_col, hidden_col]
    by_cases same : c = s.col x
    · subst same
      have nodup := (List.nodup_cons.mp (layout.ring _ inside).nodup).2.filter (fun y => decide (y ∉ xs))
      have one := length_filter_ne nodup here
      rw [put_self, ih split' inside, ← one]
      omega
    · rw [put_ne same, layout.elsewhere_swept wanted' same]
      exact ih split' wanted'

theorem Sized.covered (sized : Sized s C nodes) (layout : Layout s C headers nodes others) (wanted : k ∈ C) :
    Sized (DLX.covered others (s, nodes) k).1 (without C [k]) (DLX.covered others (s, nodes) k).2 :=
  fun _ left_over => sized.swept layout wanted (List.append_nil _).symm left_over.1

theorem Sized.several (sized : Sized s C nodes) (layout : Layout s C headers nodes others) (nodup : ks.Nodup)
    (wanted : ∀ k ∈ ks, k ∈ C) :
    Sized (coveredAll others (s, nodes) ks).1 (without C ks) (coveredAll others (s, nodes) ks).2 := by
  induction ks using List.reverseRecOn with
  | nil => exact fun k inside => sized k inside.1
  | append_singleton ks k ih =>
    rw [List.nodup_append] at nodup
    have old : ∀ j ∈ ks, j ∈ C := fun j member => wanted j (List.mem_append_left _ member)
    have here : k ∈ without C ks := ⟨wanted k (by simp), fun member => nodup.2.2 k member k (by simp) rfl⟩
    have columns : without C (ks ++ [k]) = without (without C ks) [k] := by
      ext c
      simp [without, and_assoc]
    rw [columns, coveredAll_snoc]
    exact (ih nodup.1 old).covered (layout.several nodup.1 old) here

theorem Entered.sized (entered : Entered s c calls) (layout : Layout s (columns c) headers nodes others) :
    Sized s (columns c) nodes := by
  intro k wanted
  have nodup := (List.nodup_cons.mp (layout.ring k wanted).nodup).2
  have members : ∀ x, x ∈ nodes k ↔ x ∈ (List.range' (c + 1) calls.length).filter fun x => s.col x = k := by
    intro x
    have node : s.Node x ↔ c + 1 ≤ x ∧ x < c + 1 + calls.length := by
      rw [Node, entered.heads, entered.total]
      omega
    rw [layout.mem_ring k wanted, List.mem_filter, List.mem_range'_1, decide_eq_true_eq, ← node]
    constructor
    · rintro ⟨active, column⟩
      exact ⟨active.1, column⟩
    · rintro ⟨here, column⟩
      refine ⟨⟨here, ?_⟩, column⟩
      rintro k' ⟨y, node', _, rfl⟩
      exact entered.heads ▸ layout.column y node'
  have perm := (List.perm_ext_iff_of_nodup nodup (List.Nodup.filter _ List.nodup_range')).mpr members
  rw [entered.size k, perm.length_eq]

theorem Layout.represents (layout : Layout s C headers nodes others) (sized : Sized s C nodes) (heads : s.m = c)
    (pairs : ∀ {x r k}, entry c calls x = some (r, k) ↔ s.Node x ∧ s.row x = r ∧ s.col x = k) :
    Represents c calls headers s := by
  have has : ∀ r k, s.Has r k ↔ (r, k) ∈ calls := by
    intro r k
    rw [mem_iff_entry c]
    exact exists_congr fun _ => pairs.symm
  constructor
  · intro k member
    exact heads ▸ layout.range k ((layout.mem_header k).mp member)
  · exact layout.header
  · intro k member
    have wanted := (layout.mem_header k).mp member
    refine ⟨nodes k, layout.ring k wanted, sized k wanted, fun x => ?_⟩
    rw [layout.mem_ring k wanted]
    constructor
    · rintro ⟨⟨node, all⟩, column⟩
      refine ⟨s.row x, pairs.mpr ⟨node, rfl, column⟩, fun k' inside => ?_⟩
      exact (layout.mem_header k').mpr (all k' ((has _ _).mpr inside))
    · rintro ⟨r, found, all⟩
      obtain ⟨node, rfl, column⟩ := pairs.mp found
      exact ⟨⟨node, fun k' inside => (layout.mem_header k').mp (all k' ((has _ _).mp inside))⟩, column⟩
  · intro x r k found
    obtain ⟨node, rfl, -⟩ := pairs.mp found
    refine ⟨others x, layout.line x node, fun y => ?_⟩
    rw [List.mem_cons, layout.mem_line x node]
    constructor
    · rintro (rfl | ⟨node', row, _⟩)
      · exact ⟨k, found⟩
      · exact ⟨s.col y, pairs.mpr ⟨node', row, rfl⟩⟩
    · rintro ⟨k', found'⟩
      obtain ⟨node', row, -⟩ := pairs.mp found'
      by_cases same : y = x
      · exact Or.inl same
      · exact Or.inr ⟨node', row, same⟩

theorem Called.represents (layout : Layout s (columns c) headers nodes others) (entered : Entered s c calls)
    (enough : s.tot < loops) (called : Called loops dep s dep' t) :
    t.tot < loops ∧ ∃ C headers' nodes', Layout t C headers' nodes' others ∧ Represents c calls headers' t := by
  obtain ⟨ks, stk, nodup, wanted, rfl⟩ := called.covered_eq layout enough
  have here := (layout.several nodup wanted).withStk stk
  have sized : Sized ((coveredAll others (s, nodes) ks).1.withStk stk) _ _ :=
    (entered.sized layout).several layout nodup wanted
  have heads : ((coveredAll others (s, nodes) ks).1.withStk stk).m = c :=
    (coveredAll_m others _ ks).trans entered.heads
  refine ⟨lt_of_eq_of_lt (coveredAll_tot others _ ks) enough, _, _, _, here, here.represents sized heads ?_⟩
  intro x r k
  have node : ((coveredAll others (s, nodes) ks).1.withStk stk).Node x ↔ s.Node x := coveredAll_node others _ ks x
  have row : ((coveredAll others (s, nodes) ks).1.withStk stk).row = s.row := coveredAll_row others _ ks
  have col : ((coveredAll others (s, nodes) ks).1.withStk stk).col = s.col := coveredAll_col others _ ks
  rw [entered.entry_iff, node, row, col]

end sizes

/-- For every matrix of distinct entries, in every call of `dance` that its search makes: the
columns that are left and the rows are rings of exactly their nodes, the size of a column is
the number of nodes in its ring, and a column of the smallest size is chosen. -/
theorem dance_represents (memory : DLX) (r c : Nat) (calls : List (Nat × Nat)) (distinct : calls.Nodup)
    (columns_ : ∀ call ∈ calls, 1 ≤ call.2 ∧ call.2 ≤ c) (m : DLX)
    (made : (memory.build r c).bind (insertAll calls) = some m) (loops : Nat) (enough : c + calls.length < loops)
    (start dep : Nat) (s : DLX) (called : Called loops start m dep s) :
    ∃ headers, Represents c calls headers s ∧
      (s.R 0 ≠ 0 → ∃ k ∈ headers, s.chooseColumn loops = some k ∧ ∀ k' ∈ headers, s.siz k ≤ s.siz k') := by
  obtain ⟨entered, first, nodes, others, layout⟩ := made_layout distinct columns_ made
  have room : m.tot < loops := lt_of_eq_of_lt entered.total enough
  obtain ⟨room', C, headers, nodes', layout', represents⟩ := called.represents layout entered room
  refine ⟨headers, represents, fun left_over => ?_⟩
  have nonempty : headers ≠ [] := by
    rintro rfl
    exact left_over represents.header.next_head
  obtain ⟨k, chose, member, least⟩ := chooseColumn_least layout' nonempty (layout'.length_header.trans_lt room')
  exact ⟨k, member, chose, least⟩

theorem dance_represents_two :
    ∃ m headers k, (zeros.build 2 3).bind (insertAll [(1, 1), (1, 2), (2, 2), (2, 3)]) = some m ∧
      Represents 3 [(1, 1), (1, 2), (2, 2), (2, 3)] headers m ∧ m.chooseColumn 20 = some k ∧ m.siz k = 1 ∧
      ∀ k' ∈ headers, m.siz k ≤ m.siz k' := by
  have result : (((zeros.build 2 3).bind (insertAll [(1, 1), (1, 2), (2, 2), (2, 3)])).any fun m =>
      decide (m.R 0 = 1 ∧ m.chooseColumn 20 = some 1 ∧ m.siz 1 = 1)) = true := by
    decide +kernel
  obtain ⟨m, made, facts⟩ := (Option.any_eq_true _ _).mp result
  obtain ⟨first, chose, size⟩ := of_decide_eq_true facts
  have left_over : m.R 0 ≠ 0 := by
    rw [first]
    decide
  obtain ⟨headers, represents, chosen_⟩ := dance_represents zeros 2 3 [(1, 1), (1, 2), (2, 2), (2, 3)] (by decide)
    (by decide) m made 20 (by decide) 1 1 m .self
  obtain ⟨k, -, chose', least⟩ := chosen_ left_over
  obtain rfl := Option.some.inj (chose'.symm.trans chose)
  exact ⟨m, headers, 1, made, represents, chose, size, least⟩

end DLX

end CloudLab.Sudoku
