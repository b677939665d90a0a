import CloudLab.Sudoku.DLX

/-! Covering a column and uncovering it again. The links show which columns are left: the
ring of each of these holds the nodes of the rows that have no other columns. -/

namespace CloudLab.Sudoku
open Links

namespace DLX

def Node (s : DLX) (x : Nat) : Prop := s.m < x ∧ x ≤ s.tot

def Has (s : DLX) (r k : Nat) : Prop := ∃ x, s.Node x ∧ s.row x = r ∧ s.col x = k

def Active (s : DLX) (C : Set Nat) (x : Nat) : Prop := s.Node x ∧ ∀ k, s.Has (s.row x) k → k ∈ C

/-- The state in which the columns `C` are left, with the nodes of each ring in order:
`headers` for the columns, `nodes k` for a column, `others x` for the rest of a row. -/
structure Layout (s : DLX) (C : Set Nat) (headers : List Nat) (nodes others : Nat → List Nat) : Prop where
  bounded : s.m ≤ s.tot ∧ s.tot < MAXSIZE + 10
  column : ∀ x, s.Node x → 1 ≤ s.col x ∧ s.col x ≤ s.m
  apart : ∀ x y, s.Node x → s.Node y → s.row x = s.row y → s.col x = s.col y → x = y
  range : ∀ k ∈ C, 1 ≤ k ∧ k ≤ s.m
  header : Ring s.R s.L 0 headers
  mem_header : ∀ k, k ∈ headers ↔ k ∈ C
  ring : ∀ k ∈ C, Ring s.D s.U k (nodes k)
  mem_ring : ∀ k ∈ C, ∀ x, x ∈ nodes k ↔ s.Active C x ∧ s.col x = k
  line : ∀ x, s.Node x → Ring s.R s.L x (others x)
  mem_line : ∀ x, s.Node x → ∀ y, y ∈ others x ↔ s.Node y ∧ s.row y = s.row x ∧ y ≠ x

/-! The single steps. -/

def unlinked (s : DLX) (x : Nat) : DLX :=
  { s with U := put s.U (s.D x) (s.U x), D := put s.D (s.U x) (s.D x),
           siz := put s.siz (s.col x) (s.siz (s.col x) - 1) }

def unlinkedAll (s : DLX) (xs : List Nat) : DLX := xs.foldl unlinked s

def hidden (s : DLX) (k : Nat) : DLX :=
  { s with L := put s.L (s.R k) (s.L k), R := put s.R (s.L k) (s.R k) }

section steps
variable {s : DLX} {x : Nat}

theorem unlinkedAll_snoc (s : DLX) (xs : List Nat) (x : Nat) :
    s.unlinkedAll (xs ++ [x]) = (s.unlinkedAll xs).unlinked x := by
  simp [unlinkedAll]

theorem unlinkedAll_keeps {β : Type} (field : DLX → β) (keeps : ∀ s x, field (unlinked s x) = field s) (s : DLX)
    (xs : List Nat) : field (s.unlinkedAll xs) = field s := by
  induction xs using List.reverseRecOn with
  | nil => rfl
  | append_singleton xs x ih => rw [unlinkedAll_snoc, keeps, ih]

@[simp] theorem unlinkedAll_m (s : DLX) (xs : List Nat) : (s.unlinkedAll xs).m = s.m :=
  unlinkedAll_keeps DLX.m (fun _ _ => rfl) s xs

@[simp] theorem unlinkedAll_tot (s : DLX) (xs : List Nat) : (s.unlinkedAll xs).tot = s.tot :=
  unlinkedAll_keeps DLX.tot (fun _ _ => rfl) s xs

@[simp] theorem unlinkedAll_L (s : DLX) (xs : List Nat) : (s.unlinkedAll xs).L = s.L :=
  unlinkedAll_keeps DLX.L (fun _ _ => rfl) s xs

@[simp] theorem unlinkedAll_R (s : DLX) (xs : List Nat) : (s.unlinkedAll xs).R = s.R :=
  unlinkedAll_keeps DLX.R (fun _ _ => rfl) s xs

@[simp] theorem unlinkedAll_col (s : DLX) (xs : List Nat) : (s.unlinkedAll xs).col = s.col :=
  unlinkedAll_keeps DLX.col (fun _ _ => rfl) s xs

@[simp] theorem unlinkedAll_row (s : DLX) (xs : List Nat) : (s.unlinkedAll xs).row = s.row :=
  unlinkedAll_keeps DLX.row (fun _ _ => rfl) s xs

@[simp] theorem hidden_m (s : DLX) (k : Nat) : (s.hidden k).m = s.m := rfl

@[simp] theorem hidden_tot (s : DLX) (k : Nat) : (s.hidden k).tot = s.tot := rfl

@[simp] theorem hidden_col (s : DLX) (k : Nat) : (s.hidden k).col = s.col := rfl

@[simp] theorem hidden_row (s : DLX) (k : Nat) : (s.hidden k).row = s.row := rfl

theorem unlinkNode_eq (fits : inside [x, s.D x, s.U x, s.col x] = some ()) :
    s.unlinkNode x = some (s.unlinked x) := by
  have kept : put s.U (s.D x) (s.U x) x = s.U x := unlink_self s.U s.D x
  simp only [unlinkNode, fits, Option.bind_eq_bind, Option.bind_some, kept]
  rfl

theorem relinkNode_unlinked (fits : inside [x, s.D x, s.U x, s.col x] = some ()) (down : s.D (s.U x) = x)
    (up : s.U (s.D x) = x) : (s.unlinked x).relinkNode x = some s := by
  have keptU : (s.unlinked x).U x = s.U x := unlink_self s.U s.D x
  have keptD : (s.unlinked x).D x = s.D x := unlink_self s.D s.U x
  have restD : put (s.unlinked x).D (s.U x) x = s.D := relink_unlink s.D s.U down
  have restU : put (s.unlinked x).U (s.D x) x = s.U := relink_unlink s.U s.D up
  have size : put (s.unlinked x).siz ((s.unlinked x).col x) ((s.unlinked x).siz ((s.unlinked x).col x) + 1) =
      s.siz := by
    simp [unlinked, put]
  have fits' : inside [x, (s.unlinked x).D x, s.U x, (s.unlinked x).col x] = some () := by
    rw [keptD]
    exact fits
  simp only [relinkNode, keptU, fits', Option.bind_eq_bind, Option.bind_some, restD, restU, size]
  rfl

end steps

section layout
variable {s : DLX} {C : Set Nat} {headers : List Nat} {nodes others : Nat → List Nat} {k c x y i : Nat}
  {xs ys : List Nat}

theorem inside_small {indices : List Nat} (small : ∀ i ∈ indices, i < MAXSIZE + 10) : inside indices = some () :=
  if_pos small

theorem filter_snoc (l xs : List Nat) (x : Nat) :
    l.filter (· ∉ xs ++ [x]) = (l.filter (· ∉ xs)).filter (· ≠ x) := by
  rw [List.filter_filter]
  refine List.filter_congr fun y _ => ?_
  simp only [List.mem_append, List.mem_singleton, not_or, Bool.decide_and]
  exact Bool.and_comm _ _

def without (C : Set Nat) (ks : List Nat) : Set Nat := {c | c ∈ C ∧ c ∉ ks}

/-- The nodes that `remove` unlinks: the other nodes of the rows with a node in the column. -/
def swept (nodes others : Nat → List Nat) (k : Nat) : List Nat := (nodes k).flatMap others

namespace Layout

theorem small (layout : Layout s C headers nodes others) (node : s.Node x) : x < MAXSIZE + 10 :=
  Nat.lt_of_le_of_lt node.2 layout.bounded.2

theorem small_column (layout : Layout s C headers nodes others) (wanted : k ∈ C) : k < MAXSIZE + 10 :=
  Nat.lt_of_le_of_lt ((layout.range k wanted).2.trans layout.bounded.1) layout.bounded.2

theorem small_ring (layout : Layout s C headers nodes others) (wanted : k ∈ C) (member : x ∈ k :: nodes k) :
    x < MAXSIZE + 10 := by
  rcases List.mem_cons.mp member with rfl | inner
  · exact layout.small_column wanted
  · exact layout.small ((layout.mem_ring k wanted x).mp inner).1.1

theorem active_row (active : s.Active C x) (node : s.Node y)
    (same : s.row y = s.row x) : s.Active C y ∧ s.col y ∈ C :=
  ⟨⟨node, same ▸ active.2⟩, active.2 _ ⟨y, node, same, rfl⟩⟩

theorem ring_apart (layout : Layout s C headers nodes others) (wanted : k ∈ C) (wanted' : c ∈ C)
    (member : x ∈ k :: nodes k) (member' : x ∈ c :: nodes c) : k = c := by
  have head : ∀ {j}, j ∈ C → ∀ {i}, i ∈ C → j ∉ nodes i := by
    intro j inside i wanted member
    have node := ((layout.mem_ring i wanted j).mp member).1.1
    have bound := (layout.range j inside).2
    have above := node.1
    omega
  rcases List.mem_cons.mp member with rfl | inner
  · rcases List.mem_cons.mp member' with same | inner'
    · exact same
    · exact absurd inner' (head wanted wanted')
  · rcases List.mem_cons.mp member' with rfl | inner'
    · exact absurd inner (head wanted' wanted)
    · rw [← ((layout.mem_ring k wanted x).mp inner).2, ← ((layout.mem_ring c wanted' x).mp inner').2]

theorem mem_swept (layout : Layout s C headers nodes others) (wanted : k ∈ C) :
    x ∈ swept nodes others k ↔ s.Active C x ∧ s.Has (s.row x) k ∧ s.col x ≠ k := by
  rw [swept, List.mem_flatMap]
  constructor
  · rintro ⟨i, member, inside⟩
    obtain ⟨active, column⟩ := (layout.mem_ring k wanted i).mp member
    obtain ⟨node, same, other⟩ := (layout.mem_line i active.1 x).mp inside
    refine ⟨(active_row active node same).1, ⟨i, active.1, same.symm, column⟩, fun here => other ?_⟩
    exact layout.apart x i node active.1 same (here.trans column.symm)
  · rintro ⟨active, ⟨i, node, same, column⟩, other⟩
    refine ⟨i, (layout.mem_ring k wanted i).mpr ⟨(active_row active node same).1, column⟩, ?_⟩
    refine (layout.mem_line i node x).mpr ⟨active.1, same.symm, fun here => other ?_⟩
    rw [here, column]

theorem nodup_swept (layout : Layout s C headers nodes others) (wanted : k ∈ C) : (swept nodes others k).Nodup := by
  rw [swept, List.nodup_flatMap]
  constructor
  · intro i member
    have node := ((layout.mem_ring k wanted i).mp member).1.1
    exact (List.nodup_cons.mp (layout.line i node).nodup).2
  · refine (List.nodup_cons.mp (layout.ring k wanted).nodup).2.imp_of_mem ?_
    intro i j first second different x member member'
    obtain ⟨active, column⟩ := (layout.mem_ring k wanted i).mp first
    obtain ⟨active', column'⟩ := (layout.mem_ring k wanted j).mp second
    have same := ((layout.mem_line i active.1 x).mp member).2.1
    have same' := ((layout.mem_line j active'.1 x).mp member').2.1
    exact different (layout.apart i j active.1 active'.1 (same.symm.trans same') (column.trans column'.symm))

theorem left_swept (layout : Layout s C headers nodes others) (wanted : k ∈ C)
    (split : swept nodes others k = xs ++ x :: ys) :
    s.Active C x ∧ s.col x ∈ C ∧ x ∈ (nodes (s.col x)).filter (· ∉ xs) := by
  have member : x ∈ swept nodes others k := by rw [split]; simp
  have active := ((layout.mem_swept wanted).mp member).1
  have column : s.col x ∈ C := active.2 _ ⟨x, active.1, rfl, rfl⟩
  have fresh : x ∉ xs := by
    have nodup := layout.nodup_swept wanted
    rw [split, List.nodup_append] at nodup
    exact fun old => nodup.2.2 x old x (by simp) rfl
  exact ⟨active, column, by simp [(layout.mem_ring (s.col x) column x).mpr ⟨active, rfl⟩, fresh]⟩

theorem elsewhere_swept (layout : Layout s C headers nodes others) (wanted : c ∈ C) (other : c ≠ s.col x) :
    ((nodes c).filter (· ∉ xs)).filter (· ≠ x) = (nodes c).filter (· ∉ xs) := by
  refine List.filter_eq_self.mpr fun y member => ?_
  have there := (layout.mem_ring c wanted y).mp (List.mem_filter.mp member).1
  exact decide_eq_true fun here => other (by rw [← there.2, here])

theorem ring_swept (layout : Layout s C headers nodes others) (wanted : k ∈ C)
    (split : swept nodes others k = xs ++ ys) (wanted' : c ∈ C) :
    Ring ((s.hidden k).unlinkedAll xs).D ((s.hidden k).unlinkedAll xs).U c ((nodes c).filter (· ∉ xs)) := by
  induction xs using List.reverseRecOn generalizing ys c with
  | nil =>
    have all : (nodes c).filter (· ∉ ([] : List Nat)) = nodes c := by simp
    rw [all]
    exact layout.ring c wanted'
  | append_singleton xs x ih =>
    have split' : swept nodes others k = xs ++ x :: ys := by rw [split]; simp
    obtain ⟨_, inside, here⟩ := layout.left_swept wanted split'
    have ring := ih split' inside
    rw [unlinkedAll_snoc, filter_snoc]
    by_cases same : c = s.col x
    · subst same
      exact ring.unlink here
    · rw [layout.elsewhere_swept wanted' same]
      refine (ih split' wanted').congr fun y among => ?_
      have outside : ∀ z ∈ s.col x :: (nodes (s.col x)).filter (· ∉ xs), y ≠ z := by
        rintro z there rfl
        have whole : ∀ {j}, y ∈ j :: (nodes j).filter (· ∉ xs) → y ∈ j :: nodes j := by
          intro j filtered
          rcases List.mem_cons.mp filtered with head | inner
          · exact List.mem_cons.mpr (Or.inl head)
          · exact List.mem_cons_of_mem _ (List.mem_filter.mp inner).1
        exact same (layout.ring_apart wanted' inside (whole among) (whole there))
      have up := ring.prev_mem (List.mem_cons_of_mem _ here)
      have down := ring.next_mem (List.mem_cons_of_mem _ here)
      exact ⟨Function.update_of_ne (outside _ up) .., Function.update_of_ne (outside _ down) ..⟩

theorem ring_own (layout : Layout s C headers nodes others) (wanted : k ∈ C)
    (split : swept nodes others k = xs ++ ys) :
    Ring ((s.hidden k).unlinkedAll xs).D ((s.hidden k).unlinkedAll xs).U k (nodes k) := by
  have kept : (nodes k).filter (· ∉ xs) = nodes k := by
    refine List.filter_eq_self.mpr fun x member => decide_eq_true fun gone => ?_
    have there : x ∈ swept nodes others k := by
      rw [split]
      exact List.mem_append_left _ gone
    exact ((layout.mem_swept wanted).mp there).2.2 ((layout.mem_ring k wanted x).mp member).2
  rw [← kept]
  exact layout.ring_swept wanted split wanted

theorem next_swept (layout : Layout s C headers nodes others) (wanted : k ∈ C)
    (split : swept nodes others k = xs ++ x :: ys) {t : DLX} (at_ : t = (s.hidden k).unlinkedAll xs) :
    inside [x, t.D x, t.U x, t.col x] = some () ∧ t.D (t.U x) = x ∧ t.U (t.D x) = x := by
  obtain ⟨active, column, here⟩ := layout.left_swept wanted split
  have ring := layout.ring_swept wanted split column
  have whole : ∀ y ∈ s.col x :: (nodes (s.col x)).filter (· ∉ xs), y < MAXSIZE + 10 := by
    intro y member
    refine layout.small_ring column ?_
    rcases List.mem_cons.mp member with head | inner
    · exact List.mem_cons.mpr (Or.inl head)
    · exact List.mem_cons_of_mem _ (List.mem_filter.mp inner).1
  subst at_
  refine ⟨inside_small ?_, ring.next_prev here, ring.prev_next here⟩
  have around := List.mem_cons_of_mem (s.col x) here
  simp only [List.mem_cons, List.not_mem_nil, or_false, forall_eq_or_imp, forall_eq]
  refine ⟨layout.small active.1, whole _ (ring.next_mem around), whole _ (ring.prev_mem around), ?_⟩
  rw [unlinkedAll_col]
  exact layout.small_column column

theorem line_hidden (layout : Layout s C headers nodes others) (wanted : k ∈ C) (node : s.Node x) (xs : List Nat) :
    Ring ((s.hidden k).unlinkedAll xs).R ((s.hidden k).unlinkedAll xs).L x (others x) := by
  rw [unlinkedAll_R, unlinkedAll_L]
  refine (layout.line x node).congr fun y member => ?_
  have above : s.m < y := by
    rcases List.mem_cons.mp member with rfl | inner
    · exact node.1
    · exact ((layout.mem_line x node y).mp inner).1.1
  have head : ∀ z ∈ 0 :: headers, y ≠ z := by
    intro z among same
    rcases List.mem_cons.mp among with rfl | inner
    · omega
    · have bound := (layout.range z ((layout.mem_header z).mp inner)).2
      omega
  have around := List.mem_cons_of_mem 0 ((layout.mem_header k).mpr wanted)
  exact ⟨Function.update_of_ne (head _ (layout.header.prev_mem around)) ..,
    Function.update_of_ne (head _ (layout.header.next_mem around)) ..⟩

theorem length_ring {next prev : Nat → Nat} {head : Nat} {l : List Nat}
    (ring : Ring next prev head l) (small : ∀ x ∈ head :: l, x ≤ s.tot) : l.length ≤ s.tot := by
  have among : (head :: l) ⊆ List.range (s.tot + 1) := fun x member =>
    List.mem_range.mpr (Nat.lt_succ_of_le (small x member))
  have short := (List.subperm_of_subset ring.nodup among).length_le
  simpa using short

theorem length_column (layout : Layout s C headers nodes others) (wanted : k ∈ C) : (nodes k).length ≤ s.tot := by
  refine length_ring (layout.ring k wanted) fun x member => ?_
  rcases List.mem_cons.mp member with rfl | inner
  · exact (layout.range x wanted).2.trans layout.bounded.1
  · exact ((layout.mem_ring k wanted x).mp inner).1.1.2

theorem length_line (layout : Layout s C headers nodes others) (node : s.Node x) : (others x).length ≤ s.tot := by
  refine length_ring (layout.line x node) fun y member => ?_
  rcases List.mem_cons.mp member with rfl | inner
  · exact node.2
  · exact ((layout.mem_line x node y).mp inner).1.2

theorem fits_header (layout : Layout s C headers nodes others) (wanted : k ∈ C) :
    inside [k, s.L k, s.R k] = some () := by
  have around := List.mem_cons_of_mem 0 ((layout.mem_header k).mpr wanted)
  have heads : ∀ z ∈ 0 :: headers, z < MAXSIZE + 10 := by
    intro z member
    rcases List.mem_cons.mp member with rfl | inner
    · decide
    · exact layout.small_column ((layout.mem_header z).mp inner)
  exact inside_small (by
    simpa using ⟨heads k around, heads _ (layout.header.prev_mem around), heads _ (layout.header.next_mem around)⟩)

theorem fits_node (layout : Layout s C headers nodes others) (node : s.Node x) : inside [x] = some () :=
  inside_small (by simpa using layout.small node)

theorem unlinkRow_eq (layout : Layout s C headers nodes others) (wanted : k ∈ C) {loops : Nat}
    (enough : s.tot < loops) {done rest : List Nat} (split : nodes k = done ++ i :: rest) :
    ((s.hidden k).unlinkedAll (done.flatMap others)).unlinkRow loops i =
      some ((s.hidden k).unlinkedAll (done.flatMap others ++ others i)) := by
  have node : s.Node i := ((layout.mem_ring k wanted i).mp (by rw [split]; simp)).1.1
  have links := fun xs => layout.line_hidden wanted node xs
  obtain ⟨t, ran, rfl⟩ := follow_rule right unlinkNode loops
    (fun done' _ t => t = (s.hidden k).unlinkedAll (done.flatMap others ++ done')) (others i)
    (List.nodup_cons.mp (layout.line i node).nodup).1 (by
      rintro done' x rest' t split' rfl
      have whole : swept nodes others k =
          (done.flatMap others ++ done') ++ x :: (rest' ++ rest.flatMap others) := by
        rw [swept, split]
        simp [split']
      have inner : s.Node x := ((layout.mem_line i node x).mp (by rw [split']; simp)).1
      have follows := links (done.flatMap others ++ (done' ++ [x]))
      rw [split'] at follows
      refine ⟨_, unlinkNode_eq (layout.next_swept wanted whole rfl).1, ?_, ?_⟩
      · rw [← unlinkedAll_snoc, List.append_assoc]
      · rw [← unlinkedAll_snoc, List.append_assoc]
        simp only [right, layout.fits_node inner, Option.bind_eq_bind, Option.bind_some]
        exact congrArg some follows.next_node)
    ((layout.length_line node).trans_lt enough) rfl
  simp only [unlinkRow, right, layout.fits_node node, Option.bind_eq_bind, Option.bind_some,
    (links (done.flatMap others)).next_head]
  rw [List.append_nil] at ran
  exact ran

/-- `remove` unlinks the nodes one by one. -/
theorem remove_eq (layout : Layout s C headers nodes others) (wanted : k ∈ C) {loops : Nat} (enough : s.tot < loops) :
    s.remove loops k = some ((s.hidden k).unlinkedAll (swept nodes others k)) := by
  have kept : put s.L (s.R k) (s.L k) k = s.L k := unlink_self s.L s.R k
  have fits : inside [k] = some () := inside_small (by simpa using layout.small_column wanted)
  have ring := layout.ring k wanted
  obtain ⟨t, ran, rfl⟩ := follow_rule down (unlinkRow loops) loops
    (fun done _ t => t = (s.hidden k).unlinkedAll (done.flatMap others)) (nodes k)
    (List.nodup_cons.mp ring.nodup).1 (by
      rintro done i rest t split rfl
      have node : s.Node i := ((layout.mem_ring k wanted i).mp (by rw [split]; simp)).1.1
      have whole : swept nodes others k = (done.flatMap others ++ others i) ++ rest.flatMap others := by
        rw [swept, split]
        simp
      have links := layout.ring_own wanted whole
      rw [split] at links
      refine ⟨_, layout.unlinkRow_eq wanted enough split, by simp, ?_⟩
      simp only [down, layout.fits_node node, Option.bind_eq_bind, Option.bind_some]
      exact congrArg some links.next_node)
    ((layout.length_column wanted).trans_lt enough) rfl
  simp only [remove, layout.fits_header wanted, Option.bind_eq_bind, Option.bind_some, kept, down, fits, ring.next_head]
  exact ran

theorem relinkRow_eq (layout : Layout s C headers nodes others) (wanted : k ∈ C) {loops : Nat}
    (enough : s.tot < loops) {done rest : List Nat} (split : nodes k = done ++ i :: rest) :
    ((s.hidden k).unlinkedAll (done.flatMap others ++ others i)).relinkRow loops i =
      some ((s.hidden k).unlinkedAll (done.flatMap others)) := by
  have node : s.Node i := ((layout.mem_ring k wanted i).mp (by rw [split]; simp)).1.1
  have links := fun xs => (layout.line_hidden wanted node xs).reverse
  obtain ⟨t, ran, rfl⟩ := follow_rule left relinkNode loops
    (fun _ rest' t => t = (s.hidden k).unlinkedAll (done.flatMap others ++ rest'.reverse)) (others i).reverse
    (List.nodup_cons.mp (layout.line i node).reverse.nodup).1 (by
      rintro done' x rest' t split' rfl
      have line : others i = rest'.reverse ++ x :: done'.reverse := by
        rw [← List.reverse_reverse (others i), split']
        simp
      have whole : swept nodes others k =
          (done.flatMap others ++ rest'.reverse) ++ x :: (done'.reverse ++ rest.flatMap others) := by
        rw [swept, split]
        simp [line]
      have inner : s.Node x := ((layout.mem_line i node x).mp (by rw [line]; simp)).1
      obtain ⟨fits, down, up⟩ := layout.next_swept wanted whole rfl
      have follows := links (done.flatMap others ++ rest'.reverse)
      rw [split'] at follows
      refine ⟨_, ?_, rfl, ?_⟩
      · rw [List.reverse_cons, ← List.append_assoc, unlinkedAll_snoc]
        exact relinkNode_unlinked fits down up
      · simp only [left, layout.fits_node inner, Option.bind_eq_bind, Option.bind_some]
        exact congrArg some follows.next_node)
    (by simpa using (layout.length_line node).trans_lt enough) rfl
  rw [List.reverse_reverse] at ran
  simp only [relinkRow, left, layout.fits_node node, Option.bind_eq_bind, Option.bind_some, (links _).next_head]
  rw [List.reverse_nil, List.append_nil] at ran
  exact ran

/-- `recover` undoes `remove`. -/
theorem recover_eq (layout : Layout s C headers nodes others) (wanted : k ∈ C) {loops : Nat}
    (enough : s.tot < loops) : ((s.hidden k).unlinkedAll (swept nodes others k)).recover loops k = some s := by
  have fits : inside [k] = some () := inside_small (by simpa using layout.small_column wanted)
  have member := (layout.mem_header k).mpr wanted
  have keptL : (s.hidden k).L k = s.L k := unlink_self s.L s.R k
  have keptR : (s.hidden k).R k = s.R k := unlink_self s.R s.L k
  have restR : put (s.hidden k).R (s.L k) k = s.R := relink_unlink s.R s.L (layout.header.next_prev member)
  have restL : put (s.hidden k).L (s.R k) k = s.L := relink_unlink s.L s.R (layout.header.prev_next member)
  have all := layout.ring_own wanted (List.append_nil _).symm
  obtain ⟨t, ran, rfl⟩ := follow_rule up (relinkRow loops) loops
    (fun _ rest t => t = (s.hidden k).unlinkedAll (rest.reverse.flatMap others)) (nodes k).reverse
    (List.nodup_cons.mp all.reverse.nodup).1 (by
      rintro done i rest t split rfl
      have column : nodes k = rest.reverse ++ i :: done.reverse := by
        rw [← List.reverse_reverse (nodes k), split]
        simp
      have node : s.Node i := ((layout.mem_ring k wanted i).mp (by rw [column]; simp)).1.1
      have whole : swept nodes others k = rest.reverse.flatMap others ++ (i :: done.reverse).flatMap others := by
        rw [swept, column, List.flatMap_append]
      have links := (layout.ring_own wanted whole).reverse
      rw [split] at links
      have grown : (i :: rest).reverse.flatMap others = rest.reverse.flatMap others ++ others i := by simp
      refine ⟨_, ?_, rfl, ?_⟩
      · rw [grown]
        exact layout.relinkRow_eq wanted enough column
      · simp only [up, layout.fits_node node, Option.bind_eq_bind, Option.bind_some]
        exact congrArg some links.next_node)
    (by simpa using (layout.length_column wanted).trans_lt enough) rfl
  rw [List.reverse_reverse] at ran
  have fits' : inside [k, s.L k, (s.hidden k).R k] = some () := by
    rw [keptR]
    exact layout.fits_header wanted
  simp only [recover, up, fits, Option.bind_eq_bind, Option.bind_some, all.reverse.next_head]
  rw [← swept] at ran
  have done : (s.hidden k).unlinkedAll (([] : List Nat).reverse.flatMap others) = s.hidden k := rfl
  rw [done] at ran
  simp only [ran, Option.bind_some, keptL, fits', restR, restL]
  rfl

theorem removed (layout : Layout s C headers nodes others) (wanted : k ∈ C) :
    Layout ((s.hidden k).unlinkedAll (swept nodes others k)) (without C [k]) (headers.filter (· ≠ k))
      (fun c => (nodes c).filter (· ∉ swept nodes others k)) others := by
  have member := (layout.mem_header k).mpr wanted
  have node : ∀ x, ((s.hidden k).unlinkedAll (swept nodes others k)).Node x ↔ s.Node x := by simp [Node]
  have has : ∀ r c, ((s.hidden k).unlinkedAll (swept nodes others k)).Has r c ↔ s.Has r c := by
    simp [Has, node]
  have active : ∀ x, ((s.hidden k).unlinkedAll (swept nodes others k)).Active (without C [k]) x ↔
      s.Active C x ∧ ¬ s.Has (s.row x) k := by
    intro x
    simp only [Active, node, has, unlinkedAll_row]
    constructor
    · rintro ⟨here, all⟩
      exact ⟨⟨here, fun c inside => (all c inside).1⟩, fun bad => (all k bad).2 (by simp)⟩
    · rintro ⟨⟨here, all⟩, apart⟩
      refine ⟨here, fun c inside => ⟨all c inside, fun same => apart ?_⟩⟩
      rwa [← List.mem_singleton.mp same]
  constructor
  · simpa using layout.bounded
  · simpa [node] using layout.column
  · simpa [node] using layout.apart
  · intro c inside
    simpa using layout.range c inside.1
  · rw [unlinkedAll_R, unlinkedAll_L]
    exact layout.header.unlink member
  · intro c
    simp [layout.mem_header, without]
  · exact fun c inside => layout.ring_swept wanted (List.append_nil _).symm inside.1
  · rintro c ⟨inside, other⟩ x
    rw [List.mem_filter, layout.mem_ring c inside, decide_eq_true_eq, layout.mem_swept wanted, active,
      unlinkedAll_col]
    show (s.Active C x ∧ s.col x = c) ∧ _ ↔ (s.Active C x ∧ ¬ s.Has (s.row x) k) ∧ s.col x = c
    constructor
    · rintro ⟨⟨here, column⟩, kept⟩
      exact ⟨⟨here, fun bad => kept ⟨here, bad, fun same => other (by simp [← column, same])⟩⟩, column⟩
    · rintro ⟨⟨here, apart⟩, column⟩
      exact ⟨⟨here, column⟩, fun gone => apart gone.2.1⟩
  · intro x here
    exact layout.line_hidden wanted ((node x).mp here) _
  · intro x here y
    rw [layout.mem_line x ((node x).mp here), node]
    simp

end Layout

end layout

/-! Several columns in turn. -/

def withStk (s : DLX) (stk : Nat → Nat) : DLX := { s with stk := stk }

def covered (others : Nat → List Nat) (state : DLX × (Nat → List Nat)) (k : Nat) : DLX × (Nat → List Nat) :=
  ((state.1.hidden k).unlinkedAll (swept state.2 others k),
    fun c => (state.2 c).filter (· ∉ swept state.2 others k))

def coveredAll (others : Nat → List Nat) (state : DLX × (Nat → List Nat)) (ks : List Nat) :
    DLX × (Nat → List Nat) :=
  ks.foldl (covered others) state

section several
variable {s : DLX} {C : Set Nat} {headers : List Nat} {nodes others : Nat → List Nat} {k i : Nat} {ks : List Nat}
  {stk : Nat → Nat} {loops : Nat}

theorem unlinkedAll_stk (s : DLX) (stk : Nat → Nat) (xs : List Nat) :
    (s.withStk stk).unlinkedAll xs = (s.unlinkedAll xs).withStk stk := by
  induction xs using List.reverseRecOn with
  | nil => rfl
  | append_singleton xs x ih =>
    rw [unlinkedAll_snoc, unlinkedAll_snoc, ih]
    rfl

theorem coveredAll_stk (s : DLX) (stk : Nat → Nat) (nodes : Nat → List Nat) (ks : List Nat) :
    coveredAll others (s.withStk stk, nodes) ks =
      ((coveredAll others (s, nodes) ks).1.withStk stk, (coveredAll others (s, nodes) ks).2) := by
  induction ks generalizing s nodes with
  | nil => rfl
  | cons k ks ih =>
    have first : covered others (s.withStk stk, nodes) k =
        ((covered others (s, nodes) k).1.withStk stk, (covered others (s, nodes) k).2) :=
      Prod.ext (unlinkedAll_stk (s.hidden k) stk _) rfl
    rw [coveredAll, List.foldl_cons, first]
    exact ih _ _

theorem Layout.withStk (layout : Layout s C headers nodes others) (stk : Nat → Nat) :
    Layout (s.withStk stk) C headers nodes others :=
  ⟨layout.bounded, layout.column, layout.apart, layout.range, layout.header, layout.mem_header,
    layout.ring, layout.mem_ring, layout.line, layout.mem_line⟩

theorem coveredAll_snoc (state : DLX × (Nat → List Nat)) (ks : List Nat) (k : Nat) :
    coveredAll others state (ks ++ [k]) = covered others (coveredAll others state ks) k := by
  simp [coveredAll]

theorem coveredAll_append (state : DLX × (Nat → List Nat)) (ks ks' : List Nat) :
    coveredAll others state (ks ++ ks') = coveredAll others (coveredAll others state ks) ks' :=
  List.foldl_append

theorem coveredAll_keeps {β : Type} (field : DLX → β) (keeps : ∀ s x, field (unlinked s x) = field s)
    (hides : ∀ s k, field (hidden s k) = field s) (state : DLX × (Nat → List Nat)) (ks : List Nat) :
    field (coveredAll others state ks).1 = field state.1 := by
  induction ks using List.reverseRecOn with
  | nil => rfl
  | append_singleton ks k ih =>
    rw [coveredAll_snoc, covered, unlinkedAll_keeps field keeps, hides, ih]

theorem Layout.several (layout : Layout s C headers nodes others) (nodup : ks.Nodup) (wanted : ∀ k ∈ ks, k ∈ C) :
    Layout (coveredAll others (s, nodes) ks).1 (without C ks) (headers.filter (· ∉ ks))
      (coveredAll others (s, nodes) ks).2 others := by
  induction ks using List.reverseRecOn with
  | nil =>
    have columns : without C [] = C := by simp [without]
    have all : headers.filter (· ∉ ([] : List Nat)) = headers := by simp
    rw [columns, all]
    exact layout
  | append_singleton ks k ih =>
    rw [List.nodup_append] at nodup
    have before := ih nodup.1 fun j member => wanted j (List.mem_append_left _ member)
    have here : k ∈ without C ks :=
      ⟨wanted k (by simp), fun member => nodup.2.2 k member k (by simp) rfl⟩
    have columns : without C (ks ++ [k]) = without (without C ks) [k] := by
      ext c
      simp [without, and_assoc]
    rw [columns, filter_snoc, coveredAll_snoc]
    exact before.removed here

theorem Layout.remove_next (layout : Layout s C headers nodes others) (nodup : (ks ++ [k]).Nodup)
    (wanted : ∀ j ∈ ks ++ [k], j ∈ C) (enough : s.tot < loops) :
    (coveredAll others (s, nodes) ks).1.remove loops k =
        some (coveredAll others (s, nodes) (ks ++ [k])).1 ∧
      (coveredAll others (s, nodes) (ks ++ [k])).1.recover loops k =
        some (coveredAll others (s, nodes) ks).1 := by
  rw [List.nodup_append] at nodup
  have before := layout.several nodup.1 fun j member => wanted j (List.mem_append_left _ member)
  have here : k ∈ without C ks := ⟨wanted k (by simp), fun member => nodup.2.2 k member k (by simp) rfl⟩
  have enough' : (coveredAll others (s, nodes) ks).1.tot < loops := by
    rw [coveredAll_keeps DLX.tot (fun _ _ => rfl) fun _ _ => rfl]
    exact enough
  rw [coveredAll_snoc]
  exact ⟨before.remove_eq here enough', before.recover_eq here enough'⟩

end several

end DLX

end CloudLab.Sudoku
