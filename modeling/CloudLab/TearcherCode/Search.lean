import CloudLab.TearcherCode.Dance
import CloudLab.Sudoku.Dance

/-! The search with dancing links. The links are those of the other solver, so that its lemmas about
covered columns hold here too. -/

namespace CloudLab.TearcherCode
open Links
open Sudoku (DLX put MAXSIZE)
open Sudoku.DLX

namespace Dance

/-- The object with these links and sizes. -/
def withLinks (d : Dance) (s : DLX) : Dance :=
  { d with left := s.L, right := s.R, up := s.U, down := s.D, size := s.siz }

section cover
variable {d : Dance} {s t : DLX} {C : Set Nat} {headers : List Nat} {nodes others : Nat → List Nat} {k i : Nat}
  {loops : Nat}

theorem unlink_withLinks (same : s.col = d.col) (j : Nat) :
    (d.withLinks s).unlink j = d.withLinks (s.unlinked j) := by
  have kept : put s.U (s.D j) (s.U j) j = s.U j := unlink_self s.U s.D j
  simp only [unlink, withLinks, unlinked, same, kept]

theorem relink_withLinks (same : s.col = d.col) {j : Nat} (down : s.D (s.U j) = j) (up : s.U (s.D j) = j) :
    (d.withLinks (s.unlinked j)).relink j = d.withLinks s := by
  have keptD : (s.unlinked j).D j = s.D j := unlink_self s.D s.U j
  have restU : put (s.unlinked j).U (s.D j) j = s.U := relink_unlink s.U s.D up
  have restD : put (s.unlinked j).D (s.U j) j = s.D := relink_unlink s.D s.U down
  have size : put (s.unlinked j).siz (d.col j) ((s.unlinked j).siz (d.col j) + 1) = s.siz := by
    rw [← same]
    simp [unlinked, put]
  simp only [relink, withLinks, keptD, restU, restD, size]
  rfl

theorem right_some {s : DLX} {x y : Nat} (read : s.right x = some y) : s.R x = y := by
  obtain ⟨_, _, read⟩ := Option.bind_eq_some_iff.mp read
  exact Option.some.inj read

theorem down_some {s : DLX} {x y : Nat} (read : s.down x = some y) : s.D x = y := by
  obtain ⟨_, _, read⟩ := Option.bind_eq_some_iff.mp read
  exact Option.some.inj read

theorem coverRow_withLinks (same : s.col = d.col) (ran : s.unlinkRow loops i = some t) :
    t.col = d.col ∧ (d.withLinks s).coverRow loops i = some (d.withLinks t) := by
  obtain ⟨j, first, ran⟩ := Option.bind_eq_some_iff.mp ran
  rw [coverRow]
  have begins : (d.withLinks s).right i = j := right_some first
  rw [begins]
  refine follow_map d.withLinks (fun s => s.col = d.col) (fun x s s' same ran => ?_) (fun s x y read => ?_) same ran
  · obtain ⟨_, fits, _⟩ := Option.bind_eq_some_iff.mp ran
    rw [unlinkNode_eq fits] at ran
    obtain rfl := Option.some.inj ran
    exact ⟨same, congrArg some (unlink_withLinks same x)⟩
  · exact congrArg some (right_some read)

theorem cover_withLinks (same : s.col = d.col) (ran : s.remove loops k = some t) :
    t.col = d.col ∧ (d.withLinks s).cover loops k = some (d.withLinks t) := by
  obtain ⟨_, _, ran⟩ := Option.bind_eq_some_iff.mp ran
  obtain ⟨i, first, ran⟩ := Option.bind_eq_some_iff.mp ran
  have begins : s.D k = i := down_some first
  subst begins
  have turns : t.col = d.col ∧ follow (fun (d : Dance) row => some (d.down row)) k (coverRow loops) loops (s.D k)
      (d.withLinks _) = some (d.withLinks t) :=
    follow_map d.withLinks (fun s => s.col = d.col) (fun x s s' same ran => coverRow_withLinks same ran)
      (fun s x y read => congrArg some (down_some read)) (by exact same) ran
  exact turns

theorem coverOthers_withLinks (same : s.col = d.col) (ran : s.removeOthers loops i = some t) :
    t.col = d.col ∧ (d.withLinks s).coverOthers loops i = some (d.withLinks t) := by
  obtain ⟨j, first, ran⟩ := Option.bind_eq_some_iff.mp ran
  have begins : s.R i = j := right_some first
  subst begins
  have turns : t.col = d.col ∧ follow (fun (d : Dance) j => some (d.right j)) i (fun j d => d.cover loops (d.col j))
      loops (s.R i) (d.withLinks s) = some (d.withLinks t) := by
    refine follow_map d.withLinks (fun s => s.col = d.col) (fun x s s' same ran => ?_)
      (fun s x y read => congrArg some (right_some read)) same ran
    obtain ⟨_, _, ran⟩ := Option.bind_eq_some_iff.mp ran
    rw [same] at ran
    exact cover_withLinks same ran
  exact turns

theorem uncoverRow_eq (layout : Layout s C headers nodes others) (same : s.col = d.col) (wanted : k ∈ C)
    (enough : s.tot < loops) {done rest : List Nat} (split : nodes k = done ++ i :: rest) :
    (d.withLinks ((s.hidden k).unlinkedAll (done.flatMap others ++ others i))).uncoverRow loops i =
      some (d.withLinks ((s.hidden k).unlinkedAll (done.flatMap others))) := by
  have node : s.Node i := ((layout.mem_ring k wanted i).mp (by rw [split]; simp)).1.1
  have links := fun xs => (layout.line_hidden wanted node xs).reverse
  obtain ⟨t, ran, rfl⟩ := follow_rule (fun (d : Dance) j => some (d.left j)) (fun j d => some (d.relink j)) loops
    (fun _ rest' t => t = d.withLinks ((s.hidden k).unlinkedAll (done.flatMap others ++ rest'.reverse)))
    (others i).reverse (List.nodup_cons.mp (layout.line i node).reverse.nodup).1 (by
      rintro done' x rest' t split' rfl
      have line : others i = rest'.reverse ++ x :: done'.reverse := by
        rw [← List.reverse_reverse (others i), split']
        simp
      have whole : swept nodes others k =
          (done.flatMap others ++ rest'.reverse) ++ x :: (done'.reverse ++ rest.flatMap others) := by
        rw [swept, split]
        simp [line]
      obtain ⟨_, down, up⟩ := layout.next_swept wanted whole rfl
      have follows := links (done.flatMap others ++ rest'.reverse)
      rw [split'] at follows
      have same' : ((s.hidden k).unlinkedAll (done.flatMap others ++ rest'.reverse)).col = d.col :=
        (unlinkedAll_col ..).trans same
      refine ⟨_, ?_, rfl, congrArg some follows.next_node⟩
      rw [List.reverse_cons, ← List.append_assoc, unlinkedAll_snoc]
      exact congrArg some (relink_withLinks same' down up))
    (by simpa using (layout.length_line node).trans_lt enough) rfl
  rw [List.reverse_reverse] at ran
  have begins : ((s.hidden k).unlinkedAll (done.flatMap others ++ others i)).L i = (others i).reverse.headD i :=
    (links _).next_head
  rw [List.reverse_nil, List.append_nil, ← begins] at ran
  exact ran

theorem uncover_eq (layout : Layout s C headers nodes others) (same : s.col = d.col) (wanted : k ∈ C)
    (enough : s.tot < loops) :
    (d.withLinks (covered others (s, nodes) k).1).uncover loops k = some (d.withLinks s) := by
  have member := (layout.mem_header k).mpr wanted
  have keptL : (s.hidden k).L k = s.L k := unlink_self s.L s.R k
  have keptR : (s.hidden k).R k = s.R k := unlink_self s.R s.L k
  have restR : put (s.hidden k).R (s.L k) k = s.R := relink_unlink s.R s.L (layout.header.next_prev member)
  have restL : put (s.hidden k).L (s.R k) k = s.L := relink_unlink s.L s.R (layout.header.prev_next member)
  have all := layout.ring_own wanted (List.append_nil _).symm
  obtain ⟨t, ran, rfl⟩ := follow_rule (fun (d : Dance) row => some (d.up row)) (uncoverRow loops) loops
    (fun _ rest t => t = d.withLinks ((s.hidden k).unlinkedAll (rest.reverse.flatMap others))) (nodes k).reverse
    (List.nodup_cons.mp all.reverse.nodup).1 (by
      rintro done i rest t split rfl
      have column : nodes k = rest.reverse ++ i :: done.reverse := by
        rw [← List.reverse_reverse (nodes k), split]
        simp
      have whole : swept nodes others k = rest.reverse.flatMap others ++ (i :: done.reverse).flatMap others := by
        rw [swept, column, List.flatMap_append]
      have links := (layout.ring_own wanted whole).reverse
      rw [split] at links
      have grown : (i :: rest).reverse.flatMap others = rest.reverse.flatMap others ++ others i := by simp
      refine ⟨_, ?_, rfl, congrArg some links.next_node⟩
      rw [grown]
      exact uncoverRow_eq layout same wanted enough column)
    (by simpa using (layout.length_column wanted).trans_lt enough) rfl
  rw [List.reverse_reverse, ← swept] at ran
  have begins : ((s.hidden k).unlinkedAll (swept nodes others k)).U k = (nodes k).reverse.headD k :=
    all.reverse.next_head
  rw [← begins] at ran
  have done : (s.hidden k).unlinkedAll (([] : List Nat).reverse.flatMap others) = s.hidden k := rfl
  rw [done] at ran
  have ran' : follow (fun (d : Dance) row => some (d.up row)) k (uncoverRow loops) loops
      ((d.withLinks (covered others (s, nodes) k).1).up k) (d.withLinks (covered others (s, nodes) k).1) =
      some (d.withLinks (s.hidden k)) := ran
  rw [uncover, ran']
  simp only [withLinks, Option.bind_eq_bind, Option.bind_some, keptR, restL, restR]
  rfl

theorem uncoverOthers_eq (layout : Layout s C headers nodes others) (same : s.col = d.col) (node : s.Node i)
    (wanted : ∀ k ∈ s.rest others i, k ∈ C) (enough : s.tot < loops) :
    (d.withLinks (coveredAll others (s, nodes) (s.rest others i)).1).uncoverOthers loops i = some (d.withLinks s) := by
  have nodup := layout.nodup_rest node
  have all := (layout.several nodup wanted).line i ((coveredAll_node others _ _ i).mpr node)
  obtain ⟨t, ran, rfl⟩ := follow_rule (fun (d : Dance) j => some (d.left j)) (fun j d => d.uncover loops (d.col j))
    loops (fun _ todo t => t = d.withLinks (coveredAll others (s, nodes) (todo.reverse.map s.col)).1)
    (others i).reverse (List.nodup_cons.mp all.reverse.nodup).1 (by
      rintro done j todo t split rfl
      have line : others i = todo.reverse ++ j :: done.reverse := by
        rw [← List.reverse_reverse (others i), split]
        simp
      have columns : s.rest others i = (todo.reverse.map s.col ++ [s.col j]) ++ done.reverse.map s.col := by
        simp [rest, line]
      rw [columns, List.nodup_append] at nodup
      obtain ⟨nodup', _, apart⟩ := List.nodup_append.mp nodup.1
      have wanted' : ∀ k ∈ todo.reverse.map s.col ++ [s.col j], k ∈ C := fun k member =>
        wanted k (columns ▸ List.mem_append_left _ member)
      have before := layout.several nodup' fun k member => wanted' k (List.mem_append_left _ member)
      have here : s.col j ∈ without C (todo.reverse.map s.col) :=
        ⟨wanted' _ (by simp), fun member => apart _ member _ (by simp) rfl⟩
      have enough' : (coveredAll others (s, nodes) (todo.reverse.map s.col)).1.tot < loops := by
        rw [coveredAll_tot]
        exact enough
      have links := (before.line i ((coveredAll_node others _ _ i).mpr node)).reverse
      rw [split] at links
      refine ⟨_, ?_, rfl, congrArg some links.next_node⟩
      have column : (d.withLinks (coveredAll others (s, nodes) ((j :: todo).reverse.map s.col)).1).col j = s.col j :=
        congrFun same.symm j
      rw [column, List.reverse_cons, List.map_append, List.map_cons, List.map_nil, coveredAll_snoc]
      exact uncover_eq before ((coveredAll_col ..).trans same) here enough')
    (by simpa using (layout.length_line node).trans_lt enough) rfl
  rw [List.reverse_reverse] at ran
  have begins : (coveredAll others (s, nodes) (s.rest others i)).1.L i = (others i).reverse.headD i :=
    all.reverse.next_head
  rw [← begins] at ran
  exact ran

theorem minColumn_mem (layout : Layout s C headers nodes others) (root : d.root_ = 0) {done todo : List Nat} {c : Nat}
    (split : headers = done ++ todo) (here : c ∈ C) (turns : todo.length < loops) (min_size : Int) :
    ∃ c', (d.withLinks s).minColumn loops (todo.headD 0) c min_size = some c' ∧ c' ∈ C := by
  induction todo generalizing loops done c min_size with
  | nil =>
    obtain ⟨loops, rfl⟩ := Nat.exists_eq_add_of_lt turns
    refine ⟨c, ?_, here⟩
    simp [minColumn, withLinks, root]
  | cons k todo ih =>
    obtain ⟨loops, rfl⟩ : ∃ n, loops = n + 1 := ⟨loops - 1, by simp at turns; omega⟩
    have wanted : k ∈ C := (layout.mem_header k).mp (by rw [split]; simp)
    have positive := (layout.range k wanted).1
    have follows : s.R k = todo.headD 0 := by
      have links := layout.header
      rw [split] at links
      exact links.next_node
    have notRoot : k ≠ (d.withLinks s).root_ := by
      have zero : (d.withLinks s).root_ = 0 := root
      omega
    have split' : headers = (done ++ [k]) ++ todo := by rw [split]; simp
    have fewer : todo.length < loops := by simpa using turns
    have next : (d.withLinks s).right k = todo.headD 0 := follows
    rw [List.headD_cons, minColumn, if_neg notRoot, next]
    split
    · split
      · exact ⟨k, rfl, wanted⟩
      · exact ih split' wanted fewer _
    · exact ih split' here fewer _

theorem get_min_column_mem (layout : Layout s C headers nodes others) (root : d.root_ = 0) (some_ : headers ≠ [])
    (enough : s.tot < loops) : ∃ c, (d.withLinks s).get_min_column loops = some c ∧ c ∈ C := by
  obtain ⟨k, todo, rfl⟩ := List.exists_cons_of_ne_nil some_
  have wanted : k ∈ C := (layout.mem_header k).mp List.mem_cons_self
  have begins : (d.withLinks s).right (d.withLinks s).root_ = k := by
    have zero : (d.withLinks s).root_ = 0 := root
    rw [zero]
    exact layout.header.next_head
  have follows : (d.withLinks s).right k = todo.headD 0 := by
    have links : Ring s.R s.L 0 ([] ++ k :: todo) := layout.header
    exact links.next_node
  have turns : todo.length < loops := by
    have short := layout.length_header
    rw [List.length_cons] at short
    omega
  simp only [get_min_column, begins, follows]
  split
  · exact minColumn_mem layout root List.singleton_append.symm wanted turns _
  · exact ⟨k, rfl, wanted⟩

end cover

/-! Writing out the rows of the stack. The row for a value of a cell is numbered `10 * cell + value`. -/

structure Labelled (name : Nat → Nat) (s : DLX) : Prop where
  cell : ∀ x, s.Node x → name x < 100 → name x = s.row x / 10
  value : ∀ x, s.Node x → ¬ name x < 100 → name x % 10 = s.row x % 10
  both : ∀ x, s.Node x → (∃ y, s.Node y ∧ s.row y = s.row x ∧ name y < 100) ∧
    ∃ y, s.Node y ∧ s.row y = s.row x ∧ ¬ name y < 100
  small : ∀ x, s.Node x → s.row x / 10 < 81

def place (inout : Board) (r : Nat) : Board := Function.update inout (Fin.ofNat 81 (r / 10)) (Fin.ofNat 10 (r % 10))

section fill
variable {d : Dance} {s : DLX} {C : Set Nat} {headers : List Nat} {nodes others : Nat → List Nat} {n r : Nat}
  {loops : Nat}

theorem readRow_step (d : Dance) (loops n : Nat) {cell val : Option Nat} (open_ : cell = none ∨ val = none) :
    d.readRow (loops + 1) n cell val =
      if d.name n < 100 then d.readRow loops (d.right n) (some (d.name n)) val
      else d.readRow loops (d.right n) cell (some (d.name n % 10)) := by
  cases cell with
  | none => cases val <;> rfl
  | some c =>
    cases val with
    | none => rfl
    | some v => exact absurd open_ (by simp)

theorem readRow_eq (labelled : Labelled d.name s) {l : List Nat} {stop : Nat}
    (links : ∀ before x after, l = before ++ x :: after → d.right x = after.headD stop)
    (inner : ∀ x ∈ l, s.Node x ∧ s.row x = r) {cell val : Option Nat} (cell_ : ∀ c, cell = some c → c = r / 10)
    (val_ : ∀ v, val = some v → v = r % 10) (needsCell : cell = none → ∃ x ∈ l, d.name x < 100)
    (needsVal : val = none → ∃ x ∈ l, ¬ d.name x < 100) (turns : l.length ≤ loops) :
    d.readRow loops (l.headD stop) cell val = some (r / 10, r % 10) := by
  induction l generalizing loops cell val with
  | nil =>
    cases cell with
    | none =>
      obtain ⟨x, member, _⟩ := needsCell rfl
      exact absurd member List.not_mem_nil
    | some c =>
      cases val with
      | none =>
        obtain ⟨x, member, _⟩ := needsVal rfl
        exact absurd member List.not_mem_nil
      | some v => rw [readRow, cell_ c rfl, val_ v rfl]
  | cons x l ih =>
    obtain ⟨loops, rfl⟩ : ∃ n, loops = n + 1 := ⟨loops - 1, by simp at turns; omega⟩
    obtain ⟨node, row⟩ := inner x List.mem_cons_self
    have next : d.right x = l.headD stop := links [] x l rfl
    have links' : ∀ before y after, l = before ++ y :: after → d.right y = after.headD stop := fun before y after split =>
      links (x :: before) y after (by rw [split]; rfl)
    have inner' : ∀ y ∈ l, s.Node y ∧ s.row y = r := fun y member => inner y (List.mem_cons_of_mem x member)
    have fewer : l.length ≤ loops := by simpa using turns
    by_cases both : cell = none ∨ val = none
    · rw [List.headD_cons, readRow_step d loops x both, next]
      by_cases small : d.name x < 100
      · rw [if_pos small]
        have here := labelled.cell x node small
        refine ih links' inner' (fun c same => ?_) val_ (fun none => absurd none (by simp)) (fun none => ?_) fewer
        · rw [← Option.some.inj same, here, row]
        · obtain ⟨y, member, large⟩ := needsVal none
          exact ⟨y, (List.mem_cons.mp member).resolve_left fun same => large (same ▸ small), large⟩
      · rw [if_neg small]
        have here := labelled.value x node small
        refine ih links' inner' cell_ (fun v same => ?_) (fun none => ?_) (fun none => absurd none (by simp)) fewer
        · rw [← Option.some.inj same, here, row]
        · obtain ⟨y, member, less⟩ := needsCell none
          exact ⟨y, (List.mem_cons.mp member).resolve_left fun same => small (same ▸ less), less⟩
    · obtain ⟨c, first⟩ := Option.ne_none_iff_exists'.mp fun none => both (Or.inl none)
      obtain ⟨v, second⟩ := Option.ne_none_iff_exists'.mp fun none => both (Or.inr none)
      subst first second
      rw [readRow, cell_ c rfl, val_ v rfl]

theorem fillIn_eq (layout : Layout s C headers nodes others) (labelled : Labelled d.name s) (node : s.Node n)
    (enough : s.tot < loops) :
    (d.withLinks s).fillIn loops n = some { d.withLinks s with inout_ := place d.inout_ (s.row n) } := by
  have line := layout.line n node
  have inner : ∀ x ∈ n :: others n, s.Node x ∧ s.row x = s.row n := by
    intro x member
    rcases List.mem_cons.mp member with rfl | other
    · exact ⟨node, rfl⟩
    · have there := (layout.mem_line n node x).mp other
      exact ⟨there.1, there.2.1⟩
  have whole : ∀ y, s.Node y → s.row y = s.row n → y ∈ n :: others n := by
    intro y there same
    by_cases here : y = n
    · rw [here]
      exact List.mem_cons_self
    · exact List.mem_cons_of_mem _ ((layout.mem_line n node y).mpr ⟨there, same, here⟩)
  obtain ⟨⟨y, there, same, less⟩, ⟨z, there', same', large⟩⟩ := labelled.both n node
  have links : ∀ before x after, n :: others n = before ++ x :: after → (d.withLinks s).right x = after.headD n := by
    intro before x after split
    cases before with
    | nil =>
      obtain ⟨rfl, rest⟩ := List.cons.inj split
      rw [← rest]
      exact line.next_head
    | cons first before =>
      obtain ⟨rfl, rest⟩ := List.cons.inj split
      rw [rest] at line
      exact line.next_node
  have short : (n :: others n).length ≤ loops := by
    have bound := layout.length_line node
    rw [List.length_cons]
    omega
  have read : (d.withLinks s).readRow loops n none none = some (s.row n / 10, s.row n % 10) :=
    readRow_eq (d := d.withLinks s) labelled links inner (fun c none => absurd none (by simp))
      (fun v none => absurd none (by simp)) (fun _ => ⟨y, whole y there same, less⟩)
      (fun _ => ⟨z, whole z there' same', large⟩) short
  have inside : s.row n / 10 < 81 ∧ s.row n % 10 < 10 := ⟨labelled.small n node, Nat.mod_lt _ (by decide)⟩
  have first : (⟨s.row n / 10, inside.1⟩ : Cell) = Fin.ofNat 81 (s.row n / 10) :=
    Fin.ext (Nat.mod_eq_of_lt inside.1).symm
  have second : (⟨s.row n % 10, inside.2⟩ : Value) = Fin.ofNat 10 (s.row n % 10) :=
    Fin.ext (Nat.mod_eq_of_lt inside.2).symm
  rw [fillIn, read]
  simp only [Option.bind_eq_bind, Option.bind_some, dif_pos inside, first, second]
  rfl

theorem fillIn_stack (layout : Layout s C headers nodes others) (labelled : Labelled d.name s) {stack : List Nat}
    (nodes_ : ∀ x ∈ stack, s.Node x) (enough : s.tot < loops) :
    stack.foldlM (fillIn loops) (d.withLinks s) =
      some { d.withLinks s with inout_ := (stack.map s.row).foldl place d.inout_ } := by
  induction stack generalizing d with
  | nil => rfl
  | cons n stack ih =>
    rw [List.foldlM_cons, fillIn_eq layout labelled (nodes_ n List.mem_cons_self) enough]
    exact ih (d := { d with inout_ := place d.inout_ (s.row n) }) labelled fun x member =>
      nodes_ x (List.mem_cons_of_mem n member)

end fill

/-! The search. -/

/-- The columns are covered, and the rows for that are written out behind those on the stack. -/
def Won (d : Dance) (s : DLX) (C : Set Nat) (d' : Dance) : Prop :=
  ∃ rows : List Nat, ExactCover s.Has C {r | r ∈ rows} ∧ (∀ r ∈ rows, ∃ x, s.Node x ∧ s.row x = r) ∧
    d'.inout_ = (d.stack_.map s.row ++ rows).foldl place d.inout_

section search
variable {d d' : Dance} {s : DLX} {C : Set Nat} {headers : List Nat} {nodes others : Nat → List Nat} {c i : Nat}
  {loops : Nat}

/-- What the search needs to know of its state. -/
structure Ready (d : Dance) (s : DLX) : Prop where
  col : s.col = d.col
  labelled : Labelled d.name s
  root : d.root_ = 0
  stack : ∀ x ∈ d.stack_, s.Node x

def Answered (d : Dance) (s : DLX) (C : Set Nat) (found : Bool) (d' : Dance) : Prop :=
  (found = true → Won d s C d') ∧ (found = false → ¬ ExactCover.Solvable s.Has C ∧ d' = d.withLinks s)

theorem Ready.push (ready : Ready d s) (node : s.Node i) (ks : List Nat) :
    Ready { d with stack_ := d.stack_ ++ [i] } (coveredAll others (s, nodes) ks).1 := by
  have node_ : ∀ x, (coveredAll others (s, nodes) ks).1.Node x ↔ s.Node x := coveredAll_node others (s, nodes) ks
  have row : (coveredAll others (s, nodes) ks).1.row = s.row := coveredAll_row others (s, nodes) ks
  refine ⟨(coveredAll_col ..).trans ready.col, ⟨?_, ?_, ?_, ?_⟩, ready.root, fun x member => ?_⟩
  · intro x there
    rw [row]
    exact ready.labelled.cell x ((node_ x).mp there)
  · intro x there
    rw [row]
    exact ready.labelled.value x ((node_ x).mp there)
  · intro x there
    simp only [row, node_]
    exact ready.labelled.both x ((node_ x).mp there)
  · intro x there
    rw [row]
    exact ready.labelled.small x ((node_ x).mp there)
  · rw [node_]
    rcases List.mem_append.mp member with old | new
    · exact ready.stack x old
    · rw [List.mem_singleton.mp new]
      exact node

theorem Won.push {t : DLX} (node : s.Node i) (fits : ∀ k, s.Has (s.row i) k → k ∈ C) (has : t.Has = s.Has)
    (row : t.row = s.row) (node_ : ∀ x, t.Node x ↔ s.Node x)
    (won : Won { d with stack_ := d.stack_ ++ [i] } t (ExactCover.left s.Has C (s.row i)) d') : Won d s C d' := by
  obtain ⟨rows, cover, known, written⟩ := won
  rw [has] at cover
  refine ⟨s.row i :: rows, ?_, fun r member => ?_, ?_⟩
  · have all : {r | r ∈ s.row i :: rows} = insert (s.row i) {r | r ∈ rows} := by
      ext r
      simp
    rw [all]
    exact cover.add fits
  · rcases List.mem_cons.mp member with rfl | later
    · exact ⟨i, node, rfl⟩
    · obtain ⟨x, there, same⟩ := known r later
      exact ⟨x, (node_ x).mp there, row ▸ same⟩
  · rw [written, row]
    simp

theorem others_withLinks (layout : Layout s C headers nodes others) (same : s.col = d.col) (wanted : c ∈ C)
    (enough : s.tot < loops) (here : i ∈ nodes c) :
    (d.withLinks (covered others (s, nodes) c).1).coverOthers loops i =
        some (d.withLinks (coveredAll others (s, nodes) (s.all others c i)).1) ∧
      (d.withLinks (coveredAll others (s, nodes) (s.all others c i)).1).uncoverOthers loops i =
        some (d.withLinks (covered others (s, nodes) c).1) := by
  have layout' := layout.removed wanted
  have node : (covered others (s, nodes) c).1.Node i :=
    (coveredAll_node others (s, nodes) [c] i).mpr ((layout.mem_ring c wanted i).mp here).1.1
  have col : (covered others (s, nodes) c).1.col = s.col := coveredAll_col others (s, nodes) [c]
  have rest_ : (covered others (s, nodes) c).1.rest others i = s.rest others i :=
    congrArg (fun col => (others i).map col) col
  have fits : ∀ k ∈ (covered others (s, nodes) c).1.rest others i, k ∈ without C [c] :=
    (layout.others_ready wanted here (covered others (s, nodes) c).1.stk).2
  have enough' : (covered others (s, nodes) c).1.tot < loops :=
    lt_of_eq_of_lt (coveredAll_tot others (s, nodes) [c]) enough
  have whole : (coveredAll others ((covered others (s, nodes) c).1, (covered others (s, nodes) c).2)
      ((covered others (s, nodes) c).1.rest others i)).1 = (coveredAll others (s, nodes) (s.all others c i)).1 := by
    rw [rest_]
    rfl
  rw [← whole]
  exact ⟨(coverOthers_withLinks (col.trans same) (removeOthers_eq layout' node fits enough')).2,
    uncoverOthers_eq layout' (col.trans same) node fits enough'⟩

theorem tryRows_spec {solve : Dance → Option (Bool × Dance)} (layout : Layout s C headers nodes others)
    (ready : Ready d s) (wanted : c ∈ C) (enough : s.tot < loops)
    (deeper : ∀ {d : Dance} {t : DLX} {C' : Set Nat} {headers' : List Nat} {nodes' : Nat → List Nat},
      Layout t C' headers' nodes' others → Ready d t → t.tot < loops → headers'.length < headers.length →
      ∃ found d', solve (d.withLinks t) = some (found, d') ∧ Answered d t C' found d')
    (todo done : List Nat) (split : nodes c = done ++ todo) (fuel : Nat) (turns : todo.length < fuel)
    (tried : ∀ i ∈ done, ¬ ExactCover.Solvable s.Has (ExactCover.left s.Has C (s.row i))) :
    ∃ found d', tryRows loops solve c fuel (todo.headD c) (d.withLinks (covered others (s, nodes) c).1) =
        some (found, d') ∧ (found = true → Won d s C d') ∧
      (found = false → (∀ i ∈ nodes c, ¬ ExactCover.Solvable s.Has (ExactCover.left s.Has C (s.row i))) ∧
        d' = d.withLinks (covered others (s, nodes) c).1) := by
  induction todo generalizing done fuel with
  | nil =>
    obtain ⟨fuel, rfl⟩ : ∃ k, fuel = k + 1 := ⟨fuel - 1, by simp at turns; omega⟩
    rw [List.append_nil] at split
    refine ⟨false, _, by simp [tryRows], fun none => absurd none (by decide), fun _ => ⟨?_, rfl⟩⟩
    rw [split]
    exact tried
  | cons i todo ih =>
    obtain ⟨fuel, rfl⟩ : ∃ k, fuel = k + 1 := ⟨fuel - 1, by simp at turns; omega⟩
    have here : i ∈ nodes c := by rw [split]; simp
    obtain ⟨active, column⟩ := (layout.mem_ring c wanted i).mp here
    have node := active.1
    have notHead : i ≠ c := fun same => (List.nodup_cons.mp (layout.ring c wanted).nodup).1 (same ▸ here)
    obtain ⟨nodup, inside_, left⟩ := layout.all_left wanted here
    have ready' : Ready { d with stack_ := d.stack_ ++ [i] } (coveredAll others (s, nodes) (s.all others c i)).1 :=
      ready.push node _
    have layout' := layout.several nodup inside_
    rw [left] at layout'
    have fewer : (headers.filter (· ∉ s.all others c i)).length < headers.length :=
      List.length_filter_lt_length_iff_exists.mpr ⟨c, (layout.mem_header c).mpr wanted, by simp [all]⟩
    have enough' : (coveredAll others (s, nodes) (s.all others c i)).1.tot < loops := by
      rw [coveredAll_tot]
      exact enough
    obtain ⟨found, d', ran, won, lost⟩ := deeper layout' ready' enough' fewer
    have down : (d.withLinks (covered others (s, nodes) c).1).down i = todo.headD c := by
      have ring := layout.ring_own wanted (List.append_nil _).symm
      rw [split] at ring
      exact ring.next_node
    have opened : coverOthers loops i
        { d.withLinks (covered others (s, nodes) c).1 with stack_ := d.stack_ ++ [i] } = some _ :=
      (others_withLinks (d := { d with stack_ := d.stack_ ++ [i] }) layout ready.col wanted enough here).1
    have closed := (others_withLinks (d := d) layout ready.col wanted enough here).2
    rw [List.headD_cons, tryRows, if_neg notHead]
    have shape : (d.withLinks (covered others (s, nodes) c).1).stack_ = d.stack_ := rfl
    simp only [shape, opened, Option.bind_eq_bind, Option.bind_some, ran]
    cases found with
    | true =>
      refine ⟨true, d', rfl, fun _ => ?_, fun none => absurd none (by decide)⟩
      exact (won rfl).push node active.2 (coveredAll_has ..) (coveredAll_row ..) (coveredAll_node others (s, nodes) _)
    | false =>
      obtain ⟨unsolvable, rfl⟩ := lost rfl
      rw [coveredAll_has] at unsolvable
      have popped : { ({ d with stack_ := d.stack_ ++ [i] } : Dance).withLinks
          (coveredAll others (s, nodes) (s.all others c i)).1 with stack_ := (d.stack_ ++ [i]).dropLast } =
          d.withLinks (coveredAll others (s, nodes) (s.all others c i)).1 := by
        rw [List.dropLast_concat]
        rfl
      obtain ⟨found, d'', looped, won', lost'⟩ := ih (done ++ [i]) (by rw [split]; simp) fuel (by simpa using turns)
        (by
          intro j member
          rcases List.mem_append.mp member with old | new
          · exact tried j old
          · rw [List.mem_singleton.mp new]
            exact unsolvable)
      refine ⟨found, d'', ?_, won', lost'⟩
      have shape' : (({ d with stack_ := d.stack_ ++ [i] } : Dance).withLinks
          (coveredAll others (s, nodes) (s.all others c i)).1).stack_ = d.stack_ ++ [i] := rfl
      simp only [Bool.false_eq_true, if_false, shape', popped, closed, Option.bind_some, down]
      exact looped

/-- The search returns. It finds a cover of the columns, or there is none and everything is as it was. -/
theorem solve_spec (layout : Layout s C headers nodes others) (ready : Ready d s) (enough : s.tot < loops) {fuel : Nat}
    (deep : headers.length < fuel) :
    ∃ found d', (d.withLinks s).solve loops fuel = some (found, d') ∧ Answered d s C found d' := by
  induction fuel generalizing d s C headers nodes with
  | zero => omega
  | succ fuel ih =>
    have root : (d.withLinks s).root_ = 0 := ready.root
    have ends : s.L 0 = headers.reverse.headD 0 := layout.header.reverse.next_head
    by_cases empty : headers = []
    · subst empty
      have done : (d.withLinks s).left (d.withLinks s).root_ = (d.withLinks s).root_ := by
        rw [root]
        exact ends
      have filled := fillIn_stack layout ready.labelled ready.stack enough
      have nothing : C = ∅ := by
        ext k
        exact iff_of_false (fun wanted => absurd ((layout.mem_header k).mpr wanted) List.not_mem_nil) id
      have none : {r | r ∈ ([] : List Nat)} = ∅ := by
        ext r
        simp
      have won : Won d s C { d.withLinks s with inout_ := (d.stack_.map s.row).foldl place d.inout_ } := by
        refine ⟨[], ?_, fun r none => absurd none List.not_mem_nil, by rw [List.append_nil]⟩
        rw [nothing, none]
        exact ExactCover.empty
      refine ⟨true, _, ?_, fun _ => won, fun none => absurd none (by decide)⟩
      have stack : (d.withLinks s).stack_ = d.stack_ := rfl
      rw [solve, if_pos done, stack, filled]
      rfl
    · have more : ¬ (d.withLinks s).left (d.withLinks s).root_ = (d.withLinks s).root_ := by
        rw [root]
        intro zero
        have last : headers.reverse.headD 0 ∈ headers.reverse := by
          cases reversed : headers.reverse with
          | nil => exact absurd (List.reverse_eq_nil_iff.mp reversed) empty
          | cons k rest => exact List.mem_cons_self
        have zero' : headers.reverse.headD 0 = 0 := ends.symm.trans zero
        rw [zero', List.mem_reverse] at last
        exact (List.nodup_cons.mp layout.header.nodup).1 last
      obtain ⟨c, chose, wanted⟩ := get_min_column_mem layout ready.root empty enough
      have removed := (cover_withLinks ready.col (layout.remove_eq wanted enough)).2
      have down : (d.withLinks (covered others (s, nodes) c).1).down c = (nodes c).headD c :=
        (layout.ring_own wanted (List.append_nil _).symm).next_head
      obtain ⟨found, d', ran, won, lost⟩ := tryRows_spec layout ready wanted enough
        (fun layout' ready' enough' fewer => ih layout' ready' enough' (by omega)) (nodes c) [] rfl loops
        ((layout.length_column wanted).trans_lt enough) (fun _ none => absurd none List.not_mem_nil)
      rw [← down] at ran
      rw [solve, if_neg more]
      have removed' : (d.withLinks s).cover loops c = some (d.withLinks (covered others (s, nodes) c).1) := removed
      simp only [chose, Option.bind_eq_bind, Option.bind_some, removed', ran]
      cases found with
      | true => exact ⟨true, d', rfl, won, fun none => absurd none (by decide)⟩
      | false =>
        obtain ⟨unsolvable, rfl⟩ := lost rfl
        refine ⟨false, d.withLinks s, ?_, fun none => absurd none (by decide), fun _ => ⟨?_, rfl⟩⟩
        · simp [uncover_eq layout ready.col wanted enough]
        · rintro ⟨rows, cover⟩
          obtain ⟨r, ⟨i, node, rfl, column⟩, fits, rest_⟩ := cover.branch wanted
          exact unsolvable i ((layout.mem_ring c wanted i).mpr ⟨⟨node, fits⟩, column⟩) rest_

end search

end Dance

end CloudLab.TearcherCode
