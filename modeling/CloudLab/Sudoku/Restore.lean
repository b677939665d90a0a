import CloudLab.Sudoku.Entries

/-! Backtracking: in every state that the search goes through, columns can be removed and
recovered again, and a call of `dance` that returns 0 has changed nothing but the stack. -/

namespace CloudLab.Sudoku
open Links

namespace DLX

/-! The states that the search goes through. -/

def push (s : DLX) (dep i : Nat) : DLX := s.withStk (put s.stk dep (s.row i))

def removeOf (loops j : Nat) (s : DLX) : Option DLX := do
  inside [j]
  remove loops (s.col j) s

def recoverOf (loops j : Nat) (s : DLX) : Option DLX := do
  inside [j]
  recover loops (s.col j) s

/-- A call `dance(dep)` in state `s` has chosen column `c`, and its loop over the rows has
come to `i` in state `t`. -/
inductive AtRow (loops dep : Nat) (s : DLX) (c : Nat) : Nat → DLX → Prop
  | first {i : Nat} {t : DLX} : s.R 0 ≠ 0 → s.chooseColumn loops = some c → s.remove loops c = some t →
      t.down c = some i → AtRow loops dep s c i t
  | next {i j fuel : Nat} {t u v w : DLX} : AtRow loops dep s c i t → i ≠ c →
      (t.push dep i).removeOthers loops i = some u → dance loops fuel (dep + 1) u = some (none, v) →
      v.recoverOthers loops i = some w → w.down i = some j → AtRow loops dep s c j w

/-- A call `dance(dep)` in state `s` leads to the call `dance(dep')` in state `t`. -/
inductive Called (loops dep : Nat) (s : DLX) : Nat → DLX → Prop
  | self : Called loops dep s dep s
  | inner {dep' c i : Nat} {t u v : DLX} : Called loops dep s dep' t → AtRow loops dep' t c i u → i ≠ c →
      (u.push dep' i).removeOthers loops i = some v → Called loops dep s (dep' + 1) v

/-- The states between the statements of one call `dance(dep)` in state `s`, those of the
calls inside it apart. `remove` and `recover` are one statement each. -/
inductive Within (loops dep : Nat) (s : DLX) : DLX → Prop
  | start : Within loops dep s s
  | row {c i : Nat} {t : DLX} : AtRow loops dep s c i t → Within loops dep s t
  | removing {c i j k : Nat} {t u : DLX} : AtRow loops dep s c i t → i ≠ c → (t.push dep i).right i = some j →
      Turns right i (removeOf loops) j (t.push dep i) k u → Within loops dep s u
  | recovering {c i j k fuel : Nat} {t u v w : DLX} : AtRow loops dep s c i t → i ≠ c →
      (t.push dep i).removeOthers loops i = some u → dance loops fuel (dep + 1) u = some (none, v) →
      v.left i = some j → Turns left i (recoverOf loops) j v k w → Within loops dep s w
  | returned {fuel : Nat} {found : Option Nat} {t : DLX} : dance loops fuel dep s = some (found, t) →
      Within loops dep s t

/-! Removing columns and recovering them in the opposite order. -/

def Listed (s : DLX) (c : Nat) : Prop := c ≠ 0 ∧ ∃ k, s.R^[k] 0 = c

def Removable (loops : Nat) : DLX → List Nat → Prop
  | _, [] => True
  | s, c :: cs => s.Listed c ∧ ∀ t, s.remove loops c = some t → Removable loops t cs

def removeAll (loops : Nat) (cs : List Nat) (s : DLX) : Option DLX := cs.foldlM (fun s c => s.remove loops c) s

def recoverAll (loops : Nat) (cs : List Nat) (s : DLX) : Option DLX := cs.foldlM (fun s c => s.recover loops c) s

/-- Any columns can be removed and recovered again. -/
def Restorable (loops : Nat) (s : DLX) : Prop := ∀ cs, Removable loops s cs →
  ∃ t, removeAll loops cs s = some t ∧ recoverAll loops cs.reverse t = some s

section restore
variable {s t u : DLX} {C : Set Nat} {headers : List Nat} {nodes others : Nat → List Nat} {c i j dep dep' fuel : Nat}
  {loops : Nat}

theorem Layout.listed (layout : Layout s C headers nodes others) (listed : s.Listed c) : c ∈ C := by
  obtain ⟨notHead, k, rfl⟩ := listed
  rcases List.mem_cons.mp (layout.header.iterate_mem k) with head | member
  · exact absurd head notHead
  · exact (layout.mem_header _).mp member

theorem Layout.restorable (layout : Layout s C headers nodes others) (enough : s.tot < loops) :
    Restorable loops s := by
  intro cs removable
  induction cs generalizing s C headers nodes with
  | nil => exact ⟨s, rfl, rfl⟩
  | cons c cs ih =>
    obtain ⟨listed, later⟩ := removable
    have wanted := layout.listed listed
    have removed := layout.remove_eq wanted enough
    have enough' : ((s.hidden c).unlinkedAll (swept nodes others c)).tot < loops := by
      rw [unlinkedAll_tot]
      exact enough
    obtain ⟨t, ran, back⟩ := ih (layout.removed wanted) enough' (later _ removed)
    refine ⟨t, ?_, ?_⟩
    · rw [removeAll, List.foldlM_cons, removed]
      exact ran
    · rw [recoverAll] at back
      rw [recoverAll, List.reverse_cons, List.foldlM_append, back]
      simp only [Option.bind_eq_bind, Option.bind_some, List.foldlM_cons, List.foldlM_nil]
      rw [layout.recover_eq wanted enough]
      rfl

/-! What a call that returns has done. -/

theorem tryRows_none {dance : DLX → Option (Option Nat × DLX)} (layout : Layout s C headers nodes others)
    (wanted : c ∈ C) (enough : s.tot < loops)
    (deeper : ∀ {t t' : DLX} {C' : Set Nat} {headers' : List Nat} {nodes' : Nat → List Nat},
      Layout t C' headers' nodes' others → t.tot < loops → dance t = some (none, t') → ∃ stk, t' = t.withStk stk)
    (todo done : List Nat) (split : nodes c = done ++ todo) (fuel : Nat) (stk : Nat → Nat)
    (ran : tryRows loops dance c dep fuel (todo.headD c) ((covered others (s, nodes) c).1.withStk stk) =
      some (none, t)) :
    ∃ stk', t = (covered others (s, nodes) c).1.withStk stk' := by
  induction todo generalizing done fuel stk with
  | nil =>
    cases fuel with
    | zero => cases ran
    | succ fuel =>
      rw [List.headD_nil, tryRows, if_pos rfl, Option.some.injEq, Prod.mk.injEq] at ran
      exact ⟨stk, ran.2.symm⟩
  | cons i todo ih =>
    have here : i ∈ nodes c := by rw [split]; simp
    obtain ⟨nodup, inside_, _⟩ := layout.all_left wanted here
    cases fuel with
    | zero => cases ran
    | succ fuel =>
      have depth : ¬ MAXSIZE ≤ dep := by
        intro deep
        have notHead : i ≠ c := fun same => (List.nodup_cons.mp (layout.ring c wanted).nodup).1 (same ▸ here)
        rw [List.headD_cons, tryRows, if_neg notHead, if_pos deep] at ran
        cases ran
      rw [List.headD_cons, tryRows_cons layout wanted enough here depth] at ran
      obtain ⟨⟨found, v⟩, called, rest⟩ := Option.bind_eq_some_iff.mp ran
      cases found with
      | some d => cases rest
      | none =>
        have pushed := (layout.several nodup inside_).withStk (put stk dep (s.row i))
        have enough' : ((coveredAll others (s, nodes) (s.all others c i)).1.withStk (put stk dep (s.row i))).tot <
            loops := lt_of_eq_of_lt (coveredAll_tot others (s, nodes) _) enough
        obtain ⟨stk₂, rfl⟩ := deeper pushed enough' called
        simp only [Option.isSome_none, Bool.false_eq_true, if_false] at rest
        have recovered := (layout.others_eq wanted enough here stk₂).2
        have same : ((coveredAll others (s, nodes) (s.all others c i)).1.withStk (put stk dep (s.row i))).withStk stk₂ =
            (coveredAll others (s, nodes) (s.all others c i)).1.withStk stk₂ := rfl
        rw [same, recovered, Option.bind_some, layout.down_covered wanted split, Option.bind_some] at rest
        exact ih (done ++ [i]) (by rw [split]; simp) fuel stk₂ rest

theorem Layout.branch (layout : Layout s C headers nodes others) (enough : s.tot < loops) (left_over : s.R 0 ≠ 0)
    (chose : s.chooseColumn loops = some c) : c ∈ C := by
  have nonempty : headers ≠ [] := by
    rintro rfl
    exact left_over layout.header.next_head
  obtain ⟨c', chose', wanted⟩ := chooseColumn_mem layout nonempty (layout.length_header.trans_lt enough)
  obtain rfl : c' = c := Option.some.inj (chose'.symm.trans chose)
  exact wanted

theorem dance_none (layout : Layout s C headers nodes others) (enough : s.tot < loops)
    (ran : dance loops fuel dep s = some (none, t)) : ∃ stk, t = s.withStk stk := by
  induction fuel generalizing dep s t C headers nodes with
  | zero => cases ran
  | succ fuel ih =>
    rw [dance] at ran
    split at ran
    · obtain ⟨_, _, result⟩ := Option.bind_eq_some_iff.mp ran
      cases result
    · next left_over =>
      simp only [Option.bind_eq_bind, Option.bind_eq_some_iff] at ran
      obtain ⟨c, chose, u, removed, i, first, ⟨found, v⟩, tried, result⟩ := ran
      have wanted := layout.branch enough left_over chose
      obtain ⟨removed', recovered⟩ := layout.chosen_eq wanted enough
      obtain rfl := Option.some.inj (removed'.symm.trans removed)
      obtain rfl := Option.some.inj ((layout.down_chosen wanted s.stk).symm.trans first)
      cases found with
      | some d => cases result
      | none =>
        obtain ⟨stk, rfl⟩ := tryRows_none layout wanted enough (fun layout' enough' => ih layout' enough') (nodes c) []
          rfl loops s.stk tried
        simp only [Option.isSome_none, Bool.false_eq_true, if_false, recovered, Option.bind_some, Option.some.injEq,
          Prod.mk.injEq, true_and] at result
        exact ⟨stk, result.symm⟩

theorem writeCell_R {s t : DLX} {i : Nat} (ran : s.writeCell i = some t) : t.R = s.R := by
  simp only [writeCell] at ran
  split at ran
  · cases ran
    rfl
  · cases ran

theorem writeAns_R {s t : DLX} (ran : s.writeAns dep = some t) : t.R = s.R := by
  rw [writeAns] at ran
  generalize List.range' 1 (dep - 1) = l at ran
  induction l generalizing s with
  | nil =>
    cases ran
    rfl
  | cons i l ih =>
    rw [List.foldlM_cons] at ran
    obtain ⟨u, first, rest⟩ := Option.bind_eq_some_iff.mp ran
    exact (ih rest).trans (writeCell_R first)

theorem tryRows_some {dance : DLX → Option (Option Nat × DLX)}
    (deeper : ∀ {t t' : DLX} {d : Nat}, dance t = some (some d, t') → t'.R 0 = 0) {d : Nat}
    (ran : tryRows loops dance c dep fuel i s = some (some d, t)) : t.R 0 = 0 := by
  induction fuel generalizing i s with
  | zero => cases ran
  | succ fuel ih =>
    rw [tryRows] at ran
    split at ran
    · cases ran
    split at ran
    · cases ran
    simp only [Option.bind_eq_bind, Option.bind_eq_some_iff] at ran
    obtain ⟨_, _, u, _, ⟨found, v⟩, called, rest⟩ := ran
    split at rest
    · cases rest
      exact deeper called
    · simp only [Option.bind_eq_some_iff] at rest
      obtain ⟨w, _, j, _, later⟩ := rest
      exact ih later

theorem dance_some {d : Nat} (ran : dance loops fuel dep s = some (some d, t)) : t.R 0 = 0 := by
  induction fuel generalizing dep s t d with
  | zero => cases ran
  | succ fuel ih =>
    rw [dance] at ran
    split at ran
    · next empty =>
      obtain ⟨u, written, result⟩ := Option.bind_eq_some_iff.mp ran
      cases result
      rw [writeAns_R written]
      exact empty
    · simp only [Option.bind_eq_bind, Option.bind_eq_some_iff] at ran
      obtain ⟨c, _, u, _, i, _, ⟨found, v⟩, tried, result⟩ := ran
      split at result
      · cases result
        exact tryRows_some (fun called => ih called) tried
      · obtain ⟨w, _, result⟩ := Option.bind_eq_some_iff.mp result
        cases result

theorem restorable_empty (empty : s.R 0 = 0) : Restorable loops s := by
  intro cs removable
  cases cs with
  | nil => exact ⟨s, rfl, rfl⟩
  | cons c cs =>
    obtain ⟨⟨notHead, k, reached⟩, _⟩ := removable
    rw [Function.iterate_fixed empty] at reached
    exact absurd reached.symm notHead

/-! The states on the way. -/

def Shows (loops : Nat) (others : Nat → List Nat) (s : DLX) : Prop :=
  s.tot < loops ∧ ∃ C headers nodes, Layout s C headers nodes others

theorem covered_enough {stk : Nat → Nat} (enough : s.tot < loops) :
    ((covered others (s, nodes) c).1.withStk stk).tot < loops :=
  lt_of_eq_of_lt (coveredAll_tot others (s, nodes) [c]) enough

theorem below_none (layout : Layout s C headers nodes others) (wanted : c ∈ C) (enough : s.tot < loops)
    (here : i ∈ nodes c) {stk : Nat → Nat}
    (ran : dance loops fuel dep ((coveredAll others (s, nodes) (s.all others c i)).1.withStk stk) = some (none, t)) :
    ∃ stk', t = (coveredAll others (s, nodes) (s.all others c i)).1.withStk stk' := by
  obtain ⟨nodup, inside_, _⟩ := layout.all_left wanted here
  have enough' : ((coveredAll others (s, nodes) (s.all others c i)).1.withStk stk).tot < loops :=
    lt_of_eq_of_lt (coveredAll_tot others (s, nodes) _) enough
  obtain ⟨stk', rfl⟩ := dance_none ((layout.several nodup inside_).withStk stk) enough' ran
  exact ⟨stk', rfl⟩

theorem AtRow.covered_eq (layout : Layout s C headers nodes others) (enough : s.tot < loops)
    (row : AtRow loops dep s c i t) :
    c ∈ C ∧ ∃ stk done todo, nodes c = done ++ todo ∧ i = todo.headD c ∧
      t = (covered others (s, nodes) c).1.withStk stk := by
  induction row with
  | first left_over chose removed first =>
    have wanted := layout.branch enough left_over chose
    have removed' := (layout.chosen_eq wanted enough).1
    obtain rfl := Option.some.inj (removed'.symm.trans removed)
    have first' := layout.down_chosen wanted s.stk
    exact ⟨wanted, s.stk, [], nodes c, rfl, Option.some.inj (first.symm.trans first'), rfl⟩
  | next _ notHead removed called recovered linked ih =>
    obtain ⟨wanted, stk, done, todo, split, rfl, rfl⟩ := ih
    cases todo with
    | nil => exact absurd rfl notHead
    | cons i todo =>
      have here : i ∈ nodes c := by rw [split]; simp
      obtain rfl := Option.some.inj ((layout.others_eq wanted enough here _).1.symm.trans removed)
      obtain ⟨stk₂, rfl⟩ := below_none layout wanted enough here called
      obtain rfl := Option.some.inj ((layout.others_eq wanted enough here stk₂).2.symm.trans recovered)
      have linked' := layout.down_covered wanted split stk₂
      exact ⟨wanted, stk₂, done ++ [i], todo, by rw [split]; simp, Option.some.inj (linked.symm.trans linked'), rfl⟩

theorem AtRow.candidate (layout : Layout s C headers nodes others) (enough : s.tot < loops)
    (row : AtRow loops dep s c i t) (notHead : i ≠ c) :
    c ∈ C ∧ i ∈ nodes c ∧ ∃ stk, t.push dep i = (covered others (s, nodes) c).1.withStk stk := by
  obtain ⟨wanted, stk, done, todo, split, rfl, rfl⟩ := row.covered_eq layout enough
  cases todo with
  | nil => exact absurd rfl notHead
  | cons i todo =>
    refine ⟨wanted, ?_, _, rfl⟩
    rw [split]
    simp

theorem Called.covered_eq (layout : Layout s C headers nodes others) (enough : s.tot < loops)
    (called : Called loops dep s dep' t) :
    ∃ ks stk, ks.Nodup ∧ (∀ k ∈ ks, k ∈ C) ∧ t = (coveredAll others (s, nodes) ks).1.withStk stk := by
  induction called with
  | self => exact ⟨[], s.stk, List.nodup_nil, fun k none => absurd none List.not_mem_nil, rfl⟩
  | inner _ row notHead removed ih =>
    obtain ⟨ks, stk, nodup, wanted, rfl⟩ := ih
    have here := (layout.several nodup wanted).withStk stk
    have enough' : ((coveredAll others (s, nodes) ks).1.withStk stk).tot < loops :=
      lt_of_eq_of_lt (coveredAll_tot others (s, nodes) ks) enough
    obtain ⟨chosen_, member, stk', pushed⟩ := row.candidate here enough' notHead
    rw [pushed] at removed
    obtain rfl := Option.some.inj ((here.others_eq chosen_ enough' member stk').1.symm.trans removed)
    obtain ⟨nodup', inside_, _⟩ := here.all_left chosen_ member
    refine ⟨ks ++ _, stk', List.nodup_append.mpr ⟨nodup, nodup', ?_⟩, ?_, ?_⟩
    · rintro k old _ new rfl
      exact (inside_ k new).2 old
    · intro k among
      rcases List.mem_append.mp among with old | new
      · exact wanted k old
      · exact (inside_ k new).1
    · rw [coveredAll_append, coveredAll_stk]
      rfl

theorem Called.shows (shows_ : Shows loops others s) (called : Called loops dep s dep' t) : Shows loops others t := by
  obtain ⟨enough, C, headers, nodes, layout⟩ := shows_
  obtain ⟨ks, stk, nodup, wanted, rfl⟩ := called.covered_eq layout enough
  exact ⟨lt_of_eq_of_lt (coveredAll_tot others (s, nodes) ks) enough, _, _, _, (layout.several nodup wanted).withStk stk⟩

theorem Layout.shows_part (layout : Layout s C headers nodes others) (enough : s.tot < loops) (node : s.Node i)
    (wanted : ∀ k ∈ s.rest others i, k ∈ C) {before after : List Nat} (split : others i = before ++ after) :
    Shows loops others (coveredAll others (s, nodes) (before.map s.col)).1 := by
  have nodup := layout.nodup_rest node
  have columns : s.rest others i = before.map s.col ++ after.map s.col := by
    rw [rest, split, List.map_append]
  rw [columns] at nodup wanted
  refine ⟨lt_of_eq_of_lt (coveredAll_tot others _ _) enough, _, _, _, layout.several (List.nodup_append.mp nodup).1 ?_⟩
  exact fun k member => wanted k (List.mem_append_left _ member)

theorem Layout.removing (layout : Layout s C headers nodes others) (enough : s.tot < loops) (node : s.Node i)
    (wanted : ∀ k ∈ s.rest others i, k ∈ C) {k : Nat} (first : s.right i = some j)
    (turns : Turns right i (removeOf loops) j s k t) : Shows loops others t := by
  have begins : s.right i = some ((others i).headD i) := by
    simp only [right, layout.fits_node node, Option.bind_eq_bind, Option.bind_some, (layout.line i node).next_head]
  obtain rfl := Option.some.inj (begins.symm.trans first)
  obtain ⟨done, todo, split, _, rfl⟩ := turns.rule
    (fun done _ t => t = (coveredAll others (s, nodes) (done.map s.col)).1) (others i)
    (layout.removeOthers_turn node wanted enough) rfl
  exact layout.shows_part enough node wanted split

theorem Layout.recovering (layout : Layout s C headers nodes others) (enough : s.tot < loops) (node : s.Node i)
    (wanted : ∀ k ∈ s.rest others i, k ∈ C) {k : Nat}
    (first : (coveredAll others (s, nodes) (s.rest others i)).1.left i = some j)
    (turns : Turns left i (recoverOf loops) j (coveredAll others (s, nodes) (s.rest others i)).1 k t) :
    Shows loops others t := by
  have all := (layout.several (layout.nodup_rest node) wanted).line i ((coveredAll_node others _ _ i).mpr node)
  have begins : (coveredAll others (s, nodes) (s.rest others i)).1.left i = some ((others i).reverse.headD i) := by
    simp only [left, layout.fits_node node, Option.bind_eq_bind, Option.bind_some, all.reverse.next_head]
  obtain rfl := Option.some.inj (begins.symm.trans first)
  obtain ⟨done, todo, split, _, rfl⟩ := turns.rule
    (fun _ todo t => t = (coveredAll others (s, nodes) (todo.reverse.map s.col)).1) (others i).reverse
    (layout.recoverOthers_turn node wanted enough) (by rw [List.reverse_reverse]; rfl)
  have line : others i = todo.reverse ++ done.reverse := by
    rw [← List.reverse_reverse (others i), split, List.reverse_append]
  exact layout.shows_part enough node wanted line

theorem Shows.restorable (shows_ : Shows loops others s) : Restorable loops s := by
  obtain ⟨enough, _, _, _, layout⟩ := shows_
  exact layout.restorable enough

theorem Within.restorable (shows_ : Shows loops others s) (within : Within loops dep s t) : Restorable loops t := by
  obtain ⟨enough, C, headers, nodes, layout⟩ := shows_
  cases within with
  | start => exact layout.restorable enough
  | row row =>
    obtain ⟨wanted, stk, _, _, _, _, rfl⟩ := row.covered_eq layout enough
    exact ((layout.removed wanted).withStk stk).restorable (covered_enough enough)
  | removing row notHead first turns =>
    obtain ⟨wanted, here, stk, pushed⟩ := row.candidate layout enough notHead
    rw [pushed] at first turns
    obtain ⟨node, fits⟩ := layout.others_ready wanted here stk
    exact (((layout.removed wanted).withStk stk).removing (covered_enough enough) node fits first turns).restorable
  | recovering row notHead removed called first turns =>
    obtain ⟨wanted, here, stk, pushed⟩ := row.candidate layout enough notHead
    rw [pushed] at removed
    obtain rfl := Option.some.inj ((layout.others_eq wanted enough here stk).1.symm.trans removed)
    obtain ⟨stk₂, rfl⟩ := below_none layout wanted enough here called
    rw [← coveredAll_all] at first turns
    obtain ⟨node, fits⟩ := layout.others_ready wanted here stk₂
    exact (((layout.removed wanted).withStk stk₂).recovering (covered_enough enough) node fits first turns).restorable
  | @returned _ found _ ran =>
    cases found with
    | some d => exact restorable_empty (dance_some ran)
    | none =>
      obtain ⟨stk, rfl⟩ := dance_none layout enough ran
      exact (layout.withStk stk).restorable enough

/-! The matrices. -/

theorem made_layout {memory m : DLX} {r : Nat} {calls : List (Nat × Nat)} (distinct : calls.Nodup)
    (columns_ : ∀ call ∈ calls, 1 ≤ call.2 ∧ call.2 ≤ c) (made : (memory.build r c).bind (insertAll calls) = some m) :
    Entered m c calls ∧ ∃ headers nodes others, Layout m (columns c) headers nodes others := by
  obtain ⟨built, entered, small⟩ := made_entered distinct columns_ made
  obtain ⟨nodes, others, layout⟩ := built.layout (entered.heads.symm ▸ columns_) small
  rw [entered.heads] at layout
  exact ⟨entered, _, nodes, others, layout⟩

theorem made_shows {memory m : DLX} {r : Nat} {calls : List (Nat × Nat)} (distinct : calls.Nodup)
    (columns_ : ∀ call ∈ calls, 1 ≤ call.2 ∧ call.2 ≤ c)
    (made : (memory.build r c).bind (insertAll calls) = some m) (enough : c + calls.length < loops) :
    ∃ others, Shows loops others m := by
  obtain ⟨entered, headers, nodes, others, layout⟩ := made_layout distinct columns_ made
  exact ⟨others, lt_of_eq_of_lt entered.total enough, columns c, headers, nodes, layout⟩

end restore

/-- For every matrix of distinct entries, in every call of `dance` that its search makes: from
each state the call goes through, columns removed one after the other and recovered in the
opposite order give the state back, and a call that returns 0 has changed the stack only. -/
theorem backtracking_restores (memory : DLX) (r c : Nat) (calls : List (Nat × Nat)) (distinct : calls.Nodup)
    (columns_ : ∀ call ∈ calls, 1 ≤ call.2 ∧ call.2 ≤ c) (m : DLX)
    (made : (memory.build r c).bind (insertAll calls) = some m) (loops : Nat) (enough : c + calls.length < loops)
    (start dep : Nat) (s : DLX) (called : Called loops start m dep s) :
    (∀ t, Within loops dep s t → ∀ cs, Removable loops t cs →
      ∃ u, removeAll loops cs t = some u ∧ recoverAll loops cs.reverse u = some t) ∧
    ∀ fuel t, dance loops fuel dep s = some (none, t) →
      t.L = s.L ∧ t.R = s.R ∧ t.U = s.U ∧ t.D = s.D ∧ t.siz = s.siz ∧ t.row = s.row ∧ t.col = s.col ∧
        t.ans = s.ans := by
  obtain ⟨others, shown⟩ := made_shows distinct columns_ made enough
  have here := called.shows shown
  refine ⟨fun t within => within.restorable here, fun fuel t ran => ?_⟩
  obtain ⟨enough', C, headers, nodes, layout⟩ := here
  obtain ⟨stk, rfl⟩ := dance_none layout enough' ran
  exact ⟨rfl, rfl, rfl, rfl, rfl, rfl, rfl, rfl⟩

/-- The pair of row 1 and column 2 is inserted twice, so that the row has the column removed
twice: the call `dance(2)` returns 0 and leaves another list of headers than it found. -/
theorem entry_twice_not_restored :
    ∃ m u v, (zeros.build 1 3).bind (insertAll [(1, 3), (1, 2), (1, 1), (1, 2)]) = some m ∧ Called 8 1 m 2 u ∧
      dance 8 4 2 u = some (none, v) ∧ u.L 0 = 0 ∧ v.L 0 = 3 := by
  have result : (do
      let m ← (zeros.build 1 3).bind (insertAll [(1, 3), (1, 2), (1, 1), (1, 2)])
      let c ← m.chooseColumn 8
      let s ← m.remove 8 c
      let i ← s.down c
      let u ← (s.push 1 i).removeOthers 8 i
      let answer ← u.dance 8 4 2
      some (answer.1.isNone && decide (m.R 0 ≠ 0 ∧ i ≠ c ∧ u.L 0 = 0 ∧ answer.2.L 0 = 3))) = some true := by
    decide +kernel
  simp only [Option.bind_eq_bind, Option.bind_eq_some_iff] at result
  obtain ⟨m, made, c, chose, s, removed, i, first, u, others, ⟨found, v⟩, ran, facts⟩ := result
  simp only [Option.some.injEq, Bool.and_eq_true, Option.isNone_iff_eq_none, decide_eq_true_eq] at facts
  obtain ⟨rfl, left_over, notHead, before, after⟩ := facts
  exact ⟨m, u, v, Option.bind_eq_some_iff.mpr made, .inner .self (.first left_over chose removed first) notHead others,
    ran, before, after⟩

theorem backtracking_restores_two :
    ∃ m t, (zeros.build 2 3).bind (insertAll [(1, 1), (1, 2), (2, 2), (2, 3)]) = some m ∧
      m.dance 20 5 1 = some (none, t) ∧ t.siz = m.siz ∧
      ∃ u, removeAll 20 [2, 3] m = some u ∧ recoverAll 20 [3, 2] u = some m := by
  have result : (((zeros.build 2 3).bind (insertAll [(1, 1), (1, 2), (2, 2), (2, 3)])).any fun m =>
      (m.dance 20 5 1).any fun answer => answer.1.isNone && decide (m.R 0 = 1 ∧ m.R 1 = 2) &&
        (m.remove 20 2).all fun t => decide (t.R 0 = 1 ∧ t.R 1 = 3)) = true := by
    decide +kernel
  obtain ⟨m, made, search⟩ := (Option.any_eq_true _ _).mp result
  obtain ⟨⟨found, t⟩, ran, facts⟩ := (Option.any_eq_true _ _).mp search
  simp only [Bool.and_eq_true, Option.isNone_iff_eq_none, decide_eq_true_eq] at facts
  obtain ⟨⟨rfl, first, second⟩, after⟩ := facts
  have removable : Removable 20 m [2, 3] := by
    refine ⟨⟨by decide, 2, ?_⟩, fun t removed => ⟨⟨by decide, 2, ?_⟩, fun _ _ => trivial⟩⟩
    · rw [Function.iterate_succ_apply', Function.iterate_one, first, second]
    · rw [removed, Option.all_some, decide_eq_true_eq] at after
      rw [Function.iterate_succ_apply', Function.iterate_one, after.1, after.2]
  have restores := backtracking_restores zeros 2 3 [(1, 1), (1, 2), (2, 2), (2, 3)] (by decide) (by decide) m made 20
    (by decide) 1 1 m .self
  exact ⟨m, t, made, ran, (restores.2 5 t ran).2.2.2.2.1, restores.1 m .start [2, 3] removable⟩

end DLX

end CloudLab.Sudoku
