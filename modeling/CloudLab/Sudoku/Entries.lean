import CloudLab.Sudoku.Build

/-! The numbers that `insert` gives to the nodes, and the sizes that it counts. -/

namespace CloudLab.Sudoku
open Links

namespace DLX

def entry (c : Nat) (calls : List (Nat × Nat)) (x : Nat) : Option (Nat × Nat) :=
  if c < x then calls[x - (c + 1)]? else none

/-- The arrays hold these pairs, and the size of each column is the number of its nodes. -/
structure Entered (s : DLX) (c : Nat) (calls : List (Nat × Nat)) : Prop where
  heads : s.m = c
  total : s.tot = c + calls.length
  pair : ∀ x, s.Node x → entry c calls x = some (s.row x, s.col x)
  size : ∀ k, s.siz k = ((List.range' (c + 1) calls.length).filter fun x => s.col x = k).length

section entered
variable {s : DLX} {c r k x : Nat} {calls : List (Nat × Nat)} {p : Nat × Nat}

theorem entry_bound (found : entry c calls x = some p) : c < x ∧ x ≤ c + calls.length := by
  simp only [entry] at found
  split at found
  · next above =>
    obtain ⟨inside_, _⟩ := List.getElem?_eq_some_iff.mp found
    exact ⟨above, by omega⟩
  · cases found

theorem entry_old (low : x ≤ c + calls.length) : entry c (calls ++ [p]) x = entry c calls x := by
  simp only [entry]
  split
  · exact List.getElem?_append_left (by omega)
  · rfl

theorem entry_new (c : Nat) (calls : List (Nat × Nat)) (p : Nat × Nat) :
    entry c (calls ++ [p]) (c + calls.length + 1) = some p := by
  have index : c + calls.length + 1 - (c + 1) = calls.length := by omega
  rw [entry, if_pos (by omega), index, List.getElem?_concat_length]

theorem entry_mem (found : entry c calls x = some p) : p ∈ calls := by
  simp only [entry] at found
  split at found
  · exact List.mem_of_getElem? found
  · cases found

theorem mem_iff_entry (c : Nat) : p ∈ calls ↔ ∃ x, entry c calls x = some p := by
  refine ⟨fun member => ?_, fun ⟨_, found⟩ => entry_mem found⟩
  obtain ⟨i, inside_, rfl⟩ := List.getElem_of_mem member
  have index : c + 1 + i - (c + 1) = i := by omega
  refine ⟨c + 1 + i, ?_⟩
  rw [entry, if_pos (by omega), index, List.getElem?_eq_getElem inside_]

theorem Entered.node (entered : Entered s c calls) (found : entry c calls x = some p) : s.Node x := by
  obtain ⟨above, below⟩ := entry_bound found
  exact ⟨entered.heads ▸ above, entered.total ▸ below⟩

theorem Entered.entry_iff (entered : Entered s c calls) :
    entry c calls x = some (r, k) ↔ s.Node x ∧ s.row x = r ∧ s.col x = k := by
  constructor
  · intro found
    have node := entered.node found
    have same := Option.some.inj ((entered.pair x node).symm.trans found)
    exact ⟨node, congrArg Prod.fst same, congrArg Prod.snd same⟩
  · rintro ⟨node, rfl, rfl⟩
    exact entered.pair x node

theorem Entered.insert (entered : Entered s c calls) : Entered (s.inserted r k) c (calls ++ [(r, k)]) := by
  obtain ⟨heads, total, pair, size⟩ := entered
  constructor
  · exact heads
  · rw [List.length_append, List.length_singleton, ← Nat.add_assoc, ← total]
    rfl
  · intro x node
    by_cases new : x = s.tot + 1
    · rw [new, row_new, col_new, total]
      exact entry_new c calls (r, k)
    · have old : s.Node x := ⟨node.1, Nat.le_of_lt_succ (Nat.lt_of_le_of_ne node.2 new)⟩
      rw [row_old old, col_old old, entry_old (total ▸ old.2)]
      exact pair x old
  · intro k'
    have kept : ∀ x ∈ List.range' (c + 1) calls.length,
        decide ((s.inserted r k).col x = k') = decide (s.col x = k') := by
      intro x member
      have bounds := List.mem_range'_1.mp member
      rw [col_old ⟨by omega, by omega⟩]
    have last : c + 1 + calls.length = s.tot + 1 := by omega
    rw [List.length_append, List.length_singleton, List.range'_1_concat, List.filter_append, List.filter_congr kept, last,
      List.length_append]
    show put s.siz k (s.siz k + 1) k' = _
    by_cases here : k = k'
    · subst here
      rw [put_self, size k, List.filter_cons_of_pos (by simp), List.filter_nil, List.length_singleton]
      rfl
    · rw [put_ne (Ne.symm here), size k', List.filter_cons_of_neg (by simpa using here), List.filter_nil]
      rfl

end entered

/-! The matrices. -/

section made
variable {memory s t : DLX} {c r k : Nat} {calls more : List (Nat × Nat)}

theorem build_entered (made : memory.build r c = some s) : c < MAXSIZE + 10 ∧ Built s [] ∧ Entered s c [] := by
  obtain ⟨small, empty⟩ : c < MAXSIZE + 10 ∧ s.siz = fun _ => 0 := by
    simp only [build, Option.bind_eq_bind, Option.bind_eq_some_iff] at made
    obtain ⟨_, _, _, fits, result⟩ := made
    simp only [inside, List.mem_cons, List.not_mem_nil, or_false, forall_eq_or_imp, forall_eq] at fits
    split at fits
    · next small =>
      cases result
      exact ⟨small.2, rfl⟩
    · cases fits
  obtain ⟨s', made', built, heads, total⟩ := build_built memory r small
  obtain rfl := Option.some.inj (made'.symm.trans made)
  refine ⟨small, built, heads, total, ?_, ?_⟩
  · rintro x ⟨above, below⟩
    omega
  · intro k
    rw [empty]
    rfl

theorem insert_small (made : s.insert r k = some t) : s.tot + 1 < MAXSIZE + 10 ∧ r < MAXSIZE + 10 := by
  simp only [insert, Option.bind_eq_bind, Option.bind_eq_some_iff] at made
  obtain ⟨_, fits, _⟩ := made
  simp only [inside, List.mem_cons, List.not_mem_nil, or_false, forall_eq_or_imp, forall_eq] at fits
  split at fits
  · next small => exact ⟨small.1, small.2.2.1⟩
  · cases fits

theorem Entered.of_insertAll (entered : Entered s c calls) (built : Built s calls) (small : s.tot < MAXSIZE + 10)
    (distinct : (calls ++ more).Nodup) (columns : ∀ call ∈ more, 1 ≤ call.2 ∧ call.2 ≤ c)
    (made : insertAll more s = some t) :
    Built t (calls ++ more) ∧ Entered t c (calls ++ more) ∧ t.tot < MAXSIZE + 10 := by
  induction more generalizing s calls with
  | nil =>
    cases made
    rw [List.append_nil]
    exact ⟨built, entered, small⟩
  | cons call more ih =>
    obtain ⟨r, k⟩ := call
    obtain ⟨u, first, rest⟩ := Option.bind_eq_some_iff.mp made
    have column : 1 ≤ k ∧ k ≤ s.m := entered.heads.symm ▸ columns (r, k) (by simp)
    have new : (r, k) ∉ calls := by
      rw [List.nodup_append] at distinct
      exact fun old => distinct.2.2 _ old (r, k) (by simp) rfl
    obtain ⟨room, row⟩ := insert_small first
    obtain rfl := Option.some.inj ((built.insert_eq column row room).symm.trans first)
    have shape : calls ++ (r, k) :: more = calls ++ [(r, k)] ++ more := by simp
    rw [shape] at distinct ⊢
    exact ih entered.insert (built.insert column new) room distinct
      (fun call member => columns call (List.mem_cons_of_mem _ member)) rest

theorem made_entered (distinct : calls.Nodup) (columns : ∀ call ∈ calls, 1 ≤ call.2 ∧ call.2 ≤ c)
    (made : (memory.build r c).bind (insertAll calls) = some s) :
    Built s calls ∧ Entered s c calls ∧ s.tot < MAXSIZE + 10 := by
  obtain ⟨empty, began, inserted⟩ := Option.bind_eq_some_iff.mp made
  obtain ⟨small, built, entered⟩ := build_entered began
  have low : empty.tot < MAXSIZE + 10 := lt_of_eq_of_lt entered.total small
  have distinct' : ([] ++ calls).Nodup := distinct
  exact entered.of_insertAll built low distinct' columns inserted

end made

end DLX

end CloudLab.Sudoku
