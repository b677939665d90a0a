import CloudLab.Sudoku.Build

/-! The solver's work on one line: the candidates of the cells as an exact cover problem, and
the line that is printed. -/

namespace CloudLab.Sudoku
open DLX

def Digit (n : Nat) : Prop := 1 ≤ n ∧ n ≤ 9

structure Complete (g : Nat → Nat → Nat) : Prop where
  cell : ∀ i j, Digit i → Digit j → Digit (g i j)
  row : ∀ i v, Digit i → Digit v → ∃! j, Digit j ∧ g i j = v
  column : ∀ j v, Digit j → Digit v → ∃! i, Digit i ∧ g i j = v
  box : ∀ a b v, a < 3 → b < 3 → Digit v → ∃! p : Nat × Nat,
    (3 * a < p.1 ∧ p.1 ≤ 3 * a + 3) ∧ (3 * b < p.2 ∧ p.2 ≤ 3 * b + 3) ∧ g p.1 p.2 = v

/-- What the line gives for a cell; 0 is an empty cell. -/
def given (str : List Int8) (i j : Nat) : Int := (str[(i - 1) * 9 + j - 1]?.getD 48).toInt - 48

def Kept (str : List Int8) (g : Nat → Nat → Nat) : Prop :=
  ∀ i j, Digit i → Digit j → given str i j ≠ 0 → given str i j = g i j

def render (g : Nat → Nat → Nat) : List Int8 := cells.map fun (i, j) => Int8.ofInt (g i j + 48)

/-! The insertions for a line. -/

def candidate (i j v : Nat) : List (Nat × Nat) :=
  [(GetId i j v, (i - 1) * 9 + v), (GetId i j v, 81 + (j - 1) * 9 + v),
    (GetId i j v, 81 * 2 + (((i - 1) / 3 + 1 - 1) * 3 + ((j - 1) / 3 + 1) - 1) * 9 + v),
    (GetId i j v, 81 * 3 + (i - 1) * 9 + j)]

def Allowed (str : List Int8) (i j v : Nat) : Prop := given str i j = 0 ∨ given str i j = v

instance (str : List Int8) (i j v : Nat) : Decidable (Allowed str i j v) := inferInstanceAs (Decidable (_ ∨ _))

def digitCalls (str : List Int8) (i j v : Nat) : List (Nat × Nat) :=
  if Allowed str i j v then candidate i j v else []

def cellCalls (str : List Int8) (cell : Nat × Nat) : List (Nat × Nat) :=
  (List.range' 1 9).flatMap (digitCalls str cell.1 cell.2)

def calls (str : List Int8) : List (Nat × Nat) := cells.flatMap (cellCalls str)

section read
variable {str : List Int8} {s : DLX} {ans : Nat → Nat → Int} {i j : Nat}

theorem insert_withAns (s : DLX) (ans : Nat → Nat → Int) (r k : Nat) :
    (s.withAns ans).insert r k = (s.insert r k).map (·.withAns ans) := by
  simp only [DLX.insert, DLX.withAns]
  cases inside [s.tot + 1, k, r, s.D k] with
  | none => rfl
  | some =>
    simp only [Option.bind_eq_bind, Option.bind_some]
    change (if s.first r = 0 then _ else _) = Option.map _ (if s.first r = 0 then _ else _)
    by_cases free : s.first r = 0
    · rw [if_pos free, if_pos free]
      rfl
    · rw [if_neg free, if_neg free]
      cases inside [s.first r, s.R (s.first r)] with
      | none => rfl
      | some => rfl

theorem Insert_eq (i j v : Nat) (s : DLX) : Insert i j v s = insertAll (candidate i j v) s := by
  simp [Insert, insertAll, candidate]

theorem insertAll_withAns (l : List (Nat × Nat)) (s : DLX) (ans : Nat → Nat → Int) :
    insertAll l (s.withAns ans) = (insertAll l s).map (·.withAns ans) := by
  induction l generalizing s with
  | nil => rfl
  | cons call l ih =>
    have step : ∀ t : DLX, insertAll (call :: l) t = (t.insert call.1 call.2).bind (insertAll l) := fun _ => rfl
    rw [step, step, insert_withAns]
    cases s.insert call.1 call.2 with
    | none => rfl
    | some t => exact ih t

theorem insertAll_append (l l' : List (Nat × Nat)) (s : DLX) :
    insertAll (l ++ l') s = (insertAll l s).bind (insertAll l') := by
  rw [insertAll, List.foldlM_append]
  rfl

theorem readDigits_eq (digit : ans i j = given str i j) (vs : List Nat) (s : DLX) :
    vs.foldlM (readDigit i j) (s.withAns ans) = (insertAll (vs.flatMap (digitCalls str i j)) s).map (·.withAns ans) := by
  induction vs generalizing s with
  | nil => rfl
  | cons v vs ih =>
    have first : readDigit i j (s.withAns ans) v = (insertAll (digitCalls str i j v) s).map (·.withAns ans) := by
      change (if ans i j ≠ 0 ∧ ans i j ≠ v then some (s.withAns ans) else Insert i j v (s.withAns ans)) = _
      rw [digit, digitCalls]
      by_cases allowed : Allowed str i j v
      · have tried : ¬ (given str i j ≠ 0 ∧ given str i j ≠ v) := by
          rw [Allowed] at allowed
          tauto
        rw [if_neg tried, if_pos allowed, Insert_eq, insertAll_withAns]
      · have skipped : given str i j ≠ 0 ∧ given str i j ≠ v := by
          rw [Allowed] at allowed
          tauto
        rw [if_pos skipped, if_neg allowed]
        rfl
    rw [List.foldlM_cons, first, List.flatMap_cons, insertAll_append]
    cases insertAll (digitCalls str i j v) s with
    | none => rfl
    | some t => exact ih t

def setCell (str : List Int8) (ans : Nat → Nat → Int) (cell : Nat × Nat) : Nat → Nat → Int :=
  put ans cell.1 (put (ans cell.1) cell.2 (given str cell.1 cell.2))

theorem setCell_apply (str : List Int8) (ans : Nat → Nat → Int) (cell : Nat × Nat) (i j : Nat) :
    setCell str ans cell i j = if (i, j) = cell then given str i j else ans i j := by
  obtain ⟨x, y⟩ := cell
  by_cases row : i = x
  · subst row
    by_cases column : j = y
    · subst column
      simp [setCell]
    · have other : (i, j) ≠ (i, y) := fun same => column (Prod.mk.inj same).2
      rw [if_neg other, setCell, put_self]
      exact put_ne column
  · have other : (i, j) ≠ (x, y) := fun same => row (Prod.mk.inj same).1
    rw [if_neg other, setCell, put_ne row]

theorem readCell_eq (inside_ : (i - 1) * 9 + j - 1 < str.length) (s : DLX) (ans : Nat → Nat → Int) :
    readCell str (s.withAns ans) (i, j) =
      (insertAll (cellCalls str (i, j)) s).map (·.withAns (setCell str ans (i, j))) := by
  have found : str[(i - 1) * 9 + j - 1]? = some (str[(i - 1) * 9 + j - 1]) := List.getElem?_eq_getElem inside_
  have read : charAt str ((i - 1) * 9 + j - 1) = some (str[(i - 1) * 9 + j - 1]) := by
    rw [charAt, if_neg (Nat.ne_of_lt inside_), found]
  have value : (str[(i - 1) * 9 + j - 1]).toInt - 48 = given str i j := by
    rw [given, found]
    rfl
  simp only [readCell, read, Option.bind_eq_bind, Option.bind_some, value]
  exact readDigits_eq (by simp) _ s

theorem readCells_eq {cs : List (Nat × Nat)} (inside_ : ∀ c ∈ cs, (c.1 - 1) * 9 + c.2 - 1 < str.length)
    (s : DLX) (ans : Nat → Nat → Int) : cs.foldlM (readCell str) (s.withAns ans) =
      (insertAll (cs.flatMap (cellCalls str)) s).map (·.withAns (cs.foldl (setCell str) ans)) := by
  induction cs generalizing s ans with
  | nil => rfl
  | cons c cs ih =>
    rw [List.foldlM_cons, readCell_eq (inside_ c (by simp)), List.flatMap_cons, insertAll_append]
    cases insertAll (cellCalls str c) s with
    | none => rfl
    | some t => exact ih (fun c' member => inside_ c' (List.mem_cons_of_mem c member)) t _

theorem foldl_setCell (cs : List (Nat × Nat)) (ans : Nat → Nat → Int) (member : (i, j) ∈ cs) :
    cs.foldl (setCell str) ans i j = given str i j := by
  induction cs using List.reverseRecOn with
  | nil => cases member
  | append_singleton cs c ih =>
    rw [List.foldl_append, List.foldl_cons, List.foldl_nil, setCell_apply]
    split
    · rfl
    · next other =>
      refine ih ((List.mem_append.mp member).resolve_right fun last => other ?_)
      exact List.mem_singleton.mp last

theorem mem_cells : (i, j) ∈ cells ↔ Digit i ∧ Digit j := by
  simp only [cells, List.mem_flatMap, List.mem_map, List.mem_range'_1, Prod.mk.injEq, Digit]
  constructor
  · rintro ⟨x, row, y, column, rfl, rfl⟩
    omega
  · rintro ⟨row, column⟩
    exact ⟨i, by omega, j, by omega, rfl, rfl⟩

theorem cell_inside (long : 81 ≤ str.length) : ∀ c ∈ cells, (c.1 - 1) * 9 + c.2 - 1 < str.length := by
  rintro ⟨i, j⟩ member
  obtain ⟨row, column⟩ := mem_cells.mp member
  rw [Digit] at row column
  show (i - 1) * 9 + j - 1 < str.length
  omega

end read

/-! The constraints that a candidate meets: task 1 to 4 of the source, counted from 0. -/

def taskColumn (t a b : Nat) : Nat := 81 * t + (a - 1) * 9 + b

def room (i j : Nat) : Nat := ((i - 1) / 3 + 1 - 1) * 3 + ((j - 1) / 3 + 1)

def Meets (i j v k : Nat) : Prop :=
  k = taskColumn 0 i v ∨ k = taskColumn 1 j v ∨ k = taskColumn 2 (room i j) v ∨ k = taskColumn 3 i j

section constraints
variable {str : List Int8} {i j v i' j' v' k r t a b : Nat}

theorem mem_candidate : (r, k) ∈ candidate i j v ↔ r = GetId i j v ∧ Meets i j v k := by
  simp only [candidate, Meets, taskColumn, room, List.mem_cons, Prod.mk.injEq, List.not_mem_nil, or_false,
    Nat.mul_one, Nat.mul_zero, Nat.zero_add]
  tauto

theorem digit_room (row : Digit i) (column : Digit j) : Digit (room i j) := by
  simp only [Digit, room] at *
  omega

theorem GetId_injective (digits : Digit i ∧ Digit j ∧ Digit v) (digits' : Digit i' ∧ Digit j' ∧ Digit v')
    (same : GetId i j v = GetId i' j' v') : i = i' ∧ j = j' ∧ v = v' := by
  simp only [Digit, GetId] at *
  omega

theorem taskColumn_injective {t' a' b' : Nat} (digits : Digit a ∧ Digit b) (digits' : Digit a' ∧ Digit b')
    (same : taskColumn t a b = taskColumn t' a' b') : t = t' ∧ a = a' ∧ b = b' := by
  simp only [Digit, taskColumn] at *
  omega

theorem taskColumn_range (task : t < 4) (digits : Digit a ∧ Digit b) :
    1 ≤ taskColumn t a b ∧ taskColumn t a b ≤ 324 := by
  simp only [Digit, taskColumn] at *
  omega

theorem exists_task (range : 1 ≤ k ∧ k ≤ 324) : ∃ t a b, t < 4 ∧ Digit a ∧ Digit b ∧ k = taskColumn t a b := by
  refine ⟨(k - 1) / 81, (k - 1) % 81 / 9 + 1, (k - 1) % 9 + 1, ?_, ?_, ?_, ?_⟩
  · omega
  · rw [Digit]
    omega
  · rw [Digit]
    omega
  · rw [taskColumn]
    omega

theorem meets_range (digits : Digit i ∧ Digit j ∧ Digit v) (meets : Meets i j v k) : 1 ≤ k ∧ k ≤ 324 := by
  obtain ⟨row, column, digit⟩ := digits
  rcases meets with rfl | rfl | rfl | rfl
  · exact taskColumn_range (by decide) ⟨row, digit⟩
  · exact taskColumn_range (by decide) ⟨column, digit⟩
  · exact taskColumn_range (by decide) ⟨digit_room row column, digit⟩
  · exact taskColumn_range (by decide) ⟨row, column⟩

theorem mem_calls : (r, k) ∈ calls str ↔
    ∃ i j v, (Digit i ∧ Digit j ∧ Digit v) ∧ Allowed str i j v ∧ r = GetId i j v ∧ Meets i j v k := by
  rw [calls, List.mem_flatMap]
  constructor
  · rintro ⟨⟨i, j⟩, cell, member⟩
    obtain ⟨v, range, member⟩ := List.mem_flatMap.mp member
    rw [digitCalls] at member
    split at member
    · next allowed =>
      obtain ⟨row, column⟩ := mem_cells.mp cell
      have digit : Digit v := by
        rw [List.mem_range'_1] at range
        rw [Digit]
        omega
      exact ⟨i, j, v, ⟨row, column, digit⟩, allowed, mem_candidate.mp member⟩
    · cases member
  · rintro ⟨i, j, v, ⟨row, column, digit⟩, allowed, meets⟩
    refine ⟨(i, j), mem_cells.mpr ⟨row, column⟩, List.mem_flatMap.mpr ⟨v, ?_, ?_⟩⟩
    · rw [Digit] at digit
      rw [List.mem_range'_1]
      omega
    · rw [digitCalls, if_pos allowed]
      exact mem_candidate.mpr meets

theorem nodup_candidate (digits : Digit i ∧ Digit j ∧ Digit v) : (candidate i j v).Nodup := by
  have box := digit_room digits.1 digits.2.1
  simp only [Digit, room] at digits box
  simp only [candidate, List.nodup_cons, List.mem_cons, Prod.mk.injEq, true_and, List.not_mem_nil, or_false,
    not_false_eq_true, List.nodup_nil, and_true]
  omega

theorem mem_digitCalls {p : Nat × Nat} (member : p ∈ digitCalls str i j v) : p.1 = GetId i j v := by
  rw [digitCalls] at member
  split at member
  · exact (mem_candidate.mp member).1
  · cases member

theorem nodup_calls : (calls str).Nodup := by
  have digit : ∀ {v}, v ∈ List.range' 1 9 → Digit v := by
    intro v member
    rw [List.mem_range'_1] at member
    rw [Digit]
    omega
  rw [calls, List.nodup_flatMap]
  constructor
  · rintro ⟨i, j⟩ cell
    obtain ⟨row, column⟩ := mem_cells.mp cell
    rw [cellCalls, List.nodup_flatMap]
    constructor
    · intro v member
      rw [digitCalls]
      split
      · exact nodup_candidate ⟨row, column, digit member⟩
      · exact List.nodup_nil
    · have nodup : (List.range' 1 9).Nodup := List.nodup_range'
      refine nodup.imp_of_mem ?_
      intro v v' member member' different p first second
      have same := (mem_digitCalls first).symm.trans (mem_digitCalls second)
      exact different (GetId_injective ⟨row, column, digit member⟩ ⟨row, column, digit member'⟩ same).2.2
  · have nodup : cells.Nodup := by decide
    refine nodup.imp_of_mem ?_
    rintro ⟨i, j⟩ ⟨i', j'⟩ cell cell' different p first second
    obtain ⟨row, column⟩ := mem_cells.mp cell
    obtain ⟨row', column'⟩ := mem_cells.mp cell'
    obtain ⟨v, range, first⟩ := List.mem_flatMap.mp first
    obtain ⟨v', range', second⟩ := List.mem_flatMap.mp second
    have same := (mem_digitCalls first).symm.trans (mem_digitCalls second)
    obtain ⟨rows, columns, _⟩ := GetId_injective ⟨row, column, digit range⟩ ⟨row', column', digit range'⟩ same
    exact different (Prod.ext rows columns)

theorem length_flatMap_le {α β : Type} {l : List α} {f : α → List β} {n : Nat} (short : ∀ x ∈ l, (f x).length ≤ n) :
    (l.flatMap f).length ≤ l.length * n := by
  induction l with
  | nil => simp
  | cons x l ih =>
    have first := short x (by simp)
    have rest := ih fun y member => short y (List.mem_cons_of_mem x member)
    rw [List.flatMap_cons, List.length_append, List.length_cons, Nat.succ_mul]
    omega

theorem length_calls : (calls str).length ≤ 2916 := by
  have four : ∀ i j v, (digitCalls str i j v).length ≤ 4 := by
    intro i j v
    rw [digitCalls]
    split <;> simp [candidate]
  have cell : ∀ c ∈ cells, (cellCalls str c).length ≤ 36 := fun c _ =>
    length_flatMap_le fun v _ => four c.1 c.2 v
  exact length_flatMap_le cell

theorem calls_range : ∀ call ∈ calls str, (1 ≤ call.2 ∧ call.2 ≤ 324) ∧ 1 ≤ call.1 ∧ call.1 ≤ 729 := by
  rintro ⟨r, k⟩ member
  obtain ⟨i, j, v, digits, _, rfl, meets⟩ := mem_calls.mp member
  refine ⟨meets_range digits meets, ?_⟩
  simp only [Digit, GetId] at *
  omega

end constraints

/-! Exact covers are completed grids. -/

theorem existsUnique_image {α β : Type} {f : α → β} {P : β → Prop} {Q : α → Prop}
    (injective : ∀ x y, Q x → Q y → f x = f y → x = y) (image : ∀ p, P p ↔ ∃ x, Q x ∧ f x = p) :
    (∃! p, P p) ↔ ∃! x, Q x := by
  constructor
  · rintro ⟨p, holds, only⟩
    obtain ⟨x, here, rfl⟩ := (image p).mp holds
    exact ⟨x, here, fun y there => injective y x there here (only _ ((image _).mpr ⟨y, there, rfl⟩))⟩
  · rintro ⟨x, here, only⟩
    refine ⟨f x, (image _).mpr ⟨x, here, rfl⟩, fun p holds => ?_⟩
    obtain ⟨y, there, rfl⟩ := (image p).mp holds
    rw [only y there]

def taskOf : Nat → Nat → Nat → Nat → Nat × Nat
  | 0, i, _, v => (i, v)
  | 1, _, j, v => (j, v)
  | 2, i, j, v => (room i j, v)
  | _, i, j, _ => (i, j)

/-- Every task is met by one cell. -/
def EachTask (g : Nat → Nat → Nat) : Prop := ∀ t a b, t < 4 → Digit a → Digit b →
  ∃! p : Nat × Nat, (Digit p.1 ∧ Digit p.2) ∧ taskOf t p.1 p.2 (g p.1 p.2) = (a, b)

section grids
variable {str : List Int8} {g : Nat → Nat → Nat} {S : Set Nat} {i j v k r t a b : Nat}

theorem meets_iff (task : t < 4) (digits : Digit i ∧ Digit j ∧ Digit v) (digits' : Digit a ∧ Digit b) :
    Meets i j v (taskColumn t a b) ↔ taskOf t i j v = (a, b) := by
  obtain ⟨row, column, digit⟩ := digits
  have box := digit_room row column
  constructor
  · rintro (same | same | same | same)
    · obtain ⟨rfl, rfl, rfl⟩ := taskColumn_injective digits' ⟨row, digit⟩ same
      rfl
    · obtain ⟨rfl, rfl, rfl⟩ := taskColumn_injective digits' ⟨column, digit⟩ same
      rfl
    · obtain ⟨rfl, rfl, rfl⟩ := taskColumn_injective digits' ⟨box, digit⟩ same
      rfl
    · obtain ⟨rfl, rfl, rfl⟩ := taskColumn_injective digits' ⟨row, column⟩ same
      rfl
  · intro same
    obtain rfl | rfl | rfl | rfl : t = 0 ∨ t = 1 ∨ t = 2 ∨ t = 3 := by omega
    · cases same
      exact Or.inl rfl
    · cases same
      exact Or.inr (Or.inl rfl)
    · cases same
      exact Or.inr (Or.inr (Or.inl rfl))
    · cases same
      exact Or.inr (Or.inr (Or.inr rfl))

/-- Rows that are the candidates of a grid cover each column once when each task is met
by one cell. -/
theorem cover_iff (cell : ∀ i j, Digit i → Digit j → Digit (g i j))
    (allowed : ∀ i j, Digit i → Digit j → Allowed str i j (g i j))
    (rows : ∀ i j, Digit i → Digit j → GetId i j (g i j) ∈ S)
    (only : ∀ r k, r ∈ S → (r, k) ∈ calls str → ∃ i j, Digit i ∧ Digit j ∧ r = GetId i j (g i j)) :
    (∀ k, 1 ≤ k → k ≤ 324 → ∃! r, r ∈ S ∧ (r, k) ∈ calls str) ↔ EachTask g := by
  have one : ∀ t a b, t < 4 → Digit a → Digit b → ((∃! r, r ∈ S ∧ (r, taskColumn t a b) ∈ calls str) ↔
      ∃! p : Nat × Nat, (Digit p.1 ∧ Digit p.2) ∧ taskOf t p.1 p.2 (g p.1 p.2) = (a, b)) := by
    intro t a b task first second
    refine existsUnique_image (f := fun p : Nat × Nat => GetId p.1 p.2 (g p.1 p.2)) ?_ ?_
    · rintro ⟨i, j⟩ ⟨i', j'⟩ ⟨⟨row, column⟩, _⟩ ⟨⟨row', column'⟩, _⟩ same
      obtain ⟨rows, columns, _⟩ := GetId_injective ⟨row, column, cell i j row column⟩
        ⟨row', column', cell i' j' row' column'⟩ same
      exact Prod.ext rows columns
    · intro r
      constructor
      · rintro ⟨chosen, called⟩
        obtain ⟨i, j, row, column, rfl⟩ := only r _ chosen called
        obtain ⟨i', j', v, digits, _, same, meets⟩ := mem_calls.mp called
        obtain ⟨rfl, rfl, rfl⟩ := GetId_injective ⟨row, column, cell i j row column⟩ digits same
        exact ⟨(i, j), ⟨⟨row, column⟩, (meets_iff task digits ⟨first, second⟩).mp meets⟩, rfl⟩
      · rintro ⟨⟨i, j⟩, ⟨⟨row, column⟩, same⟩, rfl⟩
        have digits : Digit i ∧ Digit j ∧ Digit (g i j) := ⟨row, column, cell i j row column⟩
        exact ⟨rows i j row column, mem_calls.mpr
          ⟨i, j, _, digits, allowed i j row column, rfl, (meets_iff task digits ⟨first, second⟩).mpr same⟩⟩
  constructor
  · intro once t a b task first second
    have range := taskColumn_range task ⟨first, second⟩
    exact (one t a b task first second).mp (once _ range.1 range.2)
  · intro each k low high
    obtain ⟨t, a, b, task, first, second, rfl⟩ := exists_task ⟨low, high⟩
    exact (one t a b task first second).mpr (each t a b task first second)

theorem complete_iff (cell : ∀ i j, Digit i → Digit j → Digit (g i j)) : Complete g ↔ EachTask g := by
  have rows : ∀ i v, Digit i → ((∃! p : Nat × Nat, (Digit p.1 ∧ Digit p.2) ∧ (p.1, g p.1 p.2) = (i, v)) ↔
      ∃! j, Digit j ∧ g i j = v) := by
    intro i v row
    refine existsUnique_image (f := fun j => (i, j)) (fun x y _ _ same => (Prod.mk.inj same).2) ?_
    rintro ⟨x, j⟩
    simp only [Prod.mk.injEq]
    constructor
    · rintro ⟨⟨_, column⟩, rfl, rfl⟩
      exact ⟨j, ⟨column, rfl⟩, rfl, rfl⟩
    · rintro ⟨_, ⟨column, rfl⟩, rfl, rfl⟩
      exact ⟨⟨row, column⟩, rfl, rfl⟩
  have columns : ∀ j v, Digit j → ((∃! p : Nat × Nat, (Digit p.1 ∧ Digit p.2) ∧ (p.2, g p.1 p.2) = (j, v)) ↔
      ∃! i, Digit i ∧ g i j = v) := by
    intro j v column
    refine existsUnique_image (f := fun i => (i, j)) (fun x y _ _ same => (Prod.mk.inj same).1) ?_
    rintro ⟨i, y⟩
    simp only [Prod.mk.injEq]
    constructor
    · rintro ⟨⟨row, _⟩, rfl, rfl⟩
      exact ⟨i, ⟨row, rfl⟩, rfl, rfl⟩
    · rintro ⟨_, ⟨row, rfl⟩, rfl, rfl⟩
      exact ⟨⟨row, column⟩, rfl, rfl⟩
  have boxes : ∀ a b v, a < 3 → b < 3 →
      ((∃! p : Nat × Nat, (Digit p.1 ∧ Digit p.2) ∧ (room p.1 p.2, g p.1 p.2) = (a * 3 + b + 1, v)) ↔
      ∃! p : Nat × Nat, (3 * a < p.1 ∧ p.1 ≤ 3 * a + 3) ∧ (3 * b < p.2 ∧ p.2 ≤ 3 * b + 3) ∧ g p.1 p.2 = v) := by
    intro a b v small small'
    refine existsUnique_congr fun p => ?_
    simp only [Prod.mk.injEq, room, Digit]
    omega
  constructor
  · intro complete t a b task first second
    obtain rfl | rfl | rfl | rfl : t = 0 ∨ t = 1 ∨ t = 2 ∨ t = 3 := by omega
    · exact (rows a b first).mpr (complete.row a b first second)
    · exact (columns a b first).mpr (complete.column a b first second)
    · rw [Digit] at first
      have number : a = (a - 1) / 3 * 3 + (a - 1) % 3 + 1 := by omega
      have box := (boxes ((a - 1) / 3) ((a - 1) % 3) b (by omega) (by omega)).mpr
        (complete.box _ _ b (by omega) (by omega) second)
      rw [← number] at box
      exact box
    · exact ⟨(a, b), ⟨⟨first, second⟩, rfl⟩, fun p holds => holds.2⟩
  · intro each
    refine ⟨cell, fun i v row digit => ?_, fun j v column digit => ?_, fun a b v small small' digit => ?_⟩
    · exact (rows i v row).mp (each 0 i v (by decide) row digit)
    · exact (columns j v column).mp (each 1 j v (by decide) column digit)
    · refine (boxes a b v small small').mp (each 2 _ v (by decide) ?_ digit)
      rw [Digit]
      omega

theorem solvable_of_complete (complete : Complete g) (kept : Kept str g) :
    ∃ S : Set Nat, ∀ k, 1 ≤ k → k ≤ 324 → ∃! r, r ∈ S ∧ (r, k) ∈ calls str := by
  refine ⟨fun r => ∃ i j, Digit i ∧ Digit j ∧ r = GetId i j (g i j), ?_⟩
  refine (cover_iff complete.cell ?_ ?_ ?_).mpr ((complete_iff complete.cell).mp complete)
  · intro i j row column
    by_cases empty : given str i j = 0
    · exact Or.inl empty
    · exact Or.inr (kept i j row column empty)
  · exact fun i j row column => ⟨i, j, row, column, rfl⟩
  · exact fun r k chosen _ => chosen

theorem complete_of_cover (once : ∀ k, 1 ≤ k → k ≤ 324 → ∃! r, r ∈ S ∧ (r, k) ∈ calls str) :
    ∃ g, Complete g ∧ Kept str g ∧ ∀ i j, Digit i → Digit j →
      GetId i j (g i j) ∈ S ∧ ∀ v, Digit v → GetId i j v ∈ S → Allowed str i j v → v = g i j := by
  have pick : ∀ i j, Digit i ∧ Digit j → ∃ v, Digit v ∧ Allowed str i j v ∧ GetId i j v ∈ S ∧
      ∀ v', Digit v' → GetId i j v' ∈ S → Allowed str i j v' → v' = v := by
    rintro i j ⟨row, column⟩
    have range := taskColumn_range (t := 3) (by decide) ⟨row, column⟩
    obtain ⟨r, ⟨chosen, called⟩, only⟩ := once _ range.1 range.2
    obtain ⟨i', j', v, digits, allowed, rfl, meets⟩ := mem_calls.mp called
    have same := (meets_iff (by decide) digits ⟨row, column⟩).mp meets
    obtain ⟨rfl, rfl⟩ := Prod.mk.inj same
    refine ⟨v, digits.2.2, allowed, chosen, fun v' digit chosen' allowed' => ?_⟩
    have digits' : Digit i' ∧ Digit j' ∧ Digit v' := ⟨row, column, digit⟩
    have there := only _ ⟨chosen', mem_calls.mpr ⟨i', j', v', digits', allowed', rfl,
      (meets_iff (by decide) digits' ⟨row, column⟩).mpr rfl⟩⟩
    exact (GetId_injective digits' digits there).2.2
  choose! g digit allowed chosen only using pick
  have cell : ∀ i j, Digit i → Digit j → Digit (g i j) := fun i j row column => digit i j ⟨row, column⟩
  refine ⟨g, ?_, ?_, fun i j row column => ⟨chosen i j ⟨row, column⟩, only i j ⟨row, column⟩⟩⟩
  · refine (complete_iff cell).mpr ((cover_iff cell (fun i j row column => allowed i j ⟨row, column⟩)
      (fun i j row column => chosen i j ⟨row, column⟩) ?_).mp once)
    intro r k member called
    obtain ⟨i, j, v, ⟨row, column, digit'⟩, allowed', rfl, _⟩ := mem_calls.mp called
    refine ⟨i, j, row, column, ?_⟩
    rw [only i j ⟨row, column⟩ v digit' member allowed']
  · intro i j row column filled
    exact (allowed i j ⟨row, column⟩).resolve_left filled

end grids

/-! The line that is printed. -/

section output
variable {str : List Int8} {g : Nat → Nat → Nat} {stk : Nat → Nat} {i j v : Nat}

theorem placed_apply (digits : Digit i ∧ Digit j ∧ Digit v) {p : Nat} (candidate : stk p = GetId i j v)
    (ans : Nat → Nat → Int) (x y : Nat) : placed stk ans p x y = if (x, y) = (i, j) then (v : Int) else ans x y := by
  have decoded : (stk p - 1) / 9 / 9 + 1 = i ∧ (stk p - 1) / 9 % 9 + 1 = j ∧ (stk p - 1) % 9 + 1 = v := by
    rw [candidate]
    simp only [Digit, GetId] at *
    omega
  rw [placed, decoded.1, decoded.2.1, decoded.2.2]
  by_cases row : x = i
  · subst row
    by_cases column : y = j
    · subst column
      simp
    · have other : (x, y) ≠ (x, j) := fun same => column (Prod.mk.inj same).2
      rw [if_neg other, put_self]
      exact put_ne column
  · have other : (x, y) ≠ (i, j) := fun same => row (Prod.mk.inj same).1
    rw [if_neg other, put_ne row]

theorem foldl_placed {l : List Nat} (ans : Nat → Nat → Int) (cell : ∀ i j, Digit i → Digit j → Digit (g i j))
    (candidates : ∀ p ∈ l, ∃ i j, Digit i ∧ Digit j ∧ stk p = GetId i j (g i j)) (row : Digit i) (column : Digit j)
    (there : ∃ p ∈ l, stk p = GetId i j (g i j)) : l.foldl (placed stk) ans i j = g i j := by
  induction l using List.reverseRecOn with
  | nil =>
    obtain ⟨_, none, _⟩ := there
    cases none
  | append_singleton l p ih =>
    obtain ⟨x, y, row', column', candidate⟩ := candidates p (by simp)
    rw [List.foldl_append, List.foldl_cons, List.foldl_nil,
      placed_apply ⟨row', column', cell x y row' column'⟩ candidate]
    split
    · next same =>
      obtain ⟨rfl, rfl⟩ := Prod.mk.inj same
      rfl
    · next other =>
      refine ih (fun q member => candidates q (List.mem_append_left _ member)) ?_
      obtain ⟨q, member, here⟩ := there
      rcases List.mem_append.mp member with old | last
      · exact ⟨q, old, here⟩
      · rw [List.mem_singleton.mp last, candidate] at here
        obtain ⟨rows, columns, _⟩ := GetId_injective ⟨row', column', cell x y row' column'⟩
          ⟨row, column, cell i j row column⟩ here
        exact absurd (Prod.ext rows columns).symm other

def AllDigits (str : List Int8) : Prop := ∀ ch ∈ str.take 81, 48 ≤ ch.toInt ∧ ch.toInt ≤ 57

theorem cells_positions : cells.map (fun c => (c.1 - 1) * 9 + c.2 - 1) = List.range 81 := by decide

theorem digits_of_kept (complete : Complete g) (kept : Kept str g) (long : 81 ≤ str.length) : AllDigits str := by
  intro ch member
  obtain ⟨n, bound, rfl⟩ := List.mem_iff_getElem.mp member
  have small : n < 81 := by
    rw [List.length_take] at bound
    omega
  have position : n ∈ cells.map fun c => (c.1 - 1) * 9 + c.2 - 1 := by
    rw [cells_positions]
    exact List.mem_range.mpr small
  obtain ⟨⟨i, j⟩, cell, same⟩ := List.mem_map.mp position
  obtain ⟨row, column⟩ := mem_cells.mp cell
  have value : given str i j = (str.take 81)[n].toInt - 48 := by
    have found : str[(i - 1) * 9 + j - 1]? = some (str.take 81)[n] := by
      rw [show (i - 1) * 9 + j - 1 = n from same, List.getElem_take]
      exact List.getElem?_eq_getElem _
    rw [given, found]
    rfl
  have digit := complete.cell i j row column
  rw [Digit] at digit
  by_cases empty : given str i j = 0
  · omega
  · have same := kept i j row column empty
    omega

theorem render_given (long : 81 ≤ str.length) :
    (cells.map fun (i, j) => Int8.ofInt (given str i j + 48)) = str.take 81 := by
  have char : ∀ c : Nat × Nat, Int8.ofInt (given str c.1 c.2 + 48) =
      (fun n => str[n]?.getD 48) ((c.1 - 1) * 9 + c.2 - 1) := by
    intro c
    rw [given, Int.sub_add_cancel, Int8.ofInt_toInt]
  have through : (cells.map fun (i, j) => Int8.ofInt (given str i j + 48)) =
      (cells.map fun c => (c.1 - 1) * 9 + c.2 - 1).map fun n => str[n]?.getD 48 := by
    rw [List.map_map]
    exact List.map_congr_left fun c _ => char c
  rw [through, cells_positions]
  refine List.ext_getElem (by simp; omega) ?_
  intro n first second
  have bound : n < str.length := by
    simp at first
    omega
  simp [List.getElem?_eq_getElem bound]

/-- What `work_func` makes of a line: a completed grid that keeps its digits when there is
one, and the line itself when there is none or when it has other characters. -/
theorem work_func_solves (memory : DLX) (str : List Int8) (long : 81 ≤ str.length) :
    ∃ out, (∀ loops fuel, 3240 < loops → 324 < fuel → work_func loops fuel memory str = some out) ∧
      out.length = 81 ∧
      (AllDigits str ∧ (∃ g, Complete g ∧ Kept str g) → ∃ g, Complete g ∧ Kept str g ∧ out = render g) ∧
      (¬ (AllDigits str ∧ ∃ g, Complete g ∧ Kept str g) → out = str.take 81) := by
  have short : (calls str).length ≤ 2916 := length_calls
  have distinct : (calls str).Nodup := nodup_calls
  obtain ⟨s, made, has, search⟩ := solve memory 729 distinct (fun call member => (calls_range call member).1)
    (fun call member => (calls_range call member).2) (by rw [MAXSIZE]; omega)
  obtain ⟨empty, began, inserted⟩ := Option.bind_eq_some_iff.mp made
  let ans := cells.foldl (setCell str) empty.ans
  have digits : ∀ {i j}, Digit i → Digit j → ans i j = given str i j := fun row column =>
    foldl_setCell cells empty.ans (mem_cells.mpr ⟨row, column⟩)
  have read : cells.foldlM (readCell str) empty = some (s.withAns ans) := by
    have all := readCells_eq (cell_inside long) empty empty.ans
    rw [show cells.flatMap (cellCalls str) = calls str from rfl, inserted] at all
    exact all
  obtain ⟨⟨found, s'⟩, ran, right⟩ := search ans
  have output : ∀ loops fuel, 3240 < loops → 324 < fuel → work_func loops fuel memory str =
      some (cells.map fun (i, j) => Int8.ofInt (s'.ans i j + 48)) := by
    intro loops fuel turns deep
    have solved := ran loops fuel (by omega) deep
    simp only [work_func, began, read, solved, Option.bind_eq_bind, Option.bind_some]
  refine ⟨_, output, by simp [cells], ?_⟩
  cases found with
  | some d =>
    have found : Found (s.withAns ans) (columns 324) 1 s' d := right
    have has' : ∀ r k, (s.withAns ans).Has r k ↔ (r, k) ∈ calls str := has
    have once : ∀ k, 1 ≤ k → k ≤ 324 → ∃! r, r ∈ s'.chosen 1 d ∧ (r, k) ∈ calls str := by
      intro k low high
      simpa only [has'] using found.cover.once k ⟨low, high⟩
    obtain ⟨g, complete, kept, rows⟩ := complete_of_cover once
    have solved : ∀ i j, Digit i → Digit j → s'.ans i j = g i j := by
      intro i j row column
      rw [found.ans]
      refine foldl_placed _ complete.cell ?_ row column ?_
      · intro p member
        obtain ⟨low, high⟩ := List.mem_range'_1.mp member
        obtain ⟨k, inside⟩ := found.row p low (by omega)
        obtain ⟨x, y, v, ⟨row', column', digit⟩, allowed, same, _⟩ := mem_calls.mp ((has' _ k).mp inside)
        have chosen : GetId x y v ∈ s'.chosen 1 d := ⟨p, low, by omega, same⟩
        exact ⟨x, y, row', column', by rw [← (rows x y row' column').2 v digit chosen allowed, same]⟩
      · obtain ⟨p, low, high, same⟩ := (rows i j row column).1
        exact ⟨p, List.mem_range'_1.mpr ⟨low, by omega⟩, same⟩
    refine ⟨fun _ => ⟨g, complete, kept, ?_⟩, fun none => absurd ⟨digits_of_kept complete kept long, g, complete, kept⟩ none⟩
    refine List.map_congr_left ?_
    rintro ⟨i, j⟩ cell
    obtain ⟨row, column⟩ := mem_cells.mp cell
    show Int8.ofInt (s'.ans i j + 48) = Int8.ofInt (g i j + 48)
    rw [solved i j row column]
  | none =>
    obtain ⟨unsolvable, stk, _, rfl⟩ := (right : Failed (s.withAns ans) (columns 324) 1 s')
    constructor
    · rintro ⟨_, g, complete, kept⟩
      obtain ⟨S, once⟩ := solvable_of_complete complete kept
      refine absurd ⟨S, ?_, ?_⟩ unsolvable
      · exact fun r _ k inside => (calls_range (r, k) ((has r k).mp inside)).1
      · rintro k ⟨low, high⟩
        have unique := once k low high
        simp only [← has] at unique
        exact unique
    · intro _
      rw [← render_given long]
      refine List.map_congr_left ?_
      rintro ⟨i, j⟩ cell
      obtain ⟨row, column⟩ := mem_cells.mp cell
      show Int8.ofInt (ans i j + 48) = Int8.ofInt (given str i j + 48)
      rw [digits row column]

end output

/-! A puzzle whose diagonal is blank. -/

def diagonalSolution (i j : Nat) : Nat := (3 * i + (i - 1) / 3 + j) % 9 + 1

def diagonalPuzzle : List Int8 :=
  cells.map fun (i, j) => if i = j then 48 else Int8.ofInt (diagonalSolution i j + 48)

theorem mem_range_ten {n : Nat} (digit : Digit n) : n ∈ List.range 10 :=
  List.mem_range.mpr (Nat.lt_succ_of_le digit.2)

theorem existsUnique_digit {P : Nat → Prop}
    (one : ∃ j ∈ List.range 10, (Digit j ∧ P j) ∧ ∀ k ∈ List.range 10, Digit k ∧ P k → k = j) :
    ∃! j, Digit j ∧ P j := by
  obtain ⟨j, _, here, only⟩ := one
  exact ⟨j, here, fun k there => only k (mem_range_ten there.1) there⟩

theorem diagonalSolution_complete : Complete diagonalSolution := by
  have rows : ∀ i ∈ List.range 10, ∀ v ∈ List.range 10, Digit i → Digit v →
      ∃ j ∈ List.range 10, (Digit j ∧ diagonalSolution i j = v) ∧
        ∀ k ∈ List.range 10, Digit k ∧ diagonalSolution i k = v → k = j := by
    simp only [Digit]
    decide +kernel
  have columns : ∀ j ∈ List.range 10, ∀ v ∈ List.range 10, Digit j → Digit v →
      ∃ i ∈ List.range 10, (Digit i ∧ diagonalSolution i j = v) ∧
        ∀ k ∈ List.range 10, Digit k ∧ diagonalSolution k j = v → k = i := by
    simp only [Digit]
    decide +kernel
  have boxes : ∀ a ∈ List.range 3, ∀ b ∈ List.range 3, ∀ v ∈ List.range 10, Digit v →
      ∃ i ∈ List.range 10, ∃ j ∈ List.range 10,
        ((3 * a < i ∧ i ≤ 3 * a + 3) ∧ (3 * b < j ∧ j ≤ 3 * b + 3) ∧ diagonalSolution i j = v) ∧
        ∀ k ∈ List.range 10, ∀ l ∈ List.range 10, (3 * a < k ∧ k ≤ 3 * a + 3) ∧ (3 * b < l ∧ l ≤ 3 * b + 3) ∧
          diagonalSolution k l = v → k = i ∧ l = j := by
    simp only [Digit]
    decide +kernel
  refine ⟨?_, ?_, ?_, ?_⟩
  · intro i j _ _
    exact ⟨Nat.succ_pos _, Nat.succ_le_of_lt (Nat.mod_lt _ (by decide))⟩
  · exact fun i v row digit => existsUnique_digit (rows i (mem_range_ten row) v (mem_range_ten digit) row digit)
  · exact fun j v column digit =>
      existsUnique_digit (columns j (mem_range_ten column) v (mem_range_ten digit) column digit)
  · intro a b v top left digit
    obtain ⟨i, _, j, _, here, only⟩ :=
      boxes a (List.mem_range.mpr top) b (List.mem_range.mpr left) v (mem_range_ten digit) digit
    refine ⟨(i, j), here, fun p there => ?_⟩
    obtain ⟨row, column⟩ := only p.1 (List.mem_range.mpr (by have := there.1.2; omega))
      p.2 (List.mem_range.mpr (by have := there.2.1.2; omega)) there
    exact Prod.ext row column

theorem given_diagonal {i j : Nat} (row : Digit i) (column : Digit j) :
    given diagonalPuzzle i j = if i = j then 0 else (diagonalSolution i j : Int) := by
  have all : ∀ i ∈ List.range 10, ∀ j ∈ List.range 10, Digit i → Digit j →
      given diagonalPuzzle i j = if i = j then 0 else (diagonalSolution i j : Int) := by
    simp only [Digit]
    decide +kernel
  exact all i (mem_range_ten row) j (mem_range_ten column) row column

theorem diagonal_only {g : Nat → Nat → Nat} (complete : Complete g) (kept : Kept diagonalPuzzle g) {i j : Nat}
    (row : Digit i) (column : Digit j) : g i j = diagonalSolution i j := by
  have elsewhere (k : Nat) (digit : Digit k) (other : i ≠ k) : g i k = diagonalSolution i k := by
    have positive : diagonalSolution i k ≠ 0 := Nat.succ_ne_zero _
    have same := given_diagonal row digit
    rw [if_neg other] at same
    have told := kept i k row digit (by rw [same]; exact_mod_cast positive)
    rw [same] at told
    exact_mod_cast told.symm
  by_cases here : i = j
  · -- The digit that the row still needs stands nowhere else in it.
    obtain ⟨k, ⟨digit, found⟩, _⟩ := complete.row i (diagonalSolution i j) row
      (diagonalSolution_complete.cell i j row column)
    by_cases other : i = k
    · exact (other.symm.trans here) ▸ found
    · rw [elsewhere k digit other] at found
      obtain ⟨_, _, only⟩ := diagonalSolution_complete.row i (diagonalSolution i j) row
        (diagonalSolution_complete.cell i j row column)
      exact absurd (here.trans ((only j ⟨column, rfl⟩).trans (only k ⟨digit, found⟩).symm)) other
  · exact elsewhere j column here

theorem work_func_solves_diagonal :
    work_func 3241 325 zeros diagonalPuzzle = some (render diagonalSolution) := by
  obtain ⟨out, ran, _, solved, _⟩ := work_func_solves zeros diagonalPuzzle (by decide)
  have kept : Kept diagonalPuzzle diagonalSolution := by
    intro i j row column filled
    rw [given_diagonal row column] at filled ⊢
    split at filled
    · exact absurd rfl filled
    · next other => rw [if_neg other]
  have digits := digits_of_kept diagonalSolution_complete kept (by decide)
  obtain ⟨g, complete, keeps, rendered⟩ := solved ⟨digits, diagonalSolution, diagonalSolution_complete, kept⟩
  rw [ran 3241 325 (by decide) (by decide), rendered]
  refine congrArg some (List.map_congr_left ?_)
  rintro ⟨i, j⟩ cell
  obtain ⟨row, column⟩ := mem_cells.mp cell
  show Int8.ofInt (g i j + 48) = Int8.ofInt (diagonalSolution i j + 48)
  rw [diagonal_only complete keeps row column]

end CloudLab.Sudoku
