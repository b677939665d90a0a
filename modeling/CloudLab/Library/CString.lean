import CloudLab.Library.Text

/-! The C string functions on a region of memory: a string ends at its first NUL, and a
pointer into it is an offset. -/

namespace CloudLab.Text

/-- The string that starts at the beginning of the memory; none when no NUL ends it. -/
def cstring (memory : Str) : Option Str :=
  if '\x00' ∈ memory then some (memory.takeWhile (· ≠ '\x00')) else none

theorem takeWhile_nul {text : Str} (plain : '\x00' ∉ text) (rest : Str) :
    (text ++ '\x00' :: rest).takeWhile (· ≠ '\x00') = text := by
  rw [List.takeWhile_append_of_pos]
  · simp
  · intro c member
    exact decide_eq_true fun same => plain (same ▸ member)

theorem cstring_append {text : Str} (plain : '\x00' ∉ text) (rest : Str) :
    cstring (text ++ '\x00' :: rest) = some text := by
  unfold cstring
  rw [if_pos (by simp), takeWhile_nul plain]

theorem cstring_begins {front rest text : Str} (plain : '\x00' ∉ front) (string : cstring (front ++ rest) = some text) :
    text = front ++ rest.takeWhile (· ≠ '\x00') := by
  unfold cstring at string
  split at string
  · cases string
    exact List.takeWhile_append_of_pos fun c member => decide_eq_true fun same => plain (same ▸ member)
  · cases string

theorem nul_not_mem {memory text : Str} (found : cstring memory = some text) : '\x00' ∉ text := by
  unfold cstring at found
  split at found
  · cases found
    intro member
    simpa using List.mem_takeWhile_imp member
  · cases found

def strstr (needle : Str) : Str → Option Nat
  | [] => if needle.isEmpty then some 0 else none
  | c :: cs => if needle.isPrefixOf (c :: cs) then some 0 else (strstr needle cs).map (· + 1)

structure First (needle s : Str) (i : Nat) : Prop where
  inside : i ≤ s.length
  here : needle <+: s.drop i
  before : ∀ j, j < i → ¬ needle <+: s.drop j

theorem First.unique {needle s : Str} {i j : Nat} (left : First needle s i) (right : First needle s j) : i = j := by
  rcases Nat.lt_trichotomy i j with less | same | more
  · exact absurd left.here (right.before i less)
  · exact same
  · exact absurd right.here (left.before j more)

theorem First.zero {needle s : Str} (here : needle <+: s) : First needle s 0 :=
  ⟨Nat.zero_le _, here, fun _ less => absurd less (Nat.not_lt_zero _)⟩

theorem First.succ {needle s : Str} {i : Nat} {c : Char} (other : ¬ needle <+: c :: s) (first : First needle s i) :
    First needle (c :: s) (i + 1) := by
  refine ⟨Nat.succ_le_succ first.inside, first.here, ?_⟩
  intro j less
  cases j with
  | zero => exact other
  | succ j => exact first.before j (Nat.lt_of_succ_lt_succ less)

theorem First.skip {c : Char} {cs front s : Str} {i : Nat} (plain : c ∉ front) (first : First (c :: cs) s i) :
    First (c :: cs) (front ++ s) (front.length + i) := by
  induction front with
  | nil => simpa using first
  | cons d front ih =>
    rw [List.mem_cons, not_or] at plain
    have other : ¬ c :: cs <+: d :: (front ++ s) := fun here => plain.1 (List.cons_prefix_cons.mp here).1
    have index : (d :: front).length + i = front.length + i + 1 := by
      rw [List.length_cons]
      omega
    rw [List.cons_append, index]
    exact (ih plain.2).succ other

theorem strstr_first {needle s : Str} {i : Nat} (found : strstr needle s = some i) : First needle s i := by
  induction s generalizing i with
  | nil =>
    unfold strstr at found
    split at found
    · next empty =>
      cases found
      obtain rfl := List.isEmpty_iff.mp empty
      exact First.zero List.nil_prefix
    · cases found
  | cons c cs ih =>
    unfold strstr at found
    by_cases here : needle <+: c :: cs
    · rw [if_pos (List.isPrefixOf_iff_prefix.mpr here)] at found
      cases found
      exact First.zero here
    · rw [if_neg fun is => here (List.isPrefixOf_iff_prefix.mp is)] at found
      obtain ⟨j, later, rfl⟩ := Option.map_eq_some_iff.mp found
      exact (ih later).succ here

theorem strstr_isSome (needle s : Str) : (strstr needle s).isSome = occurs needle s := by
  induction s with
  | nil => cases needle <;> rfl
  | cons c cs ih =>
    rw [strstr, occurs, ← ih]
    cases needle.isPrefixOf (c :: cs) with
    | true => rfl
    | false => simp

theorem strstr_none {needle s : Str} (absent : occurs needle s = false) : strstr needle s = none := by
  rw [← Option.not_isSome_iff_eq_none, strstr_isSome, absent]
  exact Bool.false_ne_true

theorem strstr_some {needle s : Str} (present : occurs needle s = true) : ∃ i, strstr needle s = some i := by
  rw [← strstr_isSome] at present
  exact Option.isSome_iff_exists.mp present

theorem occurs_at {needle s : Str} {i : Nat} (here : needle <+: s.drop i) : occurs needle s = true := by
  obtain ⟨after, split⟩ := here
  have whole := occurs_append (s.take i) needle after
  rwa [split, List.take_append_drop] at whole

theorem strstr_eq_some_iff {needle s : Str} {i : Nat} : strstr needle s = some i ↔ First needle s i := by
  constructor
  · exact strstr_first
  · intro first
    obtain ⟨j, found⟩ := strstr_some (occurs_at first.here)
    rw [found, (strstr_first found).unique first]

theorem First.take {needle s : Str} {i : Nat} (first : First needle s i) (nonempty : needle ≠ []) :
    occurs needle (s.take i) = false := by
  by_contra present
  obtain ⟨j, found⟩ := strstr_some (Bool.not_eq_false _ |>.mp present)
  have here := (strstr_first found).here
  have less : j < i := by
    have bound := here.length_le
    have positive := List.length_pos_iff.mpr nonempty
    rw [List.length_drop, List.length_take] at bound
    omega
  refine first.before j less (here.trans ?_)
  rw [List.drop_take]
  exact List.take_prefix _ _

theorem First.fits {needle s : Str} {i : Nat} (first : First needle s i) : i + needle.length ≤ s.length := by
  have bound := first.here.length_le
  have start := first.inside
  rw [List.length_drop] at bound
  omega

theorem First.append {needle s : Str} {i : Nat} (first : First needle s i) (more : Str) :
    First needle (s ++ more) i := by
  have fits := first.fits
  refine ⟨by rw [List.length_append]; omega, ?_, ?_⟩
  · rw [List.drop_append_of_le_length first.inside]
    exact first.here.trans (List.prefix_append _ _)
  · intro j less here
    rw [List.drop_append_of_le_length (by omega)] at here
    refine first.before j less (List.prefix_of_prefix_length_le here (List.prefix_append _ _) ?_)
    rw [List.length_drop]
    omega

/-- `strtol` to the base 10: a number that does not fit in a `long` gives the nearest one that does,
and without digits it is 0. -/
def strtol (s : Str) : Int :=
  let signed := splitSign (s.dropWhile isspace)
  let magnitude : Int := Nat.ofDigitChars 10 (signed.2.takeWhile Char.isDigit) 0
  if signed.1 then max (-2 ^ 63) (-magnitude) else min (2 ^ 63 - 1) magnitude

def toInt (n : Int) : Int := n.bmod (2 ^ 32)

def atoi (s : Str) : Int := toInt (strtol s)

def snprintf (size : Nat) (s : Str) : Str := s.take (size - 1)

def strrchr (c : Char) (s : Str) : Option Str :=
  if c ∈ s then some (c :: (s.reverse.takeWhile (· ≠ c)).reverse) else none

/-- `%d` of `sscanf`, where the variable holds 0: it keeps that value when there is no number,
and a number that does not fit is undefined. -/
def scanInt (s : Str) : Option Int :=
  if (splitSign (s.dropWhile isspace)).2.takeWhile Char.isDigit = [] then some 0 else stoi s

theorem strtol_digits {digits : Str} (all : ∀ c ∈ digits, c.isDigit = true) :
    strtol digits = (min (Nat.ofDigitChars 10 digits 0) (2 ^ 63 - 1) : Nat) := by
  have whole : splitSign (digits.dropWhile isspace) = (false, digits) := by
    cases digits with
    | nil => rfl
    | cons c cs =>
      have first := all c List.mem_cons_self
      have notMinus : c ≠ '-' := by rintro rfl; revert first; decide
      have notPlus : c ≠ '+' := by rintro rfl; revert first; decide
      simp [splitSign, digit_not_isspace first, notMinus, notPlus]
  simp only [strtol, whole, Bool.false_eq_true, if_false, List.takeWhile_eq_self_iff.mpr all]
  omega

theorem toInt_nat (n : Nat) :
    toInt n = if n % 2 ^ 32 < 2 ^ 31 then ((n % 2 ^ 32 : Nat) : Int) else ((n % 2 ^ 32 : Nat) : Int) - 2 ^ 32 := by
  rw [toInt, Int.bmod_def]
  omega

theorem atoi_digits {digits : Str} (all : ∀ c ∈ digits, c.isDigit = true) {int : Nat}
    (low : min (Nat.ofDigitChars 10 digits 0) (2 ^ 63 - 1) % 2 ^ 32 = int) :
    atoi digits = if int < 2 ^ 31 then (int : Int) else int - 2 ^ 32 := by
  rw [atoi, strtol_digits all, toInt_nat, low]

end CloudLab.Text
