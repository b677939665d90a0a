import Mathlib

/-! Strings of an imperative standard library: the lines and the words a text
stream yields, and the decimal conversions. A string is the list of its bytes,
one `Char` each. -/

namespace CloudLab.Text

abbrev Str := List Char

instance : LawfulBEq Str := inferInstance

/-- Successive `getline` results. A last line without a terminator is still
yielded, but nothing follows a final terminator. -/
def getlines : Str → List Str
  | [] => []
  | c :: cs =>
      if c = '\n' then [] :: getlines cs
      else match getlines cs with
        | [] => [[c]]
        | line :: lines => (c :: line) :: lines

@[simp] theorem getlines_nil : getlines [] = [] := rfl

@[simp] theorem getlines_newline (rest : Str) : getlines ('\n' :: rest) = [] :: getlines rest := by
  simp [getlines]

theorem getlines_cons {c : Char} (plain : c ≠ '\n') {cs line : Str} {lines : List Str}
    (tail : getlines cs = line :: lines) : getlines (c :: cs) = (c :: line) :: lines := by
  simp only [getlines, if_neg plain, tail]

theorem getlines_line (line rest : Str) (plain : '\n' ∉ line) :
    getlines (line ++ '\n' :: rest) = line :: getlines rest := by
  induction line with
  | nil => exact getlines_newline rest
  | cons c line ih =>
    have head : c ≠ '\n' := fun same => plain (by simp [same])
    have tail := ih (fun member => plain (List.mem_cons_of_mem _ member))
    exact getlines_cons head tail

theorem newline_not_mem_getlines (text : Str) : ∀ line ∈ getlines text, '\n' ∉ line := by
  induction text with
  | nil => simp
  | cons c cs ih =>
    by_cases newline : c = '\n'
    · subst newline
      simpa using ih
    · cases tail : getlines cs with
      | nil => simp [getlines, newline, tail, Ne.symm newline]
      | cons line lines =>
        rw [getlines_cons newline tail]
        rw [tail] at ih
        intro other member
        rcases List.mem_cons.mp member with rfl | later
        · have plain := ih line (by simp)
          simp [plain, Ne.symm newline]
        · exact ih other (List.mem_cons_of_mem _ later)

def popBack (s : Str) : Option Str :=
  if s = [] then none else some s.dropLast

@[simp] theorem popBack_append_singleton (s : Str) (c : Char) : popBack (s ++ [c]) = some s := by
  simp [popBack]

def isspace (c : Char) : Bool :=
  c = ' ' || c = '\t' || c = '\n' || c = '\x0b' || c = '\x0c' || c = '\r'

def occurs (needle : Str) : Str → Bool
  | [] => needle.isEmpty
  | c :: cs => needle.isPrefixOf (c :: cs) || occurs needle cs

theorem occurs_append (before needle after : Str) : occurs needle (before ++ (needle ++ after)) = true := by
  induction before with
  | nil =>
    cases needle with
    | nil => cases after <;> rfl
    | cons c cs =>
      rw [List.nil_append, List.cons_append, occurs, Bool.or_eq_true]
      exact Or.inl (List.isPrefixOf_iff_prefix.mpr (List.prefix_append (c :: cs) after))
  | cons d before ih =>
    rw [List.cons_append, occurs, ih, Bool.or_true]

theorem occurs_eq_false {c : Char} {cs data : Str} (absent : c ∉ data) : occurs (c :: cs) data = false := by
  induction data with
  | nil => rfl
  | cons d data ih =>
    rw [List.mem_cons, not_or] at absent
    have different : (c == d) = false := by simpa using absent.1
    rw [occurs, ih absent.2, List.isPrefixOf_cons_cons, different, Bool.false_and, Bool.or_false]

theorem occurs_iff_isInfix {needle s : Str} : occurs needle s = true ↔ needle <:+: s := by
  constructor
  · intro present
    induction s with
    | nil => exact List.isEmpty_iff.mp present ▸ List.nil_infix
    | cons c cs ih =>
      rcases Bool.or_eq_true_iff.mp present with here | later
      · exact (List.isPrefixOf_iff_prefix.mp here).isInfix
      · exact List.infix_cons (ih later)
  · rintro ⟨before, after, rfl⟩
    rw [List.append_assoc]
    exact occurs_append before needle after

theorem occurs_split {needle left right : Str} {c : Char} (absent : c ∉ needle)
    (present : occurs needle (left ++ c :: right) = true) : occurs needle left = true ∨ occurs needle right = true := by
  simp only [occurs_iff_isInfix] at *
  -- what begins at the separator or before it ends there
  have ends {front : Str} (part : front ⊆ needle) (here : front <+: c :: right) : front = [] := by
    rcases List.prefix_cons_iff.mp here with empty | ⟨rest, starts, _⟩
    · exact empty
    · exact absurd (part (starts ▸ List.mem_cons_self)) absent
  rcases List.infix_append_iff.mp present with inLeft | inRight | ⟨front, back, rfl, inLeft, inRight⟩
  · exact Or.inl inLeft
  · rcases List.infix_cons_iff.mp inRight with here | later
    · rw [ends (List.Subset.refl _) here]
      exact Or.inl (List.nil_infix)
    · exact Or.inr later
  · rw [ends (List.subset_append_right _ _) inRight, List.append_nil]
    exact Or.inl inLeft.isInfix

theorem occurs_left {needle s : Str} (more : Str) (present : occurs needle s = true) : occurs needle (s ++ more) = true :=
  occurs_iff_isInfix.mpr ((occurs_iff_isInfix.mp present).trans (List.infix_append' [] s more))

theorem occurs_length {needle s : Str} (present : occurs needle s = true) : needle.length ≤ s.length :=
  (occurs_iff_isInfix.mp present).length_le

/-- The words that repeated `>>` extractions yield. -/
def words : Str → List Str
  | [] => []
  | c :: cs =>
      if isspace c then words cs
      else match cs with
        | [] => [[c]]
        | d :: _ =>
            if isspace d then [c] :: words cs
            else match words cs with
              | [] => [[c]]
              | word :: rest => (c :: word) :: rest

@[simp] theorem words_nil : words [] = [] := rfl

theorem words_space {c : Char} (space : isspace c = true) (cs : Str) :
    words (c :: cs) = words cs := by
  simp [words, space]

theorem words_ne_nil {c : Char} (plain : isspace c = false) (cs : Str) : words (c :: cs) ≠ [] := by
  simp only [words, plain, Bool.false_eq_true, if_false]
  split
  · simp
  · split
    · simp
    · split <;> simp

theorem words_last (c : Char) (plain : isspace c = false) : words [c] = [[c]] := by
  simp [words, plain]

theorem words_single {c d : Char} (plain : isspace c = false) (space : isspace d = true) (cs : Str) :
    words (c :: d :: cs) = [c] :: words (d :: cs) := by
  rw [words]
  simp [plain, space]

theorem words_cons {c d : Char} (first : isspace c = false) (second : isspace d = false)
    {cs word : Str} {rest : List Str} (tail : words (d :: cs) = word :: rest) :
    words (c :: d :: cs) = (c :: word) :: rest := by
  rw [words]
  simp [first, second, tail]

/-- A blank splits a text into two texts whose words are independent. -/
theorem words_append {c : Char} (space : isspace c = true) (left right : Str) :
    words (left ++ c :: right) = words left ++ words right := by
  induction left with
  | nil => simpa using words_space space right
  | cons a left ih =>
    by_cases blank : isspace a = true
    · rw [List.cons_append, words_space blank, words_space blank, ih]
    · have plain : isspace a = false := by simpa using blank
      cases left with
      | nil =>
        rw [List.cons_append, List.nil_append, words_single plain space, words_space space,
          words_last a plain]
        rfl
      | cons b left =>
        rw [List.cons_append] at ih
        by_cases next : isspace b = true
        · rw [List.cons_append, List.cons_append, words_single plain next, ih,
            words_single plain next, List.cons_append]
        · have next : isspace b = false := by simpa using next
          cases inner : words (b :: left) with
          | nil => exact absurd inner (words_ne_nil next left)
          | cons word rest =>
            rw [inner] at ih
            rw [List.cons_append, List.cons_append, words_cons plain next ih,
              words_cons plain next inner]
            rfl

def Token (s : Str) : Prop := s ≠ [] ∧ ∀ c ∈ s, isspace c = false

theorem Token.of_all {s : Str} (nonempty : s ≠ []) (plain : s.all (fun c => !isspace c) = true) : Token s :=
  ⟨nonempty, fun c member => by simpa using List.all_eq_true.mp plain c member⟩

theorem words_token {s : Str} (token : Token s) : words s = [s] := by
  obtain ⟨nonempty, plain⟩ := token
  induction s with
  | nil => exact absurd rfl nonempty
  | cons c cs ih =>
    have head := plain c (by simp)
    cases cs with
    | nil => exact words_last c head
    | cons d cs =>
      have tail := ih (by simp) (fun e member => plain e (List.mem_cons_of_mem _ member))
      exact words_cons head (plain d (by simp)) tail

theorem words_token_space {s : Str} (token : Token s) {c : Char} (space : isspace c = true)
    (rest : Str) : words (s ++ c :: rest) = s :: words rest := by
  rw [words_append space, words_token token]
  rfl

theorem token_of_mem_words (text : Str) : ∀ word ∈ words text, Token word := by
  induction text with
  | nil => simp
  | cons c cs ih =>
    by_cases blank : isspace c = true
    · rw [words_space blank]
      exact ih
    · have plain : isspace c = false := by simpa using blank
      have single : Token [c] := ⟨by simp, by simpa using plain⟩
      cases cs with
      | nil =>
        rw [words_last c plain]
        simpa using single
      | cons d cs =>
        by_cases next : isspace d = true
        · rw [words_single plain next]
          simpa [single] using ih
        · have next : isspace d = false := by simpa using next
          cases inner : words (d :: cs) with
          | nil => exact absurd inner (words_ne_nil next cs)
          | cons word rest =>
            rw [words_cons plain next inner]
            rw [inner] at ih
            have extended : Token (c :: word) := by
              refine ⟨by simp, ?_⟩
              intro e member
              rcases List.mem_cons.mp member with rfl | later
              · exact plain
              · exact (ih word (by simp)).2 e later
            intro other member
            rcases List.mem_cons.mp member with rfl | later
            · exact extended
            · exact ih other (List.mem_cons_of_mem _ later)

def spaced (tokens : List Str) : Str := tokens.flatMap (fun token => token ++ [' '])

@[simp] theorem spaced_cons (token : Str) (tokens : List Str) :
    spaced (token :: tokens) = token ++ ' ' :: spaced tokens := by
  simp [spaced]

theorem words_spaced {tokens : List Str} (valid : ∀ token ∈ tokens, Token token) :
    words (spaced tokens) = tokens := by
  induction tokens with
  | nil => rfl
  | cons token tokens ih =>
    rw [spaced_cons, words_token_space (valid token (by simp)) (by decide),
      ih (fun other member => valid other (List.mem_cons_of_mem _ member))]

def decimal (n : Int) : Str :=
  if n < 0 then '-' :: Nat.toDigits 10 n.natAbs else Nat.toDigits 10 n.natAbs

/-- The optional sign `strtol` accepts: whether it is a minus, and what follows it. -/
def splitSign (s : Str) : Bool × Str :=
  if s.head? = some '-' then (true, s.tail)
  else if s.head? = some '+' then (false, s.tail)
  else (false, s)

/-- `stoi`: blanks, an optional sign, then at least one digit. No digit and a value
outside the 32-bit range both throw; what follows the digits is ignored. -/
def stoi (s : Str) : Option Int :=
  let signed := splitSign (s.dropWhile isspace)
  let digits := signed.2.takeWhile Char.isDigit
  if digits = [] then none
  else
    let magnitude : Int := Nat.ofDigitChars 10 digits 0
    let value := if signed.1 then -magnitude else magnitude
    if -2 ^ 31 ≤ value ∧ value < 2 ^ 31 then some value else none

theorem digit_not_isspace {c : Char} (digit : c.isDigit = true) : isspace c = false := by
  by_contra blank
  simp only [isspace, Bool.not_eq_false, Bool.or_eq_true, decide_eq_true_eq] at blank
  rcases blank with ((((rfl | rfl) | rfl) | rfl) | rfl) | rfl <;> revert digit <;> decide

theorem digits_all (n : Nat) : ∀ c ∈ Nat.toDigits 10 n, c.isDigit = true :=
  fun _ member => Nat.isDigit_of_mem_toDigits (by decide) (by decide) member

theorem takeWhile_digits (n : Nat) :
    (Nat.toDigits 10 n).takeWhile Char.isDigit = Nat.toDigits 10 n :=
  List.takeWhile_eq_self_iff.mpr (digits_all n)

theorem decimal_ne_nil (n : Int) : decimal n ≠ [] := by
  unfold decimal
  split
  · simp
  · exact Nat.toDigits_ne_nil

theorem mem_decimal {n : Int} {c : Char} (member : c ∈ decimal n) : c = '-' ∨ c.isDigit = true := by
  unfold decimal at member
  split at member
  · rcases List.mem_cons.mp member with same | digit
    · exact Or.inl same
    · exact Or.inr (digits_all _ c digit)
  · exact Or.inr (digits_all _ c member)

theorem newline_not_mem_decimal (n : Int) : '\n' ∉ decimal n := by
  intro member
  rcases mem_decimal member with same | digit
  · exact absurd same (by decide)
  · exact absurd digit (by decide)

theorem splitSign_decimal (n : Int) :
    splitSign ((decimal n).dropWhile isspace) = (decide (n < 0), Nat.toDigits 10 n.natAbs) := by
  by_cases negative : n < 0
  · simp [decimal, negative, splitSign, show isspace '-' = false by decide]
  · cases digits : Nat.toDigits 10 n.natAbs with
    | nil => exact absurd digits Nat.toDigits_ne_nil
    | cons c cs =>
      have first : c.isDigit = true := digits_all n.natAbs c (by simp [digits])
      have notMinus : c ≠ '-' := by rintro rfl; revert first; decide
      have notPlus : c ≠ '+' := by rintro rfl; revert first; decide
      simp [decimal, negative, digits, splitSign, digit_not_isspace first, notMinus, notPlus]

theorem stoi_decimal_eq (n : Int) :
    stoi (decimal n) = if -2 ^ 31 ≤ n ∧ n < 2 ^ 31 then some n else none := by
  have value : (if decide (n < 0) = true then -(n.natAbs : Int) else n.natAbs) = n := by
    by_cases negative : n < 0
    · simp only [negative, decide_true, if_true]
      omega
    · simp only [negative, decide_false, Bool.false_eq_true, if_false]
      omega
  simp only [stoi, splitSign_decimal, takeWhile_digits, if_neg Nat.toDigits_ne_nil,
    Nat.ofDigitChars_ten_toDigits, value]

theorem stoi_decimal_cases (n : Int) : stoi (decimal n) = some n ∨ stoi (decimal n) = none := by
  rw [stoi_decimal_eq]
  split
  · exact Or.inl rfl
  · exact Or.inr rfl

theorem stoi_decimal {n : Int} (low : -2 ^ 31 ≤ n) (high : n < 2 ^ 31) : stoi (decimal n) = some n := by
  rw [stoi_decimal_eq, if_pos (And.intro low high)]

theorem decimal_nat (n : Nat) : decimal n = Nat.toDigits 10 n := by
  unfold decimal
  rw [if_neg (by omega), Int.natAbs_natCast]

theorem length_decimal_le_iff {n k : Nat} (positive : 0 < k) : (decimal n).length ≤ k ↔ n < 10 ^ k := by
  rw [decimal_nat]
  exact Nat.length_toDigits_le_iff (by decide) positive

theorem decimal_injective {m n : Int} (same : decimal m = decimal n) : m = n := by
  have parts := congrArg (fun s => splitSign (s.dropWhile isspace)) same
  simp only [splitSign_decimal, Prod.mk.injEq, decide_eq_decide] at parts
  have values := congrArg (fun digits => Nat.ofDigitChars 10 digits 0) parts.2
  simp only [Nat.ofDigitChars_ten_toDigits] at values
  omega

end CloudLab.Text
