import CloudLab.Library.Text

/-! Extraction of words from an input stream, with the bits that it sets. -/

namespace CloudLab.Text

structure IStream where
  rest : Str
  eofbit : Bool
  failbit : Bool
  deriving DecidableEq

def IStream.of (text : Str) : IStream := ⟨text, false, false⟩

/-- `in >> str`: blanks are skipped, and the word behind them is read up to a blank, which
stays, or to the end of the text, which sets `eofbit`. Without a word `str` stays as it is. -/
def IStream.extract (s : IStream) (str : Str) : IStream × Str :=
  if s.eofbit || s.failbit then ({ s with failbit := true }, str)
  else
    let word := (s.rest.dropWhile isspace).takeWhile (!isspace ·)
    let rest := (s.rest.dropWhile isspace).dropWhile (!isspace ·)
    if word.isEmpty then (⟨rest, true, true⟩, str) else (⟨rest, rest.isEmpty, false⟩, word)

section extraction
variable {text blank word rest str : Str}

theorem words_blank (blanks : ∀ c ∈ text, isspace c = true) : words text = [] := by
  induction text with
  | nil => rfl
  | cons c cs ih =>
    rw [words_space (blanks c (by simp))]
    exact ih fun d member => blanks d (List.mem_cons_of_mem _ member)

theorem words_skip (blanks : ∀ c ∈ blank, isspace c = true) : words (blank ++ text) = words text := by
  induction blank with
  | nil => rfl
  | cons c cs ih =>
    rw [List.cons_append, words_space (blanks c (by simp))]
    exact ih fun d member => blanks d (List.mem_cons_of_mem _ member)

theorem words_first (token : Token word) (ends : ∀ c ∈ rest.head?, isspace c = true) :
    words (word ++ rest) = word :: words rest := by
  cases rest with
  | nil => rw [List.append_nil, words_token token, words_nil]
  | cons c cs => rw [words_token_space token (ends c rfl), words_space (ends c rfl)]

theorem blank_or_word (text : Str) : (∀ c ∈ text, isspace c = true) ∨
    ∃ blank word rest, text = blank ++ (word ++ rest) ∧ (∀ c ∈ blank, isspace c = true) ∧ Token word ∧
      ∀ c ∈ rest.head?, isspace c = true := by
  induction text with
  | nil => exact Or.inl fun c none => absurd none List.not_mem_nil
  | cons c cs ih =>
    by_cases space : isspace c = true
    · rcases ih with blanks | ⟨blank, word, rest, rfl, blanks, token, ends⟩
      · exact Or.inl (List.forall_mem_cons.mpr ⟨space, blanks⟩)
      · exact Or.inr ⟨c :: blank, word, rest, rfl, List.forall_mem_cons.mpr ⟨space, blanks⟩, token, ends⟩
    · refine Or.inr ⟨[], c :: cs.takeWhile (!isspace ·), cs.dropWhile (!isspace ·), ?_, by simp, ⟨by simp, ?_⟩, ?_⟩
      · simp
      · intro d member
        rcases List.mem_cons.mp member with rfl | later
        · simpa using space
        · simpa using List.mem_takeWhile_imp later
      · intro d first
        have stop := List.head?_dropWhile_not (!isspace ·) cs
        rw [Option.mem_def.mp first] at stop
        simpa using stop

theorem dropWhile_blank (blanks : ∀ c ∈ blank, isspace c = true) (plain : ∀ c ∈ text.head?, isspace c = false) :
    (blank ++ text).dropWhile isspace = text := by
  rw [List.dropWhile_append_of_pos blanks]
  cases text with
  | nil => rfl
  | cons c cs => rw [List.dropWhile_cons_of_neg (by simp [plain c rfl])]

theorem IStream.extract_blank (blanks : ∀ c ∈ text, isspace c = true) (str : Str) :
    (IStream.of text).extract str = (⟨[], true, true⟩, str) := by
  have none : text.dropWhile isspace = [] := List.dropWhile_eq_nil_iff.mpr blanks
  simp [IStream.extract, IStream.of, none]

theorem IStream.extract_word (blanks : ∀ c ∈ blank, isspace c = true) (token : Token word)
    (ends : ∀ c ∈ rest.head?, isspace c = true) (str : Str) :
    (IStream.of (blank ++ (word ++ rest))).extract str = (⟨rest, rest.isEmpty, false⟩, word) := by
  obtain ⟨nonempty, plain⟩ := token
  have plain' : ∀ c ∈ word, (!isspace c) = true := fun c member => by simp [plain c member]
  have first : (blank ++ (word ++ rest)).dropWhile isspace = word ++ rest := by
    refine dropWhile_blank blanks fun c head => ?_
    cases word with
    | nil => exact absurd rfl nonempty
    | cons d cs =>
      obtain rfl : d = c := Option.some.inj head
      exact plain d List.mem_cons_self
  have taken : (word ++ rest).takeWhile (!isspace ·) = word := by
    rw [List.takeWhile_append_of_pos plain']
    cases rest with
    | nil => simp
    | cons c cs => rw [List.takeWhile_cons_of_neg (by simp [ends c rfl]), List.append_nil]
  have left_ : (word ++ rest).dropWhile (!isspace ·) = rest := by
    rw [List.dropWhile_append_of_pos plain']
    cases rest with
    | nil => rfl
    | cons c cs => rw [List.dropWhile_cons_of_neg (by simp [ends c rfl])]
  simp [IStream.extract, IStream.of, first, taken, left_, nonempty]

end extraction

end CloudLab.Text
