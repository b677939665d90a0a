import CloudLab.Library.Extraction
import CloudLab.Sudoku.Pipeline

/-! Which names `pre_func` reads from standard input. It looks at `eof` behind each extraction,
and a name that ends the input is extracted with `eof` set. -/

namespace CloudLab.Sudoku

open CloudLab Links Text

inductive Effect
  | push (file_name : Str)
  | notify
  /-- `read_file_done = true` -/
  | flag
  deriving DecidableEq

def Effect.name? : Effect → Option Str
  | push file_name => some file_name
  | _ => none

/-- The loop of `pre_func`; it gives none when it does not end in `loops` turns. -/
def readNames : Nat → IStream → Str → Option (List Effect)
  | 0, _, _ => none
  | loops + 1, cin, file_name =>
      let (cin, file_name) := cin.extract file_name
      if cin.eofbit then some []
      else (readNames loops cin file_name).map fun effects => .push file_name :: .notify :: effects

def pre_func (loops : Nat) (cin : IStream) : Option (List Effect) :=
  (readNames loops cin []).map (· ++ [.flag, .notify])

def pushes (names : List Str) : List Effect := names.flatMap fun file_name => [.push file_name, .notify]

/-- The names that come to the queue: a last one is missing unless a blank follows it. -/
def queued (text : Str) : List Str :=
  if text.getLast?.all isspace then words text else (words text).dropLast

section names
variable {text blank word rest : Str} {loops loops' : Nat} {effects : List Effect}

theorem pushes_cons (file_name : Str) (names : List Str) :
    pushes (file_name :: names) = .push file_name :: .notify :: pushes names := rfl

theorem pushes_names (names : List Str) : (pushes names).filterMap Effect.name? = names := by
  induction names with
  | nil => rfl
  | cons file_name names ih => exact congrArg (file_name :: ·) ih

theorem flag_not_mem_pushes (names : List Str) : Effect.flag ∉ pushes names := by
  simp [pushes]

theorem queued_blank (blanks : ∀ c ∈ text, isspace c = true) : queued text = [] := by
  have all : text.getLast?.all isspace = true :=
    (Option.all_eq_true _ _).mpr fun c last => blanks c (List.mem_of_getLast? last)
  rw [queued, if_pos all, words_blank blanks]

theorem queued_last (blanks : ∀ c ∈ blank, isspace c = true) (token : Token word) : queued (blank ++ word) = [] := by
  obtain ⟨nonempty, plain⟩ := token
  have last : (blank ++ word).getLast? = some (word.getLast nonempty) := by
    rw [List.getLast?_append_of_ne_nil _ nonempty, List.getLast?_eq_some_getLast nonempty]
  have unblank : ¬ (blank ++ word).getLast?.all isspace = true := by
    rw [last, Option.all_some, plain _ (List.getLast_mem nonempty)]
    exact Bool.false_ne_true
  rw [queued, if_neg unblank, words_skip blanks, words_token ⟨nonempty, plain⟩]
  rfl

theorem words_some (unblank : ¬ text.getLast?.all isspace = true) : words text ≠ [] := by
  intro none
  rcases blank_or_word text with blanks | ⟨blank, word, rest, rfl, blanks, token, ends⟩
  · exact unblank ((Option.all_eq_true _ _).mpr fun c last => blanks c (List.mem_of_getLast? last))
  · rw [words_skip blanks, words_first token ends] at none
    cases none

theorem queued_first (blanks : ∀ c ∈ blank, isspace c = true) (token : Token word)
    (ends : ∀ c ∈ rest.head?, isspace c = true) (more : rest ≠ []) :
    queued (blank ++ (word ++ rest)) = word :: queued rest := by
  have last : (blank ++ (word ++ rest)).getLast? = rest.getLast? := by
    rw [← List.append_assoc, List.getLast?_append_of_ne_nil _ more]
  rw [queued, queued, last, words_skip blanks, words_first token ends]
  split
  · rfl
  · next unblank => exact List.dropLast_cons_of_ne_nil (words_some unblank)

theorem queued_eq_iff : queued text = words text ↔ ∀ c ∈ text.getLast?, isspace c = true := by
  have spelled : (∀ c ∈ text.getLast?, isspace c = true) ↔ text.getLast?.all isspace = true :=
    (Option.all_eq_true _ _).symm
  rw [queued, spelled]
  split
  · next all => exact iff_of_true rfl all
  · next unblank =>
    refine iff_of_false (fun same => ?_) unblank
    have shorter := congrArg List.length same
    have some_ := List.length_pos_of_ne_nil (words_some unblank)
    rw [List.length_dropLast] at shorter
    omega

theorem readNames_eq (enough : text.length < loops) (file_name : Str) :
    readNames loops (.of text) file_name = some (pushes (queued text)) := by
  induction loops generalizing text file_name with
  | zero => exact absurd enough (Nat.not_lt_zero _)
  | succ loops ih =>
    rcases blank_or_word text with blanks | ⟨blank, word, rest, rfl, blanks, token, ends⟩
    · rw [queued_blank blanks]
      simp only [readNames, IStream.extract_blank blanks, if_true]
      rfl
    · simp only [readNames, IStream.extract_word blanks token ends]
      cases rest with
      | nil =>
        rw [List.append_nil, queued_last blanks token]
        rfl
      | cons c cs =>
        have shorter : (c :: cs).length < loops := by
          have some_ := List.length_pos_of_ne_nil token.1
          rw [List.length_append, List.length_append] at enough
          omega
        have later := ih shorter word
        rw [queued_first blanks token ends (List.cons_ne_nil c cs)]
        simp only [List.isEmpty_cons, Bool.false_eq_true, if_false]
        rw [← IStream.of, later, Option.map_some, pushes_cons]

theorem readNames_more (more : loops ≤ loops') (cin : IStream) (file_name : Str) :
    More (readNames loops cin file_name) (readNames loops' cin file_name) := by
  induction loops generalizing loops' cin file_name with
  | zero => exact fun _ none => nomatch none
  | succ loops ih =>
    obtain ⟨loops', rfl⟩ : ∃ k, loops' = k + 1 := ⟨loops' - 1, by omega⟩
    simp only [readNames]
    split
    · exact More.refl _
    · simp only [Option.map_eq_bind]
      exact (ih (by omega) _ _).bind fun _ => More.refl _

theorem pre_func_eq (enough : text.length < loops) :
    pre_func loops (.of text) = some (pushes (queued text) ++ [.flag, .notify]) := by
  rw [pre_func, readNames_eq enough]
  rfl

theorem pre_func_only (ran : pre_func loops (.of text) = some effects) :
    effects = pushes (queued text) ++ [.flag, .notify] := by
  obtain ⟨read, ran', rfl⟩ := Option.map_eq_some_iff.mp ran
  have same := readNames_more (Nat.le_max_left loops (text.length + 1)) _ _ _ ran'
  rw [readNames_eq (Nat.lt_of_lt_of_le (Nat.lt_succ_self _) (Nat.le_max_right _ _))] at same
  rw [Option.some.inj same]

theorem pre_func_before {before after : List Effect} (ran : pre_func loops (.of text) = some (before ++ .flag :: after)) :
    before = pushes (queued text) ∧ after = [.notify] := by
  have whole : pushes (queued text) ++ .flag :: [.notify] = before ++ .flag :: after := (pre_func_only ran).symm
  obtain ⟨same, -, rest⟩ :=
    (List.append_cons_inj_of_notMem (flag_not_mem_pushes (queued text)) (by decide)).mp whole
  exact ⟨same.symm, rest.symm⟩

end names

/-! The thread of the pipeline does the same. -/

namespace Pre

def effects : Pre → List Effect
  | read left => pushes left ++ [.flag, .notify]
  | lock file_name left | push file_name left => pushes (file_name :: left) ++ [.flag, .notify]
  | unlock left | notify left => .notify :: (pushes left ++ [.flag, .notify])
  | flag => [.flag, .notify]
  | notifyDone => [.notify]
  | finished => []

end Pre

def Effect.apply : Effect → Channel Str → Channel Str
  | push file_name, c => c.push file_name
  | notify, c => c.notify
  | flag, c => c.close

theorem State.pre_func_effects {s t : State} (ran : s.pre_func = some t) :
    (s.pre.effects = t.pre.effects ∧ t.queue_of_filename.queue = s.queue_of_filename.queue ∧
      t.queue_of_filename.done = s.queue_of_filename.done) ∨
    ∃ effect, s.pre.effects = effect :: t.pre.effects ∧ t.queue_of_filename = effect.apply s.queue_of_filename := by
  obtain ⟨names, lines, answers, pre, input, work, output, printed⟩ := s
  cases pre with
  | read left =>
    cases left with
    | nil =>
      cases ran
      exact Or.inl ⟨rfl, rfl, rfl⟩
    | cons file_name left =>
      cases ran
      exact Or.inl ⟨rfl, rfl, rfl⟩
  | lock file_name left =>
    obtain ⟨c, locked, rfl⟩ := Option.map_eq_some_iff.mp ran
    obtain rfl := Channel.lock_eq locked
    exact Or.inl ⟨rfl, rfl, rfl⟩
  | push file_name left =>
    cases ran
    exact Or.inr ⟨.push file_name, rfl, rfl⟩
  | unlock left =>
    cases ran
    exact Or.inl ⟨rfl, rfl, rfl⟩
  | notify left =>
    cases ran
    exact Or.inr ⟨.notify, rfl, rfl⟩
  | flag =>
    cases ran
    exact Or.inr ⟨.flag, rfl, rfl⟩
  | notifyDone =>
    cases ran
    exact Or.inr ⟨.notify, rfl, rfl⟩
  | finished => cases ran

theorem start_effects {text : Str} {loops : Nat} {effects : List Effect} (ran : pre_func loops (.of text) = some effects) :
    (State.start (queued text)).pre.effects = effects :=
  (pre_func_only ran).symm

/-! The words of the text. -/

def Queues (text : Str) : Prop :=
  ∃ loops before after, pre_func loops (.of text) = some (before ++ .flag :: after) ∧ Effect.flag ∉ before ∧
    before.filterMap Effect.name? = words text ∧ after.filterMap Effect.name? = []

/-- Every name on standard input is queued exactly when the text is empty or ends in a blank. -/
theorem queues_iff (text : Str) : Queues text ↔ ∀ c ∈ text.getLast?, isspace c = true := by
  rw [← queued_eq_iff]
  constructor
  · rintro ⟨loops, before, after, ran, _, names, _⟩
    obtain ⟨same, -⟩ := pre_func_before ran
    rw [← names, same, pushes_names]
  · intro all
    refine ⟨text.length + 1, pushes (queued text), [.notify], pre_func_eq (Nat.lt_succ_self _),
      flag_not_mem_pushes _, ?_, rfl⟩
    rw [pushes_names, all]

theorem last_name_not_queued : ¬ Queues "a.txt b.txt".toList := by
  rintro ⟨loops, before, after, ran, _, names, _⟩
  obtain ⟨same, -⟩ := pre_func_before ran
  rw [same, pushes_names] at names
  have missing : queued "a.txt b.txt".toList ≠ words "a.txt b.txt".toList := by decide
  exact missing names

end CloudLab.Sudoku
