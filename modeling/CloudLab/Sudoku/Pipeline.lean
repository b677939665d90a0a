import CloudLab.Library.Channel
import CloudLab.Library.Run
import CloudLab.Library.Text
import CloudLab.Sudoku.Puzzle

/-! The threads of the solver, and the three queues between them. Every access to a queue, a
flag, a mutex or a condition variable is a step of its own, and a blocked thread may wake up
at any time. -/

namespace CloudLab.Sudoku

open CloudLab Text

abbrev Answer := List Int8

inductive Pre
  | read (left : List Str)
  | lock (file_name : Str) (left : List Str)
  | push (file_name : Str) (left : List Str)
  | unlock (left : List Str)
  | notify (left : List Str)
  | flag | notifyDone | finished
  deriving DecidableEq

/-- `input_func`, which keeps `filename_lock` for a whole turn of its loop; `rest` are the
lines of the file that are still to be read. -/
inductive Input
  | gate (gate : Gate)
  | front
  | pop (file : Str)
  | opening (file : Str)
  | getline (rest : List Str)
  | lock (line : Str) (rest : List Str)
  | push (line : Str) (rest : List Str)
  | notify (rest : List Str)
  | unlock (rest : List Str)
  | release | closing | flag | notifyDone | finished
  /-- Returned because a file could not be opened. -/
  | failed
  deriving DecidableEq

/-- `work_func`, which keeps `input_question_lock` for a whole turn, and takes no lock for
the queue of answers. -/
inductive Work
  | gate (gate : Gate)
  | front
  | pop (str : Str)
  | solving (str : Str)
  | push (out : Answer)
  | notify | unlock | closing | flag | notifyDone | finished
  deriving DecidableEq

/-- `output_func`, which prints the front of the queue before it takes it off. -/
inductive Output
  | gate (gate : Gate)
  | print | pop | unlock | closing | finished
  deriving DecidableEq

structure State where
  queue_of_filename : Channel Str
  question_of_sudoku : Channel Str
  answer_of_sudoku : Channel Answer
  pre : Pre
  input : Input
  work : Work
  output : Output
  printed : List Answer
  deriving DecidableEq

inductive Event
  | pre | input | work
  /-- The solver's answer to the line at hand. -/
  | solve (out : Answer)
  | output
  /-- A wait that ends without having been notified. -/
  | wakeInput | wakeWork | wakeOutput

def chars (line : Str) : List Int8 := line.map fun c => Int8.ofNat c.toNat

/-- `work_func`'s solver answers the line; its memory holds anything at the start. -/
def Solves (line : Str) (out : Answer) : Prop :=
  ∃ memory loops fuel, work_func loops fuel memory (chars line) = some out

def Input.ahead : Ahead → Input
  | .wait g => .gate g
  | .take => .front
  | .stop => .closing

def Work.ahead : Ahead → Work
  | .wait g => .gate g
  | .take => .front
  | .stop => .closing

def Output.ahead : Ahead → Output
  | .wait g => .gate g
  | .take => .print
  | .stop => .closing

namespace State

def start (names : List Str) : State :=
  { queue_of_filename := .new, question_of_sudoku := .new, answer_of_sudoku := .new,
    pre := .read names, input := .gate .lock, work := .gate .lock, output := .gate .lock, printed := [] }

def pre_func (s : State) : Option State :=
  match s.pre with
  | .read [] => some { s with pre := .flag }
  | .read (file_name :: left) => some { s with pre := .lock file_name left }
  | .lock file_name left => s.queue_of_filename.lock.map fun c =>
      { s with queue_of_filename := c, pre := .push file_name left }
  | .push file_name left => some { s with queue_of_filename := s.queue_of_filename.push file_name, pre := .unlock left }
  | .unlock left => some { s with queue_of_filename := s.queue_of_filename.unlock, pre := .notify left }
  | .notify left => some { s with queue_of_filename := s.queue_of_filename.notify, pre := .read left }
  | .flag => some { s with queue_of_filename := s.queue_of_filename.close, pre := .notifyDone }
  | .notifyDone => some { s with queue_of_filename := s.queue_of_filename.notify, pre := .finished }
  | .finished => none

def input_func (disk : Str → Option Str) (s : State) : Option State :=
  match s.input with
  | .gate g => (g.next s.queue_of_filename).map fun (c, ahead) =>
      { s with queue_of_filename := c, input := Input.ahead ahead }
  | .front => s.queue_of_filename.front.map fun file => { s with input := .pop file }
  | .pop file => s.queue_of_filename.pop.map fun c => { s with queue_of_filename := c, input := .opening file }
  | .opening file =>
      match disk file with
      | none => some { s with queue_of_filename := s.queue_of_filename.unlock, input := .failed }
      | some content => some { s with input := .getline (getlines content) }
  | .getline [] => some { s with input := .release }
  | .getline (line :: rest) => some { s with input := .lock line rest }
  | .lock line rest => s.question_of_sudoku.lock.map fun c =>
      { s with question_of_sudoku := c, input := .push line rest }
  | .push line rest => some { s with question_of_sudoku := s.question_of_sudoku.push line, input := .notify rest }
  | .notify rest => some { s with question_of_sudoku := s.question_of_sudoku.notify, input := .unlock rest }
  | .unlock rest => some { s with question_of_sudoku := s.question_of_sudoku.unlock, input := .getline rest }
  | .release => some { s with queue_of_filename := s.queue_of_filename.unlock, input := .gate .lock }
  | .closing => some { s with queue_of_filename := s.queue_of_filename.unlock, input := .flag }
  | .flag => some { s with question_of_sudoku := s.question_of_sudoku.close, input := .notifyDone }
  | .notifyDone => some { s with question_of_sudoku := s.question_of_sudoku.notify, input := .finished }
  | .finished | .failed => none

def work_func (s : State) : Option State :=
  match s.work with
  | .gate g => (g.next s.question_of_sudoku).map fun (c, ahead) =>
      { s with question_of_sudoku := c, work := Work.ahead ahead }
  | .front => s.question_of_sudoku.front.map fun str => { s with work := .pop str }
  | .pop str => s.question_of_sudoku.pop.map fun c => { s with question_of_sudoku := c, work := .solving str }
  | .solving _ => none
  | .push out => some { s with answer_of_sudoku := s.answer_of_sudoku.push out, work := .notify }
  | .notify => some { s with answer_of_sudoku := s.answer_of_sudoku.notify, work := .unlock }
  | .unlock => some { s with question_of_sudoku := s.question_of_sudoku.unlock, work := .gate .lock }
  | .closing => some { s with question_of_sudoku := s.question_of_sudoku.unlock, work := .flag }
  | .flag => some { s with answer_of_sudoku := s.answer_of_sudoku.close, work := .notifyDone }
  | .notifyDone => some { s with answer_of_sudoku := s.answer_of_sudoku.notify, work := .finished }
  | .finished => none

def output_func (s : State) : Option State :=
  match s.output with
  | .gate g => (g.next s.answer_of_sudoku).map fun (c, ahead) =>
      { s with answer_of_sudoku := c, output := Output.ahead ahead }
  | .print => s.answer_of_sudoku.front.map fun out => { s with printed := s.printed ++ [out], output := .pop }
  | .pop => s.answer_of_sudoku.pop.map fun c => { s with answer_of_sudoku := c, output := .unlock }
  | .unlock => some { s with answer_of_sudoku := s.answer_of_sudoku.unlock, output := .gate .lock }
  | .closing => some { s with answer_of_sudoku := s.answer_of_sudoku.unlock, output := .finished }
  | .finished => none

def next (disk : Str → Option Str) (s : State) : Event → Option State
  | .pre => s.pre_func
  | .input => s.input_func disk
  | .work => s.work_func
  | .solve out => if s.work matches .solving _ then some { s with work := .push out } else none
  | .output => s.output_func
  | .wakeInput => some { s with queue_of_filename := s.queue_of_filename.notify }
  | .wakeWork => some { s with question_of_sudoku := s.question_of_sudoku.notify }
  | .wakeOutput => some { s with answer_of_sudoku := s.answer_of_sudoku.notify }

/-- A step of one of the threads, where the solver only gives answers to its line. -/
def Step (disk : Str → Option Str) (s : State) (event : Event) (t : State) : Prop :=
  s.next disk event = some t ∧ ∀ str out, s.work = .solving str → event = .solve out → Solves str out

def Finished (s : State) : Prop :=
  s.pre = .finished ∧ (s.input = .finished ∨ s.input = .failed) ∧ s.work = .finished ∧ s.output = .finished

end State

/-! What each thread has in hand, and what it knows of the queue that it reads. -/

def linesOf (disk : Str → Option Str) (file : Str) : List Str := ((disk file).map getlines).getD []

namespace Pre

def left : Pre → List Str
  | read left | unlock left | notify left => left
  | lock file_name left | push file_name left => file_name :: left
  | flag | notifyDone | finished => []

def Over : Pre → Prop
  | notifyDone | finished => True
  | _ => False

theorem left_over {pre : Pre} (ended : pre.Over) : pre.left = [] := by
  cases pre with
  | notifyDone | finished => rfl
  | read | lock | push | unlock | notify | flag => exact ended.elim

end Pre

namespace Input

def lines (disk : Str → Option Str) : Input → List Str
  | opening file => linesOf disk file
  | getline rest | notify rest | unlock rest => rest
  | lock line rest | push line rest => line :: rest
  | _ => []

def Over : Input → Prop
  | notifyDone | finished => True
  | _ => False

def Holds (c : Channel Str) : Input → Prop
  | gate g => g.Holds c
  | front => c.queue ≠ []
  | pop file => ∃ rest, c.queue = file :: rest
  | closing | flag | notifyDone | finished => c.queue = [] ∧ c.done = true
  | _ => True

theorem Holds.fed {input : Input} {c c' : Channel Str} (known : input.Holds c) (fed : c.Fed c') :
    input.Holds c' := by
  cases input with
  | gate g => exact Gate.Holds.fed known fed
  | front => exact fed.ne_nil known
  | pop file =>
    obtain ⟨rest, queue⟩ := known
    exact fed.cons queue
  | closing | flag | notifyDone | finished => exact fed.drained known
  | opening | getline | lock | push | notify | unlock | release | failed => trivial

theorem holds_ahead {a : Ahead} {c : Channel Str} (known : a.Holds c) : (Input.ahead a).Holds c := by
  cases a with
  | wait g => exact known
  | take => exact known
  | stop => exact known

theorem lines_ahead (disk : Str → Option Str) (a : Ahead) : (Input.ahead a).lines disk = [] := by
  cases a with
  | wait | take | stop => rfl

end Input

namespace Work

def line : Work → List Str
  | solving str => [str]
  | _ => []

def answer : Work → List Answer
  | push out => [out]
  | _ => []

def Over : Work → Prop
  | notifyDone | finished => True
  | _ => False

def Holds (c : Channel Str) : Work → Prop
  | gate g => g.Holds c
  | front => c.queue ≠ []
  | pop str => ∃ rest, c.queue = str :: rest
  | closing | flag | notifyDone | finished => c.queue = [] ∧ c.done = true
  | _ => True

theorem Holds.fed {work : Work} {c c' : Channel Str} (known : work.Holds c) (fed : c.Fed c') :
    work.Holds c' := by
  cases work with
  | gate g => exact Gate.Holds.fed known fed
  | front => exact fed.ne_nil known
  | pop str =>
    obtain ⟨rest, queue⟩ := known
    exact fed.cons queue
  | closing | flag | notifyDone | finished => exact fed.drained known
  | solving | push | notify | unlock => trivial

theorem holds_ahead {a : Ahead} {c : Channel Str} (known : a.Holds c) : (Work.ahead a).Holds c := by
  cases a with
  | wait g => exact known
  | take => exact known
  | stop => exact known

theorem line_ahead (a : Ahead) : (Work.ahead a).line = [] ∧ (Work.ahead a).answer = [] := by
  cases a with
  | wait | take | stop => exact ⟨rfl, rfl⟩

end Work

namespace Output

def pending (queue : List Answer) : Output → List Answer
  | pop => queue.tail
  | _ => queue

def Holds (c : Channel Answer) : Output → Prop
  | gate g => g.Holds c
  | print | pop => c.queue ≠ []
  | closing | finished => c.queue = [] ∧ c.done = true
  | unlock => True

theorem Holds.fed {output : Output} {c c' : Channel Answer} (known : output.Holds c) (fed : c.Fed c') :
    output.Holds c' := by
  cases output with
  | gate g => exact Gate.Holds.fed known fed
  | print | pop => exact fed.ne_nil known
  | closing | finished => exact fed.drained known
  | unlock => trivial

theorem holds_ahead {a : Ahead} {c : Channel Answer} (known : a.Holds c) : (Output.ahead a).Holds c := by
  cases a with
  | wait g => exact known
  | take => exact known
  | stop => exact known

theorem pending_ahead (a : Ahead) (queue : List Answer) : (Output.ahead a).pending queue = queue := by
  cases a with
  | wait | take | stop => rfl

theorem pending_push {output : Output} {c : Channel Answer} (known : output.Holds c) (out : Answer) :
    output.pending (c.push out).queue = output.pending c.queue ++ [out] := by
  cases output with
  | pop => exact List.tail_append_of_ne_nil known
  | gate | print | unlock | closing | finished => rfl

end Output

namespace State

variable {disk : Str → Option Str} {names : List Str} {s t : State}

def unsolved (disk : Str → Option Str) (s : State) : List Str :=
  s.work.line ++ (s.question_of_sudoku.queue ++
    (s.input.lines disk ++ (s.queue_of_filename.queue ++ s.pre.left).flatMap (linesOf disk)))

def solved (s : State) : List Answer :=
  s.printed ++ (s.output.pending s.answer_of_sudoku.queue ++ s.work.answer)

/-- Every line of every file is either answered or on its way, in the order of the files. -/
def Flow (disk : Str → Option Str) (names : List Str) (s : State) : Prop :=
  ∃ answered, names.flatMap (linesOf disk) = answered ++ s.unsolved disk ∧ List.Forall₂ Solves answered s.solved

theorem Flow.same (flow : Flow disk names s) (unsolved : t.unsolved disk = s.unsolved disk)
    (solved : t.solved = s.solved) : Flow disk names t := by
  unfold Flow
  rw [unsolved, solved]
  exact flow

/-- The flow of the lines, what each consumer knows, and that a flag is only set by a thread
that is done with its queue. -/
structure Inv (disk : Str → Option Str) (names : List Str) (s : State) : Prop where
  flow : Flow disk names s
  input : s.input.Holds s.queue_of_filename
  work : s.work.Holds s.question_of_sudoku
  output : s.output.Holds s.answer_of_sudoku
  read_file_done : s.queue_of_filename.done = true → s.pre.Over
  read_question_done : s.question_of_sudoku.done = true → s.input.Over
  work_done : s.answer_of_sudoku.done = true → s.work.Over

theorem Inv.start (disk : Str → Option Str) (names : List Str) : Inv disk names (start names) where
  flow := ⟨[], rfl, List.Forall₂.nil⟩
  input := trivial
  work := trivial
  output := trivial
  read_file_done := fun set => nomatch set
  read_question_done := fun set => nomatch set
  work_done := fun set => nomatch set

theorem Inv.feedNames (inv : Inv disk names s) {c : Channel Str} {pre : Pre} (fed : s.queue_of_filename.Fed c)
    (left : c.queue ++ pre.left = s.queue_of_filename.queue ++ s.pre.left) (ended : c.done = true → pre.Over) :
    Inv disk names { s with queue_of_filename := c, pre := pre } :=
  { inv with
    flow := inv.flow.same (by simp only [unsolved, left]) rfl
    input := inv.input.fed fed
    read_file_done := ended }

theorem Inv.pre_func (inv : Inv disk names s) (step : s.pre_func = some t) : Inv disk names t := by
  have going (open_ : ¬ s.pre.Over) {P : Prop} (set : s.queue_of_filename.done = true) : P :=
    absurd (inv.read_file_done set) open_
  unfold State.pre_func at step
  cases turn : s.pre with
  | read left =>
    rw [turn] at going step
    cases left with
    | nil =>
      cases step
      exact inv.feedNames (.refl _) (by simp [turn, Pre.left]) (going id)
    | cons file_name left =>
      cases step
      exact inv.feedNames (.refl _) (by simp [turn, Pre.left]) (going id)
  | lock file_name left =>
    rw [turn] at going step
    obtain ⟨c, taken, rfl⟩ := Option.map_eq_some_iff.mp step
    refine inv.feedNames (.lock taken) ?_ ?_
    · simp [turn, Pre.left, Channel.lock_eq taken]
    · rw [Channel.lock_eq taken]
      exact going id
  | push file_name left =>
    rw [turn] at going step
    cases step
    exact inv.feedNames (.push file_name (going id)) (by simp [turn, Pre.left, Channel.push]) (going id)
  | unlock left =>
    rw [turn] at going step
    cases step
    exact inv.feedNames (.unlock _) (by simp [turn, Pre.left, Channel.unlock]) (going id)
  | notify left =>
    rw [turn] at going step
    cases step
    exact inv.feedNames (.notify _) (by simp [turn, Pre.left, Channel.notify]) (going id)
  | flag =>
    rw [turn] at step
    cases step
    exact inv.feedNames (.close _) (by simp [turn, Pre.left, Channel.close]) (fun _ => trivial)
  | notifyDone =>
    rw [turn] at step
    cases step
    exact inv.feedNames (.notify _) (by simp [turn, Pre.left, Channel.notify]) (fun _ => trivial)
  | finished =>
    rw [turn] at step
    cases step

theorem Inv.takeName (inv : Inv disk names s) {c : Channel Str} {input : Input} (open_ : ¬ s.input.Over)
    (known : input.Holds c) (done : c.done = s.queue_of_filename.done)
    (lines : input.lines disk ++ c.queue.flatMap (linesOf disk) =
      s.input.lines disk ++ s.queue_of_filename.queue.flatMap (linesOf disk)) :
    Inv disk names { s with queue_of_filename := c, input := input } :=
  { inv with
    flow := inv.flow.same
      (by simp only [unsolved, List.flatMap_append, ← List.append_assoc (Input.lines disk _), lines]) rfl
    input := known
    read_file_done := fun set => inv.read_file_done (done ▸ set)
    read_question_done := fun set => absurd (inv.read_question_done set) open_ }

theorem Inv.feedLine (inv : Inv disk names s) {c : Channel Str} {input : Input}
    (known : input.Holds s.queue_of_filename) (fed : s.question_of_sudoku.Fed c)
    (lines : c.queue ++ input.lines disk = s.question_of_sudoku.queue ++ s.input.lines disk)
    (ended : c.done = true → input.Over) :
    Inv disk names { s with question_of_sudoku := c, input := input } :=
  { inv with
    flow := inv.flow.same
      (by simp only [unsolved, ← List.append_assoc (Channel.queue _), lines]) rfl
    input := known
    work := inv.work.fed fed
    read_question_done := ended }

theorem Inv.input_func (inv : Inv disk names s) (step : s.input_func disk = some t) : Inv disk names t := by
  have going (open_ : ¬ s.input.Over) {P : Prop} (set : s.question_of_sudoku.done = true) : P :=
    absurd (inv.read_question_done set) open_
  have known := inv.input
  unfold State.input_func at step
  cases turn : s.input with
  | gate g =>
    rw [turn] at known step
    obtain ⟨⟨c, a⟩, moved, rfl⟩ := Option.map_eq_some_iff.mp step
    obtain ⟨queue, done⟩ := Gate.next_same moved
    refine inv.takeName (by rw [turn]; exact id) (Input.holds_ahead (Gate.next_holds known moved)) done ?_
    rw [turn, queue, Input.lines_ahead]
    rfl
  | front =>
    rw [turn] at known step
    obtain ⟨file, front, rfl⟩ := Option.map_eq_some_iff.mp step
    exact inv.takeName (by rw [turn]; exact id) (Channel.front_eq front) rfl (by simp [turn, Input.lines])
  | pop file =>
    rw [turn] at known step
    obtain ⟨c, popped, rfl⟩ := Option.map_eq_some_iff.mp step
    obtain ⟨rest, queue⟩ := known
    rw [Channel.pop_eq queue popped]
    exact inv.takeName (by rw [turn]; exact id) trivial rfl (by simp [turn, Input.lines, queue])
  | opening file =>
    rw [turn] at step
    cases found : disk file with
    | none =>
      simp only [found, Option.some.injEq] at step
      subst step
      exact inv.takeName (by rw [turn]; exact id) trivial rfl
        (by simp [turn, Input.lines, Channel.unlock, linesOf, found])
    | some content =>
      simp only [found, Option.some.injEq] at step
      subst step
      exact inv.takeName (by rw [turn]; exact id) trivial rfl (by simp [turn, Input.lines, linesOf, found])
  | getline rest =>
    rw [turn] at going step
    cases rest with
    | nil =>
      cases step
      exact inv.feedLine trivial (.refl _) (by simp [turn, Input.lines]) (going id)
    | cons line rest =>
      cases step
      exact inv.feedLine trivial (.refl _) (by simp [turn, Input.lines]) (going id)
  | lock line rest =>
    rw [turn] at going step
    obtain ⟨c, taken, rfl⟩ := Option.map_eq_some_iff.mp step
    refine inv.feedLine trivial (.lock taken) ?_ ?_
    · simp [turn, Input.lines, Channel.lock_eq taken]
    · rw [Channel.lock_eq taken]
      exact going id
  | push line rest =>
    rw [turn] at going step
    cases step
    exact inv.feedLine trivial (.push line (going id)) (by simp [turn, Input.lines, Channel.push]) (going id)
  | notify rest =>
    rw [turn] at going step
    cases step
    exact inv.feedLine trivial (.notify _) (by simp [turn, Input.lines, Channel.notify]) (going id)
  | unlock rest =>
    rw [turn] at going step
    cases step
    exact inv.feedLine trivial (.unlock _) (by simp [turn, Input.lines, Channel.unlock]) (going id)
  | release =>
    rw [turn] at step
    cases step
    exact inv.takeName (by rw [turn]; exact id) trivial rfl (by simp [turn, Input.lines, Channel.unlock])
  | closing =>
    rw [turn] at known step
    cases step
    exact inv.takeName (by rw [turn]; exact id) known rfl (by simp [turn, Input.lines, Channel.unlock])
  | flag =>
    rw [turn] at known step
    cases step
    exact inv.feedLine known (.close _) (by simp [turn, Input.lines, Channel.close]) (fun _ => trivial)
  | notifyDone =>
    rw [turn] at known step
    cases step
    exact inv.feedLine known (.notify _) (by simp [turn, Input.lines, Channel.notify]) (fun _ => trivial)
  | finished =>
    rw [turn] at step
    cases step
  | failed =>
    rw [turn] at step
    cases step

theorem Inv.takeLine (inv : Inv disk names s) {c : Channel Str} {work : Work} (open_ : ¬ s.work.Over)
    (known : work.Holds c) (done : c.done = s.question_of_sudoku.done)
    (line : work.line ++ c.queue = s.work.line ++ s.question_of_sudoku.queue)
    (answer : work.answer = s.work.answer) :
    Inv disk names { s with question_of_sudoku := c, work := work } :=
  { inv with
    flow := inv.flow.same
      (by simp only [unsolved, ← List.append_assoc (Work.line _), line])
      (by simp only [solved, answer])
    work := known
    read_question_done := fun set => inv.read_question_done (done ▸ set)
    work_done := fun set => absurd (inv.work_done set) open_ }

theorem Inv.feedAnswer (inv : Inv disk names s) {c : Channel Answer} {work : Work}
    (known : work.Holds s.question_of_sudoku) (fed : s.answer_of_sudoku.Fed c) (line : work.line = s.work.line)
    (answer : s.output.pending c.queue ++ work.answer = s.output.pending s.answer_of_sudoku.queue ++ s.work.answer)
    (ended : c.done = true → work.Over) :
    Inv disk names { s with answer_of_sudoku := c, work := work } :=
  { inv with
    flow := inv.flow.same (by simp only [unsolved, line]) (by simp only [solved, answer])
    work := known
    output := inv.output.fed fed
    work_done := ended }

theorem Inv.work_func (inv : Inv disk names s) (step : s.work_func = some t) : Inv disk names t := by
  have going (open_ : ¬ s.work.Over) {P : Prop} (set : s.answer_of_sudoku.done = true) : P :=
    absurd (inv.work_done set) open_
  have known := inv.work
  unfold State.work_func at step
  cases turn : s.work with
  | gate g =>
    rw [turn] at known step
    obtain ⟨⟨c, a⟩, moved, rfl⟩ := Option.map_eq_some_iff.mp step
    obtain ⟨queue, done⟩ := Gate.next_same moved
    obtain ⟨line, answer⟩ := Work.line_ahead a
    refine inv.takeLine (by rw [turn]; exact id) (Work.holds_ahead (Gate.next_holds known moved)) done ?_ ?_
    · rw [turn, queue, line]
      rfl
    · rw [turn, answer]
      rfl
  | front =>
    rw [turn] at known step
    obtain ⟨str, front, rfl⟩ := Option.map_eq_some_iff.mp step
    exact inv.takeLine (by rw [turn]; exact id) (Channel.front_eq front) rfl (by simp [turn, Work.line])
      (by simp [turn, Work.answer])
  | pop str =>
    rw [turn] at known step
    obtain ⟨c, popped, rfl⟩ := Option.map_eq_some_iff.mp step
    obtain ⟨rest, queue⟩ := known
    rw [Channel.pop_eq queue popped]
    exact inv.takeLine (by rw [turn]; exact id) trivial rfl (by simp [turn, Work.line, queue])
      (by simp [turn, Work.answer])
  | solving str =>
    rw [turn] at step
    cases step
  | push out =>
    rw [turn] at going step
    cases step
    refine inv.feedAnswer trivial (.push out (going id)) (by simp [turn, Work.line]) ?_ (going id)
    rw [turn, Output.pending_push inv.output]
    exact List.append_nil _
  | notify =>
    rw [turn] at going step
    cases step
    exact inv.feedAnswer trivial (.notify _) (by simp [turn, Work.line])
      (by simp [turn, Work.answer, Channel.notify]) (going id)
  | unlock =>
    rw [turn] at step
    cases step
    exact inv.takeLine (by rw [turn]; exact id) trivial rfl (by simp [turn, Work.line, Channel.unlock])
      (by simp [turn, Work.answer])
  | closing =>
    rw [turn] at known step
    cases step
    exact inv.takeLine (by rw [turn]; exact id) known rfl (by simp [turn, Work.line, Channel.unlock])
      (by simp [turn, Work.answer])
  | flag =>
    rw [turn] at known step
    cases step
    exact inv.feedAnswer known (.close _) (by simp [turn, Work.line])
      (by simp [turn, Work.answer, Channel.close]) (fun _ => trivial)
  | notifyDone =>
    rw [turn] at known step
    cases step
    exact inv.feedAnswer known (.notify _) (by simp [turn, Work.line])
      (by simp [turn, Work.answer, Channel.notify]) (fun _ => trivial)
  | finished =>
    rw [turn] at step
    cases step

theorem Inv.solve (inv : Inv disk names s) {str : Str} {out : Answer} (turn : s.work = .solving str)
    (answers : Solves str out) : Inv disk names { s with work := .push out } := by
  obtain ⟨answered, all, given⟩ := inv.flow
  have flow : Flow disk names { s with work := .push out } := by
    refine ⟨answered ++ [str], ?_, ?_⟩
    · simp only [all, unsolved, turn, Work.line, List.append_assoc, List.nil_append]
    · have more : ({ s with work := .push out } : State).solved = s.solved ++ [out] := by
        simp only [solved, turn, Work.answer, List.append_nil, List.append_assoc]
      rw [more]
      exact List.rel_append given (List.Forall₂.cons answers List.Forall₂.nil)
  exact { inv with
    flow := flow
    work := trivial
    work_done := fun set => absurd (inv.work_done set) (by rw [turn]; exact id) }

theorem Inv.takeAnswer (inv : Inv disk names s) {c : Channel Answer} {output : Output} {printed : List Answer}
    (known : output.Holds c) (done : c.done = s.answer_of_sudoku.done)
    (order : printed ++ output.pending c.queue = s.printed ++ s.output.pending s.answer_of_sudoku.queue) :
    Inv disk names { s with answer_of_sudoku := c, output := output, printed := printed } :=
  { inv with
    flow := inv.flow.same rfl
      (by simp only [solved, ← List.append_assoc, order])
    output := known
    work_done := fun set => inv.work_done (done ▸ set) }

theorem Inv.output_func (inv : Inv disk names s) (step : s.output_func = some t) : Inv disk names t := by
  have known := inv.output
  unfold State.output_func at step
  cases turn : s.output with
  | gate g =>
    rw [turn] at known step
    obtain ⟨⟨c, a⟩, moved, rfl⟩ := Option.map_eq_some_iff.mp step
    obtain ⟨queue, done⟩ := Gate.next_same moved
    refine inv.takeAnswer (Output.holds_ahead (Gate.next_holds known moved)) done ?_
    rw [turn, queue, Output.pending_ahead]
    rfl
  | print =>
    rw [turn] at known step
    obtain ⟨out, front, rfl⟩ := Option.map_eq_some_iff.mp step
    obtain ⟨rest, queue⟩ := Channel.front_eq front
    exact inv.takeAnswer known rfl (by simp [turn, Output.pending, queue])
  | pop =>
    rw [turn] at known step
    obtain ⟨c, popped, rfl⟩ := Option.map_eq_some_iff.mp step
    obtain ⟨out, rest, queue⟩ := List.exists_cons_of_ne_nil known
    rw [Channel.pop_eq queue popped]
    exact inv.takeAnswer trivial rfl (by simp [turn, Output.pending, queue])
  | unlock =>
    rw [turn] at step
    cases step
    exact inv.takeAnswer trivial rfl (by simp [turn, Output.pending, Channel.unlock])
  | closing =>
    rw [turn] at known step
    cases step
    exact inv.takeAnswer known rfl (by simp [turn, Output.pending, Channel.unlock])
  | finished =>
    rw [turn] at step
    cases step

theorem Inv.step (inv : Inv disk names s) {event : Event} (step : s.Step disk event t) : Inv disk names t := by
  obtain ⟨moved, answers⟩ := step
  cases event with
  | pre => exact inv.pre_func moved
  | input => exact inv.input_func moved
  | work => exact inv.work_func moved
  | output => exact inv.output_func moved
  | solve out =>
    cases turn : s.work with
    | solving str =>
      simp only [next, turn, if_true, Option.some.injEq] at moved
      subst moved
      exact inv.solve turn (answers str out turn rfl)
    | gate | front | pop | push | notify | unlock | closing | flag | notifyDone | finished =>
      simp [next, turn] at moved
  | wakeInput =>
    cases moved
    exact inv.feedNames (.notify _) rfl inv.read_file_done
  | wakeWork =>
    cases moved
    exact inv.feedLine inv.input (.notify _) rfl inv.read_question_done
  | wakeOutput =>
    cases moved
    exact inv.feedAnswer inv.work (.notify _) rfl rfl inv.work_done

theorem Inv.run {events : List Event} (run : Run (Step disk) (State.start names) events s) : Inv disk names s :=
  run.invariant (Inv disk names) (fun _ _ _ inv step => inv.step step) (Inv.start disk names)

theorem Inv.drained (inv : Inv disk names s) (finished : s.output = .finished) : s.unsolved disk = [] ∧ s.solved = s.printed := by
  have output := inv.output
  rw [finished] at output
  have workOver := inv.work_done output.2
  have work : s.work.line = [] ∧ s.work.answer = [] ∧ s.question_of_sudoku.queue = [] ∧ s.question_of_sudoku.done = true := by
    have known := inv.work
    cases turn : s.work with
    | notifyDone | finished =>
      rw [turn] at known
      exact ⟨rfl, rfl, known⟩
    | gate | front | pop | solving | push | notify | unlock | closing | flag =>
      rw [turn] at workOver
      exact workOver.elim
  have inputOver := inv.read_question_done work.2.2.2
  have input : s.input.lines disk = [] ∧ s.queue_of_filename.queue = [] ∧ s.queue_of_filename.done = true := by
    have known := inv.input
    cases turn : s.input with
    | notifyDone | finished =>
      rw [turn] at known
      exact ⟨rfl, known⟩
    | gate | front | pop | opening | getline | lock | push | notify | unlock | release | closing | flag | failed =>
      rw [turn] at inputOver
      exact inputOver.elim
  have pre := Pre.left_over (inv.read_file_done input.2.2)
  constructor
  · simp [unsolved, work.1, work.2.2.1, input.1, input.2.1, pre]
  · simp [solved, finished, Output.pending, output.1, work.2.1]

end State

namespace State

def quiet (disk : Str → Option Str) (s : State) (event : Event) : Option State :=
  if event matches .solve _ then none else s.next disk event

theorem step_quiet {disk : Str → Option Str} {event : Event} {s t : State} (moved : s.quiet disk event = some t) :
    s.Step disk event t := by
  cases event with
  | solve out => cases moved
  | pre | input | work | output | wakeInput | wakeWork | wakeOutput =>
    exact ⟨moved, fun _ _ _ given => nomatch given⟩

theorem run_quiet {disk : Str → Option Str} {events : List Event} {s t : State}
    (result : execute (quiet disk) s events = some t) : Run (Step disk) s events t :=
  (run_of_execute result).mono fun _ _ _ => step_quiet

end State

/-- In every interleaving the printed lines are the solver's answers to the first lines of the
files, in order; when all threads have returned they are the answers to all the lines. -/
theorem pipeline_in_order {disk : Str → Option Str} {names : List Str} {events : List Event} {s : State}
    (run : Run (State.Step disk) (State.start names) events s) :
    List.Forall₂ Solves ((names.flatMap (linesOf disk)).take s.printed.length) s.printed ∧
      (s.Finished → List.Forall₂ Solves (names.flatMap (linesOf disk)) s.printed) := by
  have inv := State.Inv.run run
  obtain ⟨answered, all, given⟩ := inv.flow
  constructor
  · have first := List.forall₂_take_append answered s.printed _ given
    have long : s.printed.length ≤ answered.length := by
      rw [given.length_eq, State.solved, List.length_append]
      exact Nat.le_add_right _ _
    rw [all, List.take_append_of_le_length long]
    exact first
  · rintro ⟨_, _, _, finished⟩
    obtain ⟨none, same⟩ := inv.drained finished
    rw [all, none, List.append_nil, ← same]
    exact given

/-! Two files: the first has a line of full stops and one of dashes, the second one of stars. -/

def filled (c : Char) : Str := List.replicate 81 c

def twoFiles (file : Str) : Option Str :=
  some (if file = ['a'] then filled '.' ++ '\n' :: filled '-' else filled '*')

namespace State

/-- The threads in turn, `n` times over, each as far as it can take a step. -/
def inTurn (disk : Str → Option Str) (n : Nat) (s : State) : State :=
  (List.replicate n [Event.pre, .input, .work, .output]).flatten.foldl (attempt (quiet disk)) s

theorem run_inTurn (disk : Str → Option Str) (n : Nat) (s : State) :
    ∃ events, Run (Step disk) s events (s.inTurn disk n) := by
  obtain ⟨events, run⟩ := run_of_attempts (quiet disk) (List.replicate n [Event.pre, .input, .work, .output]).flatten s
  exact ⟨events, run.mono fun _ _ _ => step_quiet⟩

/-- The solver gives its answer, and the threads go on. -/
def goOn (disk : Str → Option Str) (n : Nat) (out : Answer) (s : State) : State :=
  { s with work := .push out }.inTurn disk n

theorem run_goOn (disk : Str → Option Str) (n : Nat) {s : State} {str : Str} {out : Answer}
    (solving : s.work = .solving str) (solves : Solves str out) :
    ∃ events, Run (Step disk) s events (s.goOn disk n out) := by
  have answered : Step disk s (.solve out) { s with work := .push out } := by
    refine ⟨?_, fun line answer turn given => ?_⟩
    · rw [next, solving]
      rfl
    · cases solving.symm.trans turn
      cases given
      exact solves
  obtain ⟨events, run⟩ := run_inTurn disk n { s with work := .push out }
  exact ⟨_, (Run.single answered).trans run⟩

end State

theorem solves_filled {c : Char} (solved : work_func 400 2 DLX.zeros (chars (filled c)) = some (chars (filled c))) :
    Solves (filled c) (chars (filled c)) :=
  ⟨_, _, _, solved⟩

theorem solves_stops : Solves (filled '.') (chars (filled '.')) := solves_filled (by decide +kernel)

theorem solves_dashes : Solves (filled '-') (chars (filled '-')) := solves_filled (by decide +kernel)

theorem solves_stars : Solves (filled '*') (chars (filled '*')) := solves_filled (by decide +kernel)

/-! The solver is at each of the lines; in the end every thread has returned. -/

def atStops : State :=
  { queue_of_filename := ⟨[], false, true, false⟩, question_of_sudoku := ⟨[], false, true, false⟩,
    answer_of_sudoku := ⟨[], false, false, true⟩, pre := .lock ['b'] [], input := .lock (filled '-') [],
    work := .solving (filled '.'), output := .gate .asleep, printed := [] }

def atDashes : State :=
  { atStops with queue_of_filename := ⟨[], true, true, false⟩, pre := .finished, input := .lock (filled '*') [],
                 work := .solving (filled '-'), printed := [chars (filled '.')] }

def atStars : State :=
  { atDashes with queue_of_filename := ⟨[], true, false, false⟩, question_of_sudoku := ⟨[], true, true, false⟩,
                  input := .finished, work := .solving (filled '*'),
                  printed := [chars (filled '.'), chars (filled '-')] }

def printedAll : State :=
  { queue_of_filename := ⟨[], true, false, false⟩, question_of_sudoku := ⟨[], true, false, false⟩,
    answer_of_sudoku := ⟨[], true, false, false⟩, pre := .finished, input := .finished, work := .finished,
    output := .finished, printed := [chars (filled '.'), chars (filled '-'), chars (filled '*')] }

theorem pipeline_in_order_two_files :
    List.Forall₂ Solves (([['a'], ['b']].flatMap (linesOf twoFiles)).take 3) printedAll.printed ∧
      List.Forall₂ Solves ([['a'], ['b']].flatMap (linesOf twoFiles)) printedAll.printed := by
  have start : (State.start [['a'], ['b']]).inTurn twoFiles 30 = atStops := by decide +kernel
  have stops : atStops.goOn twoFiles 20 (chars (filled '.')) = atDashes := by decide +kernel
  have dashes : atDashes.goOn twoFiles 20 (chars (filled '-')) = atStars := by decide +kernel
  have stars : atStars.goOn twoFiles 40 (chars (filled '*')) = printedAll := by decide +kernel
  obtain ⟨_, one⟩ := State.run_inTurn twoFiles 30 (State.start [['a'], ['b']])
  obtain ⟨_, two⟩ := State.run_goOn (s := atStops) twoFiles 20 rfl solves_stops
  obtain ⟨_, three⟩ := State.run_goOn (s := atDashes) twoFiles 20 rfl solves_dashes
  obtain ⟨_, four⟩ := State.run_goOn (s := atStars) twoFiles 40 rfl solves_stars
  rw [start] at one
  rw [stops] at two
  rw [dashes] at three
  rw [stars] at four
  obtain ⟨printed, all⟩ := pipeline_in_order (((one.trans two).trans three).trans four)
  exact ⟨printed, all ⟨rfl, Or.inl rfl, rfl, rfl⟩⟩

end CloudLab.Sudoku
