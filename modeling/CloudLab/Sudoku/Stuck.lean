import CloudLab.Sudoku.Pipeline

/-! When the four threads of the solver can come to a halt before they have returned: a file
that cannot be opened ends `input_func` without its flag, and a flag that is set between a
consumer's test and its block is announced to nobody. -/

namespace CloudLab.Sudoku

open CloudLab Text

inductive Thread
  | pre | input | work | output
  deriving DecidableEq

def Thread.event : Thread → Event
  | pre => .pre
  | input => .input
  | work => .work
  | output => .output

def Input.openable (disk : Str → Option Str) : Input → Bool
  | .opening file => (disk file).isSome
  | _ => true

namespace State

def Waits (s : State) : Thread → Prop
  | .pre => False
  | .input => s.input = .gate .asleep ∧ s.queue_of_filename.waiting = true
  | .work => s.work = .gate .asleep ∧ s.question_of_sudoku.waiting = true
  | .output => s.output = .gate .asleep ∧ s.answer_of_sudoku.waiting = true

def Locked (s : State) : Thread → Prop
  | .pre => (∃ file_name left, s.pre = .lock file_name left) ∧ s.queue_of_filename.locked = true
  | .input => (s.input = .gate .lock ∨ s.input = .gate .asleep) ∧ s.queue_of_filename.locked = true ∨
      (∃ line rest, s.input = .lock line rest) ∧ s.question_of_sudoku.locked = true
  | .work => (s.work = .gate .lock ∨ s.work = .gate .asleep) ∧ s.question_of_sudoku.locked = true
  | .output => (s.output = .gate .lock ∨ s.output = .gate .asleep) ∧ s.answer_of_sudoku.locked = true

def Blocked (s : State) (thread : Thread) : Prop := s.Waits thread ∨ s.Locked thread

def Returned (s : State) : Thread → Prop
  | .pre => s.pre = .finished
  | .input => s.input = .finished ∨ s.input = .failed
  | .work => s.work = .finished
  | .output => s.output = .finished

def Halted (s : State) (thread : Thread) : Prop := s.Returned thread ∨ s.Blocked thread

/-- A thread is blocked on a condition variable, and no other can wake it up. -/
def Stuck (s : State) : Prop := ∃ thread, s.Waits thread ∧ ∀ other, other ≠ thread → s.Halted other

/-- The step opens no missing file, and does not give the last notification of a queue while
its consumer has seen the flag unset and is not blocked yet. -/
def Heard (disk : Str → Option Str) (s : State) : Event → Prop
  | .pre => s.pre = .notifyDone → s.input ≠ .gate .block
  | .input => s.input.openable disk = true ∧ (s.input = .notifyDone → s.work ≠ .gate .block)
  | .work => s.work = .notifyDone → s.output ≠ .gate .block
  | .solve _ | .output | .wakeInput | .wakeWork | .wakeOutput => True

instance (disk : Str → Option Str) (s : State) (event : Event) : Decidable (s.Heard disk event) :=
  match event with
  | .pre => inferInstanceAs (Decidable (s.pre = .notifyDone → s.input ≠ .gate .block))
  | .input =>
    inferInstanceAs (Decidable (s.input.openable disk = true ∧ (s.input = .notifyDone → s.work ≠ .gate .block)))
  | .work => inferInstanceAs (Decidable (s.work = .notifyDone → s.output ≠ .gate .block))
  | .solve _ | .output | .wakeInput | .wakeWork | .wakeOutput => isTrue trivial

end State

/-! Who holds each mutex, and which consumer has missed the end of its queue. -/

def Pre.Owns : Pre → Prop
  | push _ _ | unlock _ => True
  | _ => False

namespace Input

def OwnsNames : Input → Prop
  | gate g => g.Owns
  | flag | notifyDone | finished | failed => False
  | _ => True

def OwnsLines : Input → Prop
  | push _ _ | notify _ | unlock _ => True
  | _ => False

def Missed (c : Channel Str) : Input → Prop
  | gate g => g.Missed c
  | _ => False

theorem ownsNames_ahead {a : Ahead} (owns : a.Owns) : (Input.ahead a).OwnsNames := by
  cases a with
  | wait g => exact owns
  | take => trivial
  | stop => trivial

theorem missed_ahead {a : Ahead} {c : Channel Str} (missed : (Input.ahead a).Missed c) : a.Missed c := by
  cases a with
  | wait g => exact missed
  | take => exact missed
  | stop => exact missed

theorem ahead_open (a : Ahead) : ¬ (Input.ahead a).Over ∧ Input.ahead a ≠ failed := by
  cases a with
  | wait | take | stop => exact ⟨id, fun same => nomatch same⟩

theorem Missed.of_waiting {input : Input} {c c' : Channel Str} (missed : input.Missed c)
    (same : c.waiting = true → c'.waiting = true) : input.Missed c' := by
  cases input with
  | gate g => exact Gate.Missed.of_waiting missed same
  | front | pop | opening | getline | lock | push | notify | unlock | release | closing | flag | notifyDone
  | finished | failed => exact missed.elim

theorem missed_notify {input : Input} {c : Channel Str} (missed : input.Missed c.notify) : input = gate .block := by
  cases input with
  | gate g => rw [Gate.missed_notify missed]
  | front | pop | opening | getline | lock | push | notify | unlock | release | closing | flag | notifyDone
  | finished | failed => exact missed.elim

end Input

namespace Work

def Owns : Work → Prop
  | gate g => g.Owns
  | flag | notifyDone | finished => False
  | _ => True

def Missed (c : Channel Str) : Work → Prop
  | gate g => g.Missed c
  | _ => False

theorem owns_ahead {a : Ahead} (owns : a.Owns) : (Work.ahead a).Owns := by
  cases a with
  | wait g => exact owns
  | take => trivial
  | stop => trivial

theorem missed_ahead {a : Ahead} {c : Channel Str} (missed : (Work.ahead a).Missed c) : a.Missed c := by
  cases a with
  | wait g => exact missed
  | take => exact missed
  | stop => exact missed

theorem ahead_open (a : Ahead) : ¬ (Work.ahead a).Over := by
  cases a with
  | wait | take | stop => exact id

theorem Missed.of_waiting {work : Work} {c c' : Channel Str} (missed : work.Missed c)
    (same : c.waiting = true → c'.waiting = true) : work.Missed c' := by
  cases work with
  | gate g => exact Gate.Missed.of_waiting missed same
  | front | pop | solving | push | notify | unlock | closing | flag | notifyDone | finished => exact missed.elim

theorem missed_notify {work : Work} {c : Channel Str} (missed : work.Missed c.notify) : work = gate .block := by
  cases work with
  | gate g => rw [Gate.missed_notify missed]
  | front | pop | solving | push | notify | unlock | closing | flag | notifyDone | finished => exact missed.elim

end Work

namespace Output

def Missed (c : Channel Answer) : Output → Prop
  | gate g => g.Missed c
  | _ => False

theorem missed_ahead {a : Ahead} {c : Channel Answer} (missed : (Output.ahead a).Missed c) : a.Missed c := by
  cases a with
  | wait g => exact missed
  | take => exact missed
  | stop => exact missed

theorem Missed.of_waiting {output : Output} {c c' : Channel Answer} (missed : output.Missed c)
    (same : c.waiting = true → c'.waiting = true) : output.Missed c' := by
  cases output with
  | gate g => exact Gate.Missed.of_waiting missed same
  | print | pop | unlock | closing | finished => exact missed.elim

theorem missed_notify {output : Output} {c : Channel Answer} (missed : output.Missed c.notify) :
    output = gate .block := by
  cases output with
  | gate g => rw [Gate.missed_notify missed]
  | print | pop | unlock | closing | finished => exact missed.elim

end Output

namespace State

variable {disk : Str → Option Str} {names : List Str} {s t : State}

/-- A mutex is only taken by a thread that will release it, and a consumer whose producer has
returned is neither blocked nor about to be. -/
structure Awake (s : State) : Prop where
  names : s.queue_of_filename.locked = true → s.pre.Owns ∨ s.input.OwnsNames
  lines : s.question_of_sudoku.locked = true → s.input.OwnsLines ∨ s.work.Owns
  read_file_done : s.pre.Over → s.queue_of_filename.done = true
  read_question_done : s.input.Over → s.question_of_sudoku.done = true
  work_done : s.work.Over → s.answer_of_sudoku.done = true
  input : s.pre = .finished → ¬ s.input.Missed s.queue_of_filename
  work : s.input = .finished → ¬ s.work.Missed s.question_of_sudoku
  output : s.work = .finished → ¬ s.output.Missed s.answer_of_sudoku
  opened : s.input ≠ .failed

namespace Awake

theorem start (names : List Str) : Awake (start names) where
  names := fun taken => nomatch taken
  lines := fun taken => nomatch taken
  read_file_done := False.elim
  read_question_done := False.elim
  work_done := False.elim
  input := fun finished => nomatch finished
  work := fun finished => nomatch finished
  output := fun finished => nomatch finished
  opened := fun failed => nomatch failed

theorem feedNames (awake : Awake s) {c : Channel Str} {pre : Pre}
    (names : c.locked = true → pre.Owns ∨ s.input.OwnsNames) (set : pre.Over → c.done = true)
    (heard : pre = .finished → ¬ s.input.Missed c) :
    Awake { s with queue_of_filename := c, pre := pre } :=
  { awake with
    names := names
    read_file_done := set
    input := heard }

theorem pre_func (awake : Awake s) (step : s.pre_func = some t)
    (heard : s.pre = .notifyDone → s.input ≠ .gate .block) : Awake t := by
  have others (free : ¬ s.pre.Owns) (taken : s.queue_of_filename.locked = true) : s.input.OwnsNames :=
    (awake.names taken).resolve_left free
  unfold State.pre_func at step
  cases turn : s.pre with
  | read left =>
    rw [turn] at others step
    cases left with
    | nil =>
      cases step
      exact awake.feedNames (fun taken => Or.inr (others id taken)) False.elim nofun
    | cons file_name left =>
      cases step
      exact awake.feedNames (fun taken => Or.inr (others id taken)) False.elim nofun
  | lock file_name left =>
    rw [turn] at step
    obtain ⟨c, _, rfl⟩ := Option.map_eq_some_iff.mp step
    exact awake.feedNames (fun _ => Or.inl trivial) False.elim nofun
  | push file_name left =>
    rw [turn] at step
    cases step
    exact awake.feedNames (fun _ => Or.inl trivial) False.elim nofun
  | unlock left =>
    rw [turn] at step
    cases step
    exact awake.feedNames nofun False.elim nofun
  | notify left =>
    rw [turn] at others step
    cases step
    exact awake.feedNames (fun taken => Or.inr (others id taken)) False.elim nofun
  | flag =>
    rw [turn] at others step
    cases step
    exact awake.feedNames (fun taken => Or.inr (others id taken)) (fun _ => rfl) nofun
  | notifyDone =>
    have set := awake.read_file_done (by rw [turn]; trivial)
    rw [turn] at others step
    cases step
    exact awake.feedNames (fun taken => Or.inr (others id taken)) (fun _ => set)
      (fun _ missed => heard turn (Input.missed_notify missed))
  | finished =>
    rw [turn] at step
    cases step

theorem takeName (awake : Awake s) {c : Channel Str} {input : Input}
    (names : c.locked = true → s.pre.Owns ∨ input.OwnsNames) (lines : ¬ s.input.OwnsLines)
    (done : c.done = s.queue_of_filename.done) (heard : s.pre = .finished → ¬ input.Missed c)
    (open_ : ¬ input.Over ∧ input ≠ .failed) : Awake { s with queue_of_filename := c, input := input } :=
  { awake with
    names := names
    lines := fun taken => Or.inr ((awake.lines taken).resolve_left lines)
    read_file_done := fun set => done.trans (awake.read_file_done set)
    read_question_done := fun set => absurd set open_.1
    input := heard
    work := fun finished => absurd (show input.Over by rw [show input = .finished from finished]; trivial) open_.1
    opened := open_.2 }

theorem feedLine (awake : Awake s) {c : Channel Str} {input : Input}
    (names : s.queue_of_filename.locked = true → s.pre.Owns ∨ input.OwnsNames)
    (lines : c.locked = true → input.OwnsLines ∨ s.work.Owns) (set : input.Over → c.done = true)
    (missed : ¬ input.Missed s.queue_of_filename) (heard : input = .finished → ¬ s.work.Missed c)
    (opened : input ≠ .failed) : Awake { s with question_of_sudoku := c, input := input } :=
  { awake with
    names := names
    lines := lines
    read_question_done := set
    input := fun _ => missed
    work := heard
    opened := opened }

theorem input_func (awake : Awake s) (step : s.input_func disk = some t)
    (openable : s.input.openable disk = true) (heard : s.input = .notifyDone → s.work ≠ .gate .block) : Awake t := by
  have pre (free : ¬ s.input.OwnsNames) (taken : s.queue_of_filename.locked = true) : s.pre.Owns :=
    (awake.names taken).resolve_right free
  have work (free : ¬ s.input.OwnsLines) (taken : s.question_of_sudoku.locked = true) : s.work.Owns :=
    (awake.lines taken).resolve_left free
  unfold State.input_func at step
  cases turn : s.input with
  | gate g =>
    rw [turn] at step
    obtain ⟨⟨c, a⟩, moved, rfl⟩ := Option.map_eq_some_iff.mp step
    refine awake.takeName ?_ (by rw [turn]; exact id) (Gate.next_same moved).2 ?_ (Input.ahead_open a)
    · exact fun taken => Or.inr (Input.ownsNames_ahead (Gate.next_owns moved taken))
    · intro finished missed
      have before := awake.input finished
      have set := awake.read_file_done (by rw [finished]; trivial)
      rw [turn] at before
      exact Gate.next_heard moved set before (Input.missed_ahead missed)
  | front =>
    rw [turn] at step
    obtain ⟨file, _, rfl⟩ := Option.map_eq_some_iff.mp step
    exact awake.takeName (fun _ => Or.inr trivial) (by rw [turn]; exact id) rfl (fun _ => id) ⟨id, nofun⟩
  | pop file =>
    rw [turn] at step
    obtain ⟨c, popped, rfl⟩ := Option.map_eq_some_iff.mp step
    exact awake.takeName (fun _ => Or.inr trivial) (by rw [turn]; exact id) (Channel.pop_done popped) (fun _ => id) ⟨id, nofun⟩
  | opening file =>
    rw [turn] at openable step
    cases found : disk file with
    | none => simp [Input.openable, found] at openable
    | some content =>
      simp only [found, Option.some.injEq] at step
      subst step
      exact awake.takeName (fun _ => Or.inr trivial) (by rw [turn]; exact id) rfl (fun _ => id) ⟨id, nofun⟩
  | getline rest =>
    rw [turn] at work step
    cases rest with
    | nil =>
      cases step
      exact awake.feedLine (fun _ => Or.inr trivial) (fun taken => Or.inr (work id taken)) False.elim id nofun nofun
    | cons line rest =>
      cases step
      exact awake.feedLine (fun _ => Or.inr trivial) (fun taken => Or.inr (work id taken)) False.elim id nofun nofun
  | lock line rest =>
    rw [turn] at step
    obtain ⟨c, _, rfl⟩ := Option.map_eq_some_iff.mp step
    exact awake.feedLine (fun _ => Or.inr trivial) (fun _ => Or.inl trivial) False.elim id nofun nofun
  | push line rest =>
    rw [turn] at step
    cases step
    exact awake.feedLine (fun _ => Or.inr trivial) (fun _ => Or.inl trivial) False.elim id nofun nofun
  | notify rest =>
    rw [turn] at step
    cases step
    exact awake.feedLine (fun _ => Or.inr trivial) (fun _ => Or.inl trivial) False.elim id nofun nofun
  | unlock rest =>
    rw [turn] at step
    cases step
    exact awake.feedLine (fun _ => Or.inr trivial) nofun False.elim id nofun nofun
  | release =>
    rw [turn] at step
    cases step
    exact awake.takeName nofun (by rw [turn]; exact id) rfl (fun _ => id) ⟨id, nofun⟩
  | closing =>
    rw [turn] at step
    cases step
    exact awake.takeName nofun (by rw [turn]; exact id) rfl (fun _ => id) ⟨id, nofun⟩
  | flag =>
    rw [turn] at pre work step
    cases step
    exact awake.feedLine (fun taken => Or.inl (pre id taken)) (fun taken => Or.inr (work id taken)) (fun _ => rfl) id
      nofun nofun
  | notifyDone =>
    have set := awake.read_question_done (by rw [turn]; trivial)
    rw [turn] at pre work step
    cases step
    exact awake.feedLine (fun taken => Or.inl (pre id taken)) (fun taken => Or.inr (work id taken)) (fun _ => set) id
      (fun _ missed => heard turn (Work.missed_notify missed)) nofun
  | finished =>
    rw [turn] at step
    cases step
  | failed =>
    rw [turn] at step
    cases step

theorem takeLine (awake : Awake s) {c : Channel Str} {work : Work}
    (lines : c.locked = true → s.input.OwnsLines ∨ work.Owns) (done : c.done = s.question_of_sudoku.done)
    (heard : s.input = .finished → ¬ work.Missed c) (open_ : ¬ work.Over) :
    Awake { s with question_of_sudoku := c, work := work } :=
  { awake with
    lines := lines
    read_question_done := fun set => done.trans (awake.read_question_done set)
    work_done := fun set => absurd set open_
    work := heard
    output := fun finished => absurd (show work.Over by rw [show work = .finished from finished]; trivial) open_ }

theorem feedAnswer (awake : Awake s) {c : Channel Answer} {work : Work}
    (lines : s.question_of_sudoku.locked = true → s.input.OwnsLines ∨ work.Owns) (set : work.Over → c.done = true)
    (missed : ¬ work.Missed s.question_of_sudoku) (heard : work = .finished → ¬ s.output.Missed c) :
    Awake { s with answer_of_sudoku := c, work := work } :=
  { awake with
    lines := lines
    work_done := set
    work := fun _ => missed
    output := heard }

theorem work_func (awake : Awake s) (step : s.work_func = some t)
    (heard : s.work = .notifyDone → s.output ≠ .gate .block) : Awake t := by
  have input (free : ¬ s.work.Owns) (taken : s.question_of_sudoku.locked = true) : s.input.OwnsLines :=
    (awake.lines taken).resolve_right free
  unfold State.work_func at step
  cases turn : s.work with
  | gate g =>
    rw [turn] at step
    obtain ⟨⟨c, a⟩, moved, rfl⟩ := Option.map_eq_some_iff.mp step
    refine awake.takeLine ?_ (Gate.next_same moved).2 ?_ (Work.ahead_open a)
    · exact fun taken => Or.inr (Work.owns_ahead (Gate.next_owns moved taken))
    · intro finished missed
      have before := awake.work finished
      have set := awake.read_question_done (by rw [finished]; trivial)
      rw [turn] at before
      exact Gate.next_heard moved set before (Work.missed_ahead missed)
  | front =>
    rw [turn] at step
    obtain ⟨str, _, rfl⟩ := Option.map_eq_some_iff.mp step
    exact awake.takeLine (fun _ => Or.inr trivial) rfl (fun _ => id) id
  | pop str =>
    rw [turn] at step
    obtain ⟨c, popped, rfl⟩ := Option.map_eq_some_iff.mp step
    exact awake.takeLine (fun _ => Or.inr trivial) (Channel.pop_done popped) (fun _ => id) id
  | solving str =>
    rw [turn] at step
    cases step
  | push out =>
    rw [turn] at step
    cases step
    exact awake.feedAnswer (fun _ => Or.inr trivial) False.elim id nofun
  | notify =>
    rw [turn] at step
    cases step
    exact awake.feedAnswer (fun _ => Or.inr trivial) False.elim id nofun
  | unlock =>
    rw [turn] at step
    cases step
    exact awake.takeLine nofun rfl (fun _ => id) id
  | closing =>
    rw [turn] at step
    cases step
    exact awake.takeLine nofun rfl (fun _ => id) id
  | flag =>
    rw [turn] at input step
    cases step
    exact awake.feedAnswer (fun taken => Or.inl (input id taken)) (fun _ => rfl) id nofun
  | notifyDone =>
    have set := awake.work_done (by rw [turn]; trivial)
    rw [turn] at input step
    cases step
    exact awake.feedAnswer (fun taken => Or.inl (input id taken)) (fun _ => set) id
      (fun _ missed => heard turn (Output.missed_notify missed))
  | finished =>
    rw [turn] at step
    cases step

theorem solve (awake : Awake s) {str : Str} (turn : s.work = .solving str) (out : Answer) :
    Awake { s with work := .push out } := by
  have lines := awake.lines
  rw [turn] at lines
  exact awake.feedAnswer lines False.elim id nofun

theorem takeAnswer (awake : Awake s) {c : Channel Answer} {output : Output} {printed : List Answer}
    (done : c.done = s.answer_of_sudoku.done) (heard : s.work = .finished → ¬ output.Missed c) :
    Awake { s with answer_of_sudoku := c, output := output, printed := printed } :=
  { awake with
    work_done := fun set => done.trans (awake.work_done set)
    output := heard }

theorem output_func (awake : Awake s) (step : s.output_func = some t) : Awake t := by
  unfold State.output_func at step
  cases turn : s.output with
  | gate g =>
    rw [turn] at step
    obtain ⟨⟨c, a⟩, moved, rfl⟩ := Option.map_eq_some_iff.mp step
    refine awake.takeAnswer (Gate.next_same moved).2 ?_
    intro finished missed
    have before := awake.output finished
    have set := awake.work_done (by rw [finished]; trivial)
    rw [turn] at before
    exact Gate.next_heard moved set before (Output.missed_ahead missed)
  | print =>
    rw [turn] at step
    obtain ⟨out, _, rfl⟩ := Option.map_eq_some_iff.mp step
    exact awake.takeAnswer rfl (fun _ => id)
  | pop =>
    rw [turn] at step
    obtain ⟨c, popped, rfl⟩ := Option.map_eq_some_iff.mp step
    exact awake.takeAnswer (Channel.pop_done popped) (fun _ => id)
  | unlock =>
    rw [turn] at step
    cases step
    exact awake.takeAnswer rfl (fun _ => id)
  | closing =>
    rw [turn] at step
    cases step
    exact awake.takeAnswer rfl (fun _ => id)
  | finished =>
    rw [turn] at step
    cases step

theorem step (awake : Awake s) {event : Event} (step : s.Step disk event t) (heard : s.Heard disk event) : Awake t := by
  have moved := step.1
  cases event with
  | pre => exact awake.pre_func moved heard
  | input => exact awake.input_func moved heard.1 heard.2
  | work => exact awake.work_func moved heard
  | output => exact awake.output_func moved
  | solve out =>
    cases turn : s.work with
    | solving str =>
      simp only [next, turn, if_true, Option.some.injEq] at moved
      subst moved
      exact awake.solve turn out
    | gate | front | pop | push | notify | unlock | closing | flag | notifyDone | finished =>
      simp [next, turn] at moved
  | wakeInput =>
    cases moved
    exact awake.feedNames awake.names awake.read_file_done
      (fun finished missed => awake.input finished (missed.of_waiting Bool.noConfusion))
  | wakeWork =>
    cases moved
    exact { awake with
      lines := awake.lines
      work := fun finished missed => awake.work finished (missed.of_waiting Bool.noConfusion) }
  | wakeOutput =>
    cases moved
    exact awake.takeAnswer rfl (fun finished missed => awake.output finished (missed.of_waiting Bool.noConfusion))

theorem run {events : List Event}
    (run : Run (fun s event t => State.Step disk s event t ∧ s.Heard disk event) (State.start names) events s) : Awake s :=
  run.invariant Awake (fun _ _ _ awake step => awake.step step.1 step.2) (start names)

end Awake

theorem pre_goes_on (owns : s.pre.Owns) : ¬ s.Halted .pre := by
  unfold Halted Blocked Returned Waits Locked
  cases turn : s.pre with
  | push file_name left => simp
  | unlock left => simp
  | read | lock | notify | flag | notifyDone | finished =>
    rw [turn] at owns
    exact owns.elim

theorem input_goes_on (owns : s.input.OwnsLines) : ¬ s.Halted .input := by
  unfold Halted Blocked Returned Waits Locked
  cases turn : s.input with
  | push line rest => simp
  | notify rest => simp
  | unlock rest => simp
  | gate | front | pop | opening | getline | lock | release | closing | flag | notifyDone | finished | failed =>
    rw [turn] at owns
    exact owns.elim

/-- A thread that cannot take a step has returned or is blocked, unless the solver is at work. -/
theorem next_none_iff (inv : Inv disk names s) (thread : Thread) :
    s.next disk thread.event = none ↔ s.Halted thread ∨ thread = .work ∧ ∃ str, s.work = .solving str := by
  unfold Halted Blocked Returned Waits Locked
  cases thread with
  | pre =>
    change s.pre_func = none ↔ _
    unfold State.pre_func
    cases turn : s.pre with
    | lock file_name left => simp [Channel.lock_none]
    | read left => cases left <;> simp
    | push | unlock | notify | flag | notifyDone | finished => simp
  | input =>
    change s.input_func disk = none ↔ _
    have known := inv.input
    unfold State.input_func
    cases turn : s.input with
    | gate g => simp [Gate.next_none, or_comm]
    | front =>
      rw [turn] at known
      have filled : s.queue_of_filename.queue ≠ [] := known
      simp [Channel.front, filled]
    | pop file =>
      rw [turn] at known
      obtain ⟨rest, queue⟩ := known
      simp [Channel.pop, queue]
    | opening file => cases found : disk file <;> simp [found]
    | getline rest => cases rest <;> simp
    | lock line rest => simp [Channel.lock_none]
    | push | notify | unlock | release | closing | flag | notifyDone | finished | failed => simp
  | work =>
    change s.work_func = none ↔ _
    have known := inv.work
    unfold State.work_func
    cases turn : s.work with
    | gate g => simp [Gate.next_none]
    | front =>
      rw [turn] at known
      have filled : s.question_of_sudoku.queue ≠ [] := known
      simp [Channel.front, filled]
    | pop str =>
      rw [turn] at known
      obtain ⟨rest, queue⟩ := known
      simp [Channel.pop, queue]
    | solving | push | notify | unlock | closing | flag | notifyDone | finished => simp
  | output =>
    change s.output_func = none ↔ _
    have known := inv.output
    unfold State.output_func
    cases turn : s.output with
    | gate g => simp [Gate.next_none]
    | print =>
      rw [turn] at known
      have filled : s.answer_of_sudoku.queue ≠ [] := known
      simp [Channel.front, filled]
    | pop =>
      rw [turn] at known
      obtain ⟨out, rest, queue⟩ := List.exists_cons_of_ne_nil known
      simp [Channel.pop, queue]
    | unlock | closing | finished => simp

namespace Awake

theorem input_waits (awake : Awake s) (waits : s.Waits .input) : ¬ s.Halted .pre := by
  obtain ⟨turn, waiting⟩ := waits
  intro halted
  rcases halted with finished | blocked | ⟨⟨file_name, left, lock⟩, taken⟩
  · exact awake.input finished (by rw [turn]; exact waiting)
  · exact blocked
  · have owner := awake.names taken
    rw [turn, lock] at owner
    exact owner.elim id id

theorem work_waits (awake : Awake s) (waits : s.Waits .work) (input : s.Halted .input) : ¬ s.Halted .pre := by
  obtain ⟨turn, waiting⟩ := waits
  rcases input with (finished | failed) | blocked | ⟨gate, taken⟩ | ⟨⟨line, rest, lock⟩, taken⟩
  · exact absurd (by rw [turn]; exact waiting) (awake.work finished)
  · exact absurd failed awake.opened
  · exact awake.input_waits blocked
  · have free : ¬ s.input.OwnsNames := by
      rcases gate with gate | gate <;> rw [gate] <;> exact id
    exact pre_goes_on ((awake.names taken).resolve_right free)
  · have owner := awake.lines taken
    rw [turn, lock] at owner
    exact owner.elim False.elim False.elim

theorem output_waits (awake : Awake s) (waits : s.Waits .output) (work : s.Halted .work) (input : s.Halted .input) :
    ¬ s.Halted .pre := by
  obtain ⟨turn, waiting⟩ := waits
  rcases work with finished | blocked | ⟨gate, taken⟩
  · exact absurd (by rw [turn]; exact waiting) (awake.output finished)
  · exact awake.work_waits blocked input
  · have free : ¬ s.work.Owns := by
      rcases gate with gate | gate <;> rw [gate] <;> exact id
    exact absurd input (input_goes_on ((awake.lines taken).resolve_right free))

theorem not_stuck (awake : Awake s) : ¬ s.Stuck := by
  rintro ⟨thread, waits, halted⟩
  cases thread with
  | pre => exact waits
  | input => exact awake.input_waits waits (halted .pre nofun)
  | work => exact awake.work_waits waits (halted .input nofun) (halted .pre nofun)
  | output => exact awake.output_waits waits (halted .work nofun) (halted .input nofun) (halted .pre nofun)

end Awake

end State

/-- As long as every file can be opened and no consumer is between its test of the flag and
its block when it is last notified, the solver does not come to a halt. -/
theorem never_stuck {disk : Str → Option Str} {names : List Str} {events : List Event} {s : State}
    (run : Run (fun s event t => State.Step disk s event t ∧ s.Heard disk event) (State.start names) events s) :
    ¬ s.Stuck :=
  (State.Awake.run run).not_stuck

def noLines : Str → Option Str := fun _ => some []

/-- `pre_func` and `input_func` have returned, and the last notification has woken `work_func` up. -/
def notified : State :=
  { queue_of_filename := ⟨[], true, false, false⟩, question_of_sudoku := ⟨[], true, false, false⟩,
    answer_of_sudoku := ⟨[], false, false, true⟩, pre := .finished, input := .finished,
    work := .gate .asleep, output := .gate .asleep, printed := [] }

theorem never_stuck_notified : ¬ notified.Stuck := by
  have executed : execute (fun s event => if s.Heard noLines event then s.quiet noLines event else none)
      (State.start [['a']]) (List.replicate 4 Event.input ++ List.replicate 4 Event.work ++
        List.replicate 4 Event.output ++ List.replicate 5 Event.pre ++ List.replicate 12 Event.input ++
        List.replicate 3 Event.pre ++ List.replicate 8 Event.input) = some notified := by decide +kernel
  exact never_stuck ((run_of_checked executed).mono fun _ _ _ step => ⟨State.step_quiet step.1, step.2⟩)

/-- Every file holds one line of full stops. -/
def stops : Str → Option Str := fun _ => some (List.replicate 81 '.')

/-- With no name at all `pre_func` is done before `input_func` blocks; and a file that cannot
be opened leaves `work_func` without its flag. -/
theorem stuck_runs :
    (∃ events s, Run (State.Step stops) (State.start []) events s ∧ s.Stuck) ∧
      ∃ events s, Run (State.Step fun _ => none) (State.start [['a']]) events s ∧ s.Stuck := by
  let lost : State :=
    { queue_of_filename := ⟨[], true, false, true⟩, question_of_sudoku := ⟨[], false, false, true⟩,
      answer_of_sudoku := ⟨[], false, false, true⟩, pre := .finished, input := .gate .asleep,
      work := .gate .asleep, output := .gate .asleep, printed := [] }
  have late : execute (State.quiet stops) (State.start [])
      ([Event.pre, .input, .input, .input, .pre, .pre, .input] ++ List.replicate 4 Event.work ++
        List.replicate 4 Event.output) = some lost := by decide +kernel
  let missing : State := { lost with queue_of_filename := ⟨[], true, false, false⟩, input := .failed }
  have failed : execute (State.quiet fun _ => none) (State.start [['a']])
      (List.replicate 8 Event.pre ++ List.replicate 6 Event.input ++ List.replicate 4 Event.work ++
        List.replicate 4 Event.output) = some missing := by decide +kernel
  constructor
  · refine ⟨_, lost, State.run_quiet late, .input, ⟨rfl, rfl⟩, fun other different => ?_⟩
    cases other with
    | pre => exact Or.inl rfl
    | input => exact absurd rfl different
    | work => exact Or.inr (Or.inl ⟨rfl, rfl⟩)
    | output => exact Or.inr (Or.inl ⟨rfl, rfl⟩)
  · refine ⟨_, missing, State.run_quiet failed, .work, ⟨rfl, rfl⟩, fun other different => ?_⟩
    cases other with
    | pre => exact Or.inl rfl
    | input => exact Or.inl (Or.inr rfl)
    | work => exact absurd rfl different
    | output => exact Or.inr (Or.inl ⟨rfl, rfl⟩)

end CloudLab.Sudoku
