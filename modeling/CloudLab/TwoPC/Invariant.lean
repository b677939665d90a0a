import CloudLab.Library.Tally
import CloudLab.TwoPC.Outlook

/-! The invariant of the whole system: what the coordinator's variables say, and the
stage that each participant still marked `vaild` is in. -/

namespace CloudLab.TwoPC
open Text ByteStream Tally

structure Outcome (mode : Mode) (db : Db) (t : Txn) (reply : Str) (l : Link) : Prop where
  done : reply ≠ getClientERRORMsg → l.closed = [] ∧ l.current = none ∧ l.site.process.phase = 1 ∧
    l.site.process.db = db ∧ (¬ mode.pend → t.id ∈ l.site.commits)
  failed : reply = getClientERRORMsg → ¬ mode.pend → mode.whole → l.site.commits = []

/-- A participant whose replies the coordinator waits for, or has waited for. -/
def WaitLink (mode : Mode) (db : Db) (t : Txn) (w : Wait) (i : Nat) (l : Link) : Phase → Prop
  | .prepare =>
      w.participantSocket i = true ∧
        (w.allFdSet i = true → Follows mode (asked mode db t) l) ∧
        (w.allFdSet i = false → Follows mode (ready mode db t) l)
  | .decision commit =>
      (w.participantSocket i = true → Follows mode (decided mode db t commit) l ∧ Answered t l) ∧
        (w.participantSocket i = false → Finished mode db t commit l)
  | .get _ =>
      (w.participantSocket i = true → Follows mode (asking mode db t) l) ∧
        (w.participantSocket i = false → Quiet mode db l)

def SendLink (mode : Mode) (db : Db) (t : Txn) (todo : List Nat) (i : Nat) (l : Link) : Phase → Prop
  | .prepare =>
      (i ∈ todo → Follows mode (unsent mode db t) l) ∧ (i ∉ todo → Follows mode (asked mode db t) l)
  | .decision commit =>
      (i ∈ todo → Follows mode (ready mode db t) l) ∧
        (i ∉ todo → Follows mode (decided mode db t commit) l ∧ Answered t l)
  | .get _ => False

/-- The stage of a participant, by where the coordinator is. -/
def LinkInv (mode : Mode) (db : Db) (control : Control) (i : Nat) (l : Link) : Prop :=
  match control with
  | .idle last => Quiet mode db l ∧ ∀ t reply, last = some (t, reply) →
      t.split_message[0]? ≠ some GET → Outcome mode db t reply l
  | .connectAll t participantSocket _ todo =>
      (i ∈ todo → Waiting mode db t l) ∧
        (i ∉ todo → participantSocket i = true ∧ Follows mode (unsent mode db t) l)
  | .sendAll t phase participantSocket _ todo =>
      participantSocket i = true ∧ SendLink mode db t todo i l phase
  | .wait t phase w => WaitLink mode db t w i l phase
  | .getNext _ _ => Quiet mode db l

def Sockets (n : Nat) (vaild participantSocket : Nat → Bool) : Prop :=
  ∀ i, participantSocket i = true → i < n ∧ vaild i = true

def Phase.Says (mode : Mode) (db : Db) (t : Txn) : Phase → Str → Prop
  | .prepare, message => message = preparedMsg t
  | .decision commit, message => DoneMsg db t commit message
  | .get _, message => GetReply mode db t message

def Phase.Fits (t : Txn) : Phase → Prop
  | .get _ => t.Reads
  | _ => t.Writes

structure WaitInv (n : Nat) (vaild : Nat → Bool) (w : Wait) : Prop where
  sockets : Sockets n vaild w.participantSocket
  monitored : ∀ i, w.allFdSet i = true → w.participantSocket i = true
  sorted : w.ready.Pairwise (· < ·)
  ready : ∀ i ∈ w.ready, w.allFdSet i = true

/-- `waitForPrepared`: the participants counted are those that have replied. -/
structure PrepareInv (mode : Mode) (n : Nat) (vaild : Nat → Bool) (w : Wait) : Prop
    extends WaitInv n vaild w where
  alive : w.aliveParticipantCount = tally n w.participantSocket
  count : w.count = tally n fun i => w.participantSocket i && !w.allFdSet i
  agreed : mode.whole → ∀ i, w.response i ≠ 0

/-- `waitForCommitOrAbort`: who has been counted has no socket any more. -/
structure DoneInv (mode : Mode) (n : Nat) (db : Db) (t : Txn) (phase : Phase) (vaild : Nat → Bool)
    (w : Wait) : Prop extends WaitInv n vaild w where
  alive : w.aliveParticipantCount = w.count + tally n w.participantSocket
  positive : 0 ≤ w.count
  all : ∀ i, w.participantSocket i = true → w.allFdSet i = true
  first : w.count ≠ 0 → mode.whole → ∃ message, phase.Says mode db t message ∧
    ∃ verdict fields, parseClusterMsg message = some (verdict, fields) ∧
      (verdict = true → w.response_split_msg = fields)

def ControlInv (mode : Mode) (n : Nat) (db : Db) (vaild : Nat → Bool) : Control → Prop
  | .idle _ => True
  | .connectAll t participantSocket alive todo =>
      t.Valid ∧ t.Writes ∧ Sockets n vaild participantSocket ∧ alive = tally n participantSocket ∧
        todo.Nodup ∧ ∀ i ∈ todo, i < n ∧ participantSocket i = false
  | .sendAll t phase participantSocket alive todo =>
      t.Valid ∧ t.Writes ∧ Sockets n vaild participantSocket ∧ alive = tally n participantSocket ∧
        todo.Nodup ∧ ∀ rest, phase ≠ .get rest
  | .wait t .prepare w => t.Valid ∧ t.Writes ∧ PrepareInv mode n vaild w
  | .wait t (.decision commit) w =>
      t.Valid ∧ t.Writes ∧ DoneInv mode n db t (.decision commit) vaild w ∧
        (w.count = 0 → ∀ i < n, vaild i = true → w.participantSocket i = true)
  | .wait t (.get todo) w =>
      t.Valid ∧ t.Reads ∧ DoneInv mode n db t (.get todo) vaild w ∧ (∀ i ∈ todo, i < n) ∧
        (mode.calm → w.count = 0 → ∃ i < n, w.participantSocket i = true)
  | .getNext t todo => t.Valid ∧ t.Reads ∧ ∀ i ∈ todo, i < n

/-- `db` is the store that every participant comes to hold. -/
structure Inv (mode : Mode) (n : Nat) (db : Db) (c : Cluster) : Prop where
  control : ControlInv mode n db c.vaild c.control
  links : ∀ i < n, c.vaild i = true → LinkInv mode db c.control i (c.links i)
  everyone : mode.calm → ∀ i < n, c.vaild i = true

/-- Between two sends of the COMMIT loop: one has been sent, and one has not. -/
def Cluster.InCommitLoop (n : Nat) (c : Cluster) : Prop :=
  match c.control with
  | .sendAll _ (.decision true) participantSocket _ todo =>
      (∃ i < n, participantSocket i = true ∧ i ∉ todo) ∧ ∃ i ∈ todo, participantSocket i = true
  | _ => False

/-- The steps under which the invariant is kept, in each mode. -/
def Allowed (mode : Mode) (n : Nat) (c : Cluster) : Event → Prop
  | .request _ id => mode.pend → ∀ i < n, ∀ s, drain Site.serve (c.links i).closed (c.links i).site = some s →
      s.process.phase = 2 → s.process.id ≠ id
  | .connect ok => mode.calm → ok = true
  | .reply k => ∀ t phase w i ready, c.control = .wait t phase w → w.ready = i :: ready →
      (mode.whole → Exact k (c.links i).inbox) ∧
        (¬ mode.calm → ∀ commit, phase = .decision commit →
          ∀ seg rest, (c.links i).inbox = seg :: rest → seg.message ≠ preparedMsg t)
  | .read i k => i < n → c.vaild i = true → (c.links i).ReadsExactly k ∧
      (mode.calm → ∀ l', (c.links i).read k = some l' → l'.running = true)
  | .timeout => ¬ mode.calm
  | .hangup _ => ¬ mode.calm
  | .lose _ _ _ => ¬ mode.calm
  | .stop _ => ¬ mode.calm
  | .kill => mode.pend ∧ mode.calm ∧ ¬ c.InCommitLoop n
  | _ => True

/-- The store after a step other than a kill: it changes when all have committed. -/
def nextStore (c : Cluster) (db : Db) : Event → Db
  | .proceed =>
      match c.control with
      | .wait t (.decision true) _ => t.apply db
      | _ => db
  | _ => db

section participants
variable {mode : Mode} {n : Nat} {db : Db} {t : Txn} {c c' : Cluster} {l l' : Link}

theorem executesCommit_clean {p : Participant} (clean : p.phase ≠ 2) (data : Str) :
    executesCommit p data = false := by
  unfold executesCommit
  split
  · simp [clean]
  · rfl

theorem Site.handle_commits {s s' : Site} {data : Str} {handled : Handled} (clean : s.process.phase ≠ 2)
    (result : s.handle data = some (handled, s')) : s'.commits = s.commits := by
  simp only [Site.handle, executesCommit_clean clean, Option.bind_eq_bind, Option.bind_eq_some_iff,
    Option.some.injEq, Prod.mk.injEq] at result
  obtain ⟨_, _, _, rfl⟩ := result
  simp

theorem Link.Moves.commits (moves : l.Moves mode l') (clean : l.site.process.phase ≠ 2) :
    l'.site.commits = l.site.commits := by
  cases moves with
  | read k _ _ _ step =>
    obtain ⟨_, conn, turn⟩ := Link.read_turn step
    cases turn with
    | crash => rfl
    | closed conns handled site closed result kind =>
      have same := Site.handle_commits clean result
      cases kind with
      | again => exact same
      | finish => exact same
      | shutdown _ stopped => rw [stopped]; exact same
    | current handled site closed current result kind =>
      have same := Site.handle_commits clean result
      cases kind with
      | again => exact same
      | finish => exact same
      | shutdown _ stopped => rw [stopped]; exact same
  | eof _ step =>
    unfold Link.eof at step
    split at step
    · cases step
      rfl
    · cases step
  | lose => rfl
  | stop => rfl

theorem Quiet.along (quiet : Quiet mode db l) : mode.pend ∨ Settled mode.pend db l.site :=
  quiet.2.2.holds

theorem Settled.clean {pend : Prop} {s : Site} (settled : Settled pend db s) (strict : ¬ pend) :
    s.process.phase = 1 ∧ s.process.db = db :=
  settled.resolve_right fun allowed => strict allowed.1

theorem Outcome.moves {reply : Str} (outcome : Outcome mode db t reply l) (quiet : Quiet mode db l)
    (moves : l.Moves mode l') : Outcome mode db t reply l' := by
  constructor
  · intro ok
    obtain ⟨closed, current, phase, store, commits⟩ := outcome.done ok
    obtain ⟨closed', current', site⟩ := moves.still closed current
    exact ⟨closed', current', by rw [site]; exact phase, by rw [site]; exact store, by rw [site]; exact commits⟩
  · intro error strict whole
    have clean := ((quiet.along).resolve_left strict).clean strict
    have notPending : l.site.process.phase ≠ 2 := by
      rw [clean.1]
      decide
    rw [moves.commits notPending]
    exact outcome.failed error strict whole

theorem WaitLink.moves {w : Wait} {i : Nat} (valid : t.Valid) (phase : Phase) (fits : phase.Fits t)
    (link : WaitLink mode db t w i l phase) (moves : l.Moves mode l') : WaitLink mode db t w i l' phase := by
  cases phase with
  | prepare =>
    obtain ⟨socket, monitored, replied⟩ := link
    exact ⟨socket, fun waited => (monitored waited).moves (asked_sound valid fits) moves,
      fun done => (replied done).moves (ready_sound valid) moves⟩
  | decision commit =>
    refine ⟨fun socket => ?_, fun gone => (link.2 gone).moves moves⟩
    obtain ⟨follows, answered⟩ := link.1 socket
    exact ⟨follows.moves (decided_sound valid) moves, answered.moves valid follows moves⟩
  | get todo =>
    exact ⟨fun socket => (link.1 socket).moves (asking_sound valid fits) moves,
      fun gone => (link.2 gone).moves moves⟩

theorem SendLink.moves {todo : List Nat} {i : Nat} (valid : t.Valid) (writes : t.Writes) {phase : Phase}
    (link : SendLink mode db t todo i l phase) (moves : l.Moves mode l') :
    SendLink mode db t todo i l' phase := by
  cases phase with
  | prepare =>
    exact ⟨fun later => (link.1 later).moves unsent_sound moves,
      fun sent => (link.2 sent).moves (asked_sound valid writes) moves⟩
  | decision commit =>
    refine ⟨fun later => (link.1 later).moves (ready_sound valid) moves, fun sent => ?_⟩
    obtain ⟨follows, answered⟩ := link.2 sent
    exact ⟨follows.moves (decided_sound valid) moves, answered.moves valid follows moves⟩
  | get => exact link.elim

theorem LinkInv.moves {vaild : Nat → Bool} {control : Control} {i : Nat}
    (known : ControlInv mode n db vaild control) (link : LinkInv mode db control i l)
    (moves : l.Moves mode l') : LinkInv mode db control i l' := by
  cases control with
  | idle last =>
    exact ⟨link.1.moves moves, fun t reply same notGet => (link.2 t reply same notGet).moves link.1 moves⟩
  | connectAll t participantSocket alive todo =>
    exact ⟨fun later => (link.1 later).moves moves,
      fun done => ⟨(link.2 done).1, (link.2 done).2.moves unsent_sound moves⟩⟩
  | sendAll t phase participantSocket alive todo =>
    obtain ⟨valid, writes, _⟩ := known
    exact ⟨link.1, link.2.moves valid writes moves⟩
  | wait t phase w =>
    cases phase with
    | prepare =>
      obtain ⟨valid, writes, _⟩ := known
      exact WaitLink.moves valid .prepare writes link moves
    | decision commit =>
      obtain ⟨valid, writes, _⟩ := known
      exact WaitLink.moves valid (.decision commit) writes link moves
    | get todo =>
      obtain ⟨valid, reads, _⟩ := known
      exact WaitLink.moves valid (.get todo) reads link moves
  | getNext => exact Quiet.moves link moves

theorem Inv.moves (inv : Inv mode n db c) (i : Nat)
    (moves : i < n → c.vaild i = true → (c.links i).Moves mode l') : Inv mode n db (c.setLink i l') := by
  refine ⟨inv.control, ?_, inv.everyone⟩
  intro j bound vaild
  by_cases same : j = i
  · subst same
    rw [Cluster.setLink_self]
    exact (inv.links j bound vaild).moves inv.control (moves bound vaild)
  · rw [Cluster.setLink_of_ne c same]
    exact inv.links j bound vaild

theorem Inv.read (inv : Inv mode n db c) {i k : Nat} (allowed : Allowed mode n c (.read i k))
    (step : next n c (.read i k) = some c') : Inv mode n db c' := by
  obtain ⟨l', turn, rfl⟩ := Option.map_eq_some_iff.mp step
  apply inv.moves i
  intro bound vaild
  obtain ⟨exact, lives⟩ := allowed bound vaild
  exact .read k l' exact (fun calm => lives calm l' turn) turn

theorem Inv.eof (inv : Inv mode n db c) {i : Nat} (step : next n c (.eof i) = some c') :
    Inv mode n db c' := by
  obtain ⟨l', ended, rfl⟩ := Option.map_eq_some_iff.mp step
  exact inv.moves i fun _ _ => .eof l' ended

theorem Inv.lose (inv : Inv mode n db c) {i k j : Nat} (strict : ¬ mode.calm)
    (step : next n c (.lose i k j) = some c') : Inv mode n db c' := by
  cases step
  exact inv.moves i fun _ _ => .lose k j strict

theorem Inv.stop (inv : Inv mode n db c) {i : Nat} (strict : ¬ mode.calm)
    (step : next n c (.stop i) = some c') : Inv mode n db c' := by
  cases step
  exact inv.moves i fun _ _ => .stop strict

end participants

end CloudLab.TwoPC
