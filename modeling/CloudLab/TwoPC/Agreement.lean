import CloudLab.Library.Run
import CloudLab.TwoPC.Await

/-! The ends of the coordinator's loops, a kill, and with them the step that keeps the
invariant. -/

namespace CloudLab.TwoPC
open Text ByteStream Tally

section proceed
variable {mode : Mode} {n : Nat} {db : Db} {t : Txn} {w : Wait} {commit : Bool}
  {vaild participantSocket : Nat → Bool} {links : Nat → Link} {alive : Int} {i : Nat} {l : Link}
  {c c' : Cluster}

theorem Inv.connected (inv : Inv mode n db ⟨.connectAll t participantSocket alive [], vaild, links⟩)
    (nobody : alive = 0) (reply : Str) : Inv mode n db ⟨.idle (some (t, reply)), vaild, links⟩ := by
  obtain ⟨_, _, _, counted, _⟩ := inv.control
  refine ⟨trivial, ?_, inv.everyone⟩
  intro i bound vaildI
  have socket := ((inv.links i bound vaildI).2 (by simp)).1
  have none : tally n participantSocket = 0 := by omega
  rw [tally_eq_zero.mp none i bound] at socket
  cases socket

theorem Inv.sendRequests (inv : Inv mode n db ⟨.connectAll t participantSocket alive [], vaild, links⟩) :
    Inv mode n db ⟨.sendAll t .prepare participantSocket alive (List.range n), vaild, links⟩ := by
  obtain ⟨valid, writes, sockets, counted, _⟩ := inv.control
  refine ⟨⟨valid, writes, sockets, counted, List.nodup_range, by simp⟩, ?_, inv.everyone⟩
  intro i bound vaildI
  obtain ⟨socket, follows⟩ := (inv.links i bound vaildI).2 (by simp)
  exact ⟨socket, fun _ => follows, fun outside => absurd (List.mem_range.mpr bound) outside⟩

theorem WaitInv.start (sockets : Sockets n vaild participantSocket) :
    WaitInv n vaild (Wait.start participantSocket alive) :=
  { sockets := sockets, monitored := fun _ => id, sorted := List.Pairwise.nil,
    ready := fun _ member => absurd member (by simp [Wait.start]) }

theorem Inv.startWait {phase : Phase}
    (inv : Inv mode n db ⟨.sendAll t phase participantSocket alive [], vaild, links⟩) :
    Inv mode n db ⟨.wait t phase (Wait.start participantSocket alive), vaild, links⟩ := by
  obtain ⟨valid, writes, sockets, counted, _, notGet⟩ := inv.control
  have waits : WaitInv n vaild (Wait.start participantSocket alive) := .start sockets
  cases phase with
  | prepare =>
    refine ⟨⟨valid, writes, { waits with alive := counted, count := ?_, agreed := ?_ }⟩, ?_, inv.everyone⟩
    · simp [Wait.start]
    · intro _ i
      simp [Wait.start]
    · intro i bound vaildI
      obtain ⟨socket, _, sent⟩ := inv.links i bound vaildI
      refine ⟨socket, fun _ => sent (by simp), ?_⟩
      intro off
      have off : participantSocket i = false := off
      rw [socket] at off
      cases off
  | decision commit =>
    refine ⟨⟨valid, writes, { waits with alive := ?_, positive := Int.le_refl 0, all := fun _ => id,
                                         first := fun some => absurd rfl some }, ?_⟩, ?_, inv.everyone⟩
    · simp [Wait.start, counted]
    · exact fun _ i bound vaildI => (inv.links i bound vaildI).1
    · intro i bound vaildI
      obtain ⟨socket, _, sent⟩ := inv.links i bound vaildI
      refine ⟨fun _ => sent (by simp), ?_⟩
      intro off
      have off : participantSocket i = false := off
      rw [socket] at off
      cases off
  | get rest => exact absurd rfl (notGet rest)

theorem PrepareInv.settled (inv : PrepareInv mode n vaild w) (ended : ¬ w.GoesOn) (bound : i < n)
    (socket : w.participantSocket i = true) : w.allFdSet i = false ∧ w.count ≠ 0 := by
  have split := tally_split n w.participantSocket w.allFdSet
  have some : tally n w.participantSocket ≠ 0 := by
    intro zero
    rw [tally_eq_zero.mp zero i bound] at socket
    cases socket
  have alive := inv.alive
  have count := inv.count
  rw [Wait.GoesOn] at ended
  have none : tally n (fun i => w.participantSocket i && w.allFdSet i) = 0 := by omega
  have off := tally_eq_zero.mp none i bound
  simp only [socket, Bool.true_and] at off
  exact ⟨off, by omega⟩

theorem Inv.decideAll (inv : Inv mode n db ⟨.wait t .prepare w, vaild, links⟩) (ended : ¬ w.GoesOn) :
    Inv mode n db (Cluster.decideAll n ⟨.wait t .prepare w, vaild, links⟩ t w) := by
  obtain ⟨valid, writes, known⟩ := inv.control
  have decides : ∀ commit, Inv mode n db
      ⟨.sendAll t (.decision commit) w.participantSocket w.aliveParticipantCount (List.range n), vaild, links⟩ := by
    intro commit
    refine ⟨⟨valid, writes, known.sockets, known.alive, List.nodup_range, by simp⟩, ?_, inv.everyone⟩
    intro i bound vaildI
    have link : WaitLink mode db t w i (links i) .prepare := inv.links i bound vaildI
    obtain ⟨off, _⟩ := known.settled ended bound link.1
    exact ⟨link.1, fun _ => link.2.2 off, fun outside => absurd (List.mem_range.mpr bound) outside⟩
  unfold Cluster.decideAll
  split
  · exact decides true
  · next notAll =>
    split
    · exact decides false
    · next notNone =>
      -- neither answer means that nobody has replied
      have zero : w.count = 0 := by
        by_contra some
        simp only [Wait.prepareResponse, some, if_false] at notAll notNone
        split at notAll
        · exact notAll rfl
        · next no => exact notNone (by rw [if_neg no])
      refine ⟨trivial, ?_, inv.everyone⟩
      intro i bound vaildI
      have link : WaitLink mode db t w i (links i) .prepare := inv.links i bound vaildI
      exact absurd zero (known.settled ended bound link.1).2

theorem DoneInv.settled {phase : Phase} (inv : DoneInv mode n db t phase vaild w) (ended : ¬ w.GoesOn)
    (bound : i < n) : w.participantSocket i = false := by
  have alive := inv.alive
  have positive := inv.positive
  rw [Wait.GoesOn] at ended
  have none : tally n w.participantSocket = 0 := by omega
  exact tally_eq_zero.mp none i bound

theorem parse_done {id : Int} {method addition : Str} (methodPlain : '\n' ∉ method) (filled : addition ≠ [])
    (plain : '\n' ∉ addition) :
    parseClusterMsg (getClusterDoneMsg id method addition) = some (true, [DONE, decimal id, method, addition]) := by
  have lines : ∀ line ∈ [DONE, decimal id, method, addition], '\n' ∉ line := by
    intro line member
    simp only [List.mem_cons, List.not_mem_nil, or_false] at member
    rcases member with rfl | rfl | rfl | rfl
    · exact no_newline_words _ (by simp)
    · exact newline_not_mem_decimal id
    · exact methodPlain
    · exact plain
  rw [done_wire, if_neg filled]
  simp only [List.cons_append, List.nil_append]
  rw [parseClusterMsg_wire (by simp) lines]
  simp

theorem DoneMsg.reply {message : Str} {key : Str} {keys : List Str} {verdict : Bool} {fields : List Str}
    (done : DoneMsg db t true message) (del : t.split_message = DEL :: key :: keys)
    (parsed : parseClusterMsg message = some (verdict, fields)) :
    verdict = true ∧ getClientGetOrDelMsg t.id fields = ':' :: decimal (countDeleted db (key :: keys)) ++ crlf := by
  obtain ⟨op, same, rfl⟩ := done
  cases op with
  | set => simp [del, Op.fields] at same
  | del key' keys' =>
    rw [del, Op.fields] at same
    cases same
    rw [Op.done, parse_done (no_newline_words DEL (by simp)) (decimal_ne_nil _) (newline_not_mem_decimal _),
      Option.some.injEq, Prod.mk.injEq] at parsed
    obtain ⟨rfl, rfl⟩ := parsed
    exact ⟨rfl, by simp [getClientGetOrDelMsg]⟩

theorem Inv.committed (inv : Inv mode n db ⟨.wait t (.decision true) w, vaild, links⟩)
    (ended : ¬ w.GoesOn) (reply : Str)
    (answer : Cluster.finishAll ⟨.wait t (.decision true) w, vaild, links⟩ t (.decision true) w =
      ⟨.idle (some (t, reply)), vaild, links⟩)
    (bound : i < n) (vaildI : vaild i = true) (whole : mode.whole) : reply ≠ getClientERRORMsg := by
  obtain ⟨valid, writes, known, untouched⟩ := inv.control
  have counted : w.count ≠ 0 := by
    intro zero
    have socket := untouched zero i bound vaildI
    rw [known.settled ended bound] at socket
    cases socket
  obtain ⟨message, done, verdict, fields, parsed, response⟩ := known.first counted whole
  simp only [Cluster.finishAll, Wait.commitResponse, counted, if_false, if_true, Cluster.answer,
    Cluster.mk.injEq, Control.idle.injEq, Option.some.injEq, Prod.mk.injEq, and_true, true_and] at answer
  obtain ⟨op, same, text⟩ := done
  cases op with
  | set key value =>
    rw [if_pos (by simp [same, Op.fields])] at answer
    rw [← answer]
    decide
  | del key keys =>
    obtain ⟨yes, text⟩ := DoneMsg.reply ⟨.del key keys, same, text⟩ same parsed
    rw [if_neg (by simp [same, Op.fields]), response yes, text] at answer
    rw [← answer]
    intro equal
    have error : getClientERRORMsg.head? = some '-' := rfl
    rw [← equal, List.cons_append, List.head?_cons, Option.some.injEq] at error
    exact absurd error (by decide)

theorem Inv.finishAll {phase : Phase} (inv : Inv mode n db ⟨.wait t phase w, vaild, links⟩)
    (ended : ¬ w.GoesOn) (notPrepare : phase ≠ .prepare) :
    Inv mode n (nextStore ⟨.wait t phase w, vaild, links⟩ db .proceed)
      (Cluster.finishAll ⟨.wait t phase w, vaild, links⟩ t phase w) := by
  cases phase with
  | prepare => exact absurd rfl notPrepare
  | get todo =>
    obtain ⟨valid, reads, known, small, _⟩ := inv.control
    have quiet : ∀ i < n, vaild i = true → Quiet mode db (links i) := fun i bound vaildI =>
      (inv.links i bound vaildI).2 (known.settled ended bound)
    simp only [Cluster.finishAll]
    split
    · refine ⟨trivial, fun i bound vaildI => ⟨quiet i bound vaildI, ?_⟩, inv.everyone⟩
      intro t' reply same notGet
      simp only [Option.some.injEq, Prod.mk.injEq] at same
      obtain ⟨rfl, _⟩ := same
      obtain ⟨key, rest, fields⟩ := reads
      exact absurd (by simp [fields]) notGet
    · exact ⟨⟨valid, reads, small⟩, quiet, inv.everyone⟩
  | decision commit =>
    obtain ⟨valid, writes, known, untouched⟩ := inv.control
    have store : nextStore ⟨.wait t (.decision commit) w, vaild, links⟩ db .proceed =
        if commit then t.apply db else db := by
      cases commit <;> rfl
    have answers : ∃ reply, Cluster.finishAll ⟨.wait t (.decision commit) w, vaild, links⟩ t (.decision commit) w =
        ⟨.idle (some (t, reply)), vaild, links⟩ ∧ (commit = false → reply = getClientERRORMsg) := by
      cases commit with
      | false => exact ⟨_, rfl, fun _ => rfl⟩
      | true =>
        simp only [Cluster.finishAll]
        split
        · exact ⟨_, rfl, by simp⟩
        · exact ⟨_, rfl, by simp⟩
    obtain ⟨reply, answer, aborted⟩ := answers
    rw [store, answer]
    refine ⟨trivial, ?_, inv.everyone⟩
    intro i bound vaildI
    have finished : Finished mode db t commit (links i) :=
      (inv.links i bound vaildI).2 (known.settled ended bound)
    refine ⟨finished.quiet, ?_⟩
    intro t' reply' same _
    simp only [Option.some.injEq, Prod.mk.injEq] at same
    obtain ⟨rfl, rfl⟩ := same
    obtain ⟨closed, current, op, fields, phase, _, final, _, commits⟩ := finished
    constructor
    · intro ok
      cases commit with
      | false => exact absurd (aborted rfl) ok
      | true =>
        refine ⟨closed, current, phase, ?_, ?_⟩
        · rw [final, if_pos rfl, if_pos rfl, Txn.apply_eq fields]
        · intro strict
          rw [commits strict, if_pos rfl]
          simp
    · intro error strict whole
      cases commit with
      | false => rw [commits strict, if_neg (by simp)]
      | true => exact absurd error (inv.committed ended reply answer bound vaildI whole)

theorem Inv.proceed (inv : Inv mode n db c) (step : next n c .proceed = some c') :
    Inv mode n (nextStore c db .proceed) c' := by
  cases next_branch step with
  | nobody nobody => exact inv.connected nobody _
  | prepare => exact inv.sendRequests
  | startWait => exact inv.startWait
  | decided done => exact inv.decideAll done
  | finish done notPrepare => exact inv.finishAll done notPrepare
  | exhausted =>
    refine ⟨trivial, fun i bound vaildI => ⟨inv.links i bound vaildI, ?_⟩, inv.everyone⟩
    intro t' reply same notGet
    simp only [Option.some.injEq, Prod.mk.injEq] at same
    obtain ⟨rfl, _⟩ := same
    obtain ⟨_, ⟨key, rest, fields⟩, _⟩ := inv.control
    exact absurd (by simp [fields]) notGet

end proceed

section run
variable {mode : Mode} {n : Nat} {db : Db} {c c' : Cluster}

theorem Inv.init (mode : Mode) (n : Nat) : Inv mode n (fun _ => none) Cluster.init := by
  refine ⟨trivial, ?_, fun _ _ _ => rfl⟩
  intro i _ _
  have settled : Settled mode.pend (fun _ => none) Link.init.site := Or.inl ⟨rfl, rfl⟩
  exact ⟨⟨rfl, trivial, Or.inr settled, settled⟩, fun _ _ none => nomatch none⟩

theorem Inv.step (inv : Inv mode n db c) {event : Event} (allowed : Allowed mode n c event)
    (alive : event ≠ .kill) (step : next n c event = some c') : Inv mode n (nextStore c db event) c' := by
  cases event with
  | request data id => exact inv.request allowed step
  | connect ok => exact inv.connect allowed step
  | send => exact inv.send step
  | proceed => exact inv.proceed step
  | select ready => exact inv.select step
  | timeout => exact inv.timeout allowed step
  | reply k => exact inv.reply allowed step
  | hangup ok => exact inv.hangup allowed step
  | read i k => exact inv.read allowed step
  | eof i => exact inv.eof step
  | lose i k j => exact inv.lose allowed step
  | stop i => exact inv.stop allowed step
  | kill => exact absurd rfl alive

/-- A kill outside the COMMIT loop: nobody, or everybody, has been told. -/
theorem Inv.kill (inv : Inv mode n db c) (pend : mode.pend) (calm : mode.calm)
    (outside : ¬ c.InCommitLoop n) : ∃ db', Inv mode n db' c.restart := by
  obtain ⟨control, vaild, links⟩ := c
  suffices quiet : ∃ db', ∀ i < n, Quiet mode db' (links i).close by
    obtain ⟨db', quiet⟩ := quiet
    exact ⟨db', trivial, fun i bound _ => ⟨quiet i bound, fun _ _ none => nomatch none⟩, fun _ _ _ => rfl⟩
  have everyone : ∀ i < n, LinkInv mode db control i (links i) := fun i bound =>
    inv.links i bound (inv.everyone calm i bound)
  match control with
  | .idle last => exact ⟨db, fun i bound => (everyone i bound).1.close⟩
  | .getNext t todo => exact ⟨db, fun i bound => Quiet.close (everyone i bound)⟩
  | .connectAll t participantSocket alive todo =>
    refine ⟨db, fun i bound => ?_⟩
    by_cases later : i ∈ todo
    · exact ((everyone i bound).1 later).abandon pend
    · exact ((everyone i bound).2 later).2.abandonUnsent pend
  | .sendAll t .prepare participantSocket alive todo =>
    obtain ⟨valid, writes, _⟩ := inv.control
    refine ⟨db, fun i bound => ?_⟩
    by_cases later : i ∈ todo
    · exact ((everyone i bound).2.1 later).abandonUnsent pend
    · exact ((everyone i bound).2.2 later).abandonAsked pend valid writes
  | .sendAll t (.decision false) participantSocket alive todo =>
    obtain ⟨valid, _⟩ := inv.control
    refine ⟨db, fun i bound => ?_⟩
    by_cases later : i ∈ todo
    · exact ((everyone i bound).2.1 later).abandonReady pend valid
    · exact ((everyone i bound).2.2 later).1.abandonDecided pend calm valid
  | .sendAll t (.decision true) participantSocket alive todo =>
    obtain ⟨valid, _⟩ := inv.control
    by_cases begun : ∃ i < n, i ∉ todo
    · -- the first COMMIT has been sent, so all have
      obtain ⟨first, small, sent⟩ := begun
      refine ⟨t.apply db, fun i bound => ?_⟩
      have told : i ∉ todo := by
        intro later
        exact outside ⟨⟨first, small, (everyone first small).1, sent⟩, i, later, (everyone i bound).1⟩
      exact ((everyone i bound).2.2 told).1.abandonDecided pend calm valid
    · refine ⟨db, fun i bound => ?_⟩
      have later : i ∈ todo := by
        by_contra sent
        exact begun ⟨i, bound, sent⟩
      exact ((everyone i bound).2.1 later).abandonReady pend valid
  | .sendAll t (.get rest) participantSocket alive todo =>
    obtain ⟨_, _, _, _, _, notGet⟩ := inv.control
    exact absurd rfl (notGet rest)
  | .wait t .prepare w =>
    obtain ⟨valid, writes, _⟩ := inv.control
    refine ⟨db, fun i bound => ?_⟩
    obtain ⟨_, waited, answered⟩ := everyone i bound
    cases descriptor : w.allFdSet i with
    | true => exact (waited descriptor).abandonAsked pend valid writes
    | false => exact (answered descriptor).abandonReady pend valid
  | .wait t (.decision commit) w =>
    obtain ⟨valid, _⟩ := inv.control
    refine ⟨if commit then t.apply db else db, fun i bound => ?_⟩
    obtain ⟨waited, answered⟩ := everyone i bound
    cases socket : w.participantSocket i with
    | true => exact (waited socket).1.abandonDecided pend calm valid
    | false => exact (answered socket).quiet.close
  | .wait t (.get rest) w =>
    obtain ⟨valid, reads, _⟩ := inv.control
    refine ⟨db, fun i bound => ?_⟩
    obtain ⟨waited, answered⟩ := everyone i bound
    cases socket : w.participantSocket i with
    | true => exact (waited socket).closeGet valid reads
    | false => exact (answered socket).close

theorem Inv.next (inv : ∃ db, Inv mode n db c) {event : Event} (allowed : Allowed mode n c event)
    (step : TwoPC.next n c event = some c') : ∃ db, Inv mode n db c' := by
  obtain ⟨db, inv⟩ := inv
  by_cases kill : event = .kill
  · subst kill
    cases step
    obtain ⟨pend, calm, outside⟩ := allowed
    exact inv.kill pend calm outside
  · exact ⟨_, inv.step allowed kill step⟩

end run

/-! Agreement with slow or failing participants. -/

namespace Cluster

/-- Every participant still marked `vaild` has consumed all bytes sent to it. -/
def Consumed (n : Nat) (c : Cluster) : Prop :=
  ∀ i < n, c.vaild i = true →
    (∀ conn ∈ (c.links i).closed, conn = []) ∧ ((c.links i).current = none ∨ (c.links i).current = some [])

/-- All participants marked `vaild` hold equal databases. -/
def Agree (n : Nat) (c : Cluster) : Prop :=
  ∀ i < n, ∀ j < n, c.vaild i = true → c.vaild j = true →
    (c.links i).site.process.db = (c.links j).site.process.db

end Cluster

instance (n : Nat) (c : Cluster) : Decidable (c.Consumed n) :=
  inferInstanceAs (Decidable (∀ i < n, c.vaild i = true → (∀ conn ∈ (c.links i).closed, conn = []) ∧
    ((c.links i).current = none ∨ (c.links i).current = some [])))

def Cluster.takesPrepared (c : Cluster) : Bool :=
  match c.control with
  | .wait t (.decision _) w =>
      match w.ready with
      | i :: _ =>
          match (c.links i).inbox with
          | seg :: _ => decide (seg.message = preparedMsg t)
          | [] => false
      | [] => false
  | _ => false

/-- A participant's `getMessage` returns one message, and `waitForCommitOrAbort` does not
take a PREPARED for an acknowledgement. -/
def OneByOne (n : Nat) (c : Cluster) : Event → Prop
  | .read i k => i < n → c.vaild i = true → (c.links i).ReadsExactly k
  | .reply _ => c.takesPrepared = false
  | _ => True

instance (n : Nat) (c : Cluster) : (event : Event) → Decidable (OneByOne n c event)
  | .read i k => inferInstanceAs (Decidable (i < n → c.vaild i = true → (c.links i).ReadsExactly k))
  | .reply _ => inferInstanceAs (Decidable (c.takesPrepared = false))
  | .request _ _ | .connect _ | .send | .proceed | .select _ | .timeout | .hangup _ | .eof _ | .lose _ _ _
  | .stop _ | .kill => isTrue trivial

def Mode.slow : Mode := { pend := False, calm := False, whole := False, calm_whole := id }

theorem OneByOne.allowed {n : Nat} {c : Cluster} {event : Event} (one : OneByOne n c event)
    (alive : event ≠ .kill) : Allowed .slow n c event := by
  cases event with
  | request => exact False.elim
  | connect => exact False.elim
  | reply k =>
    intro t phase w i ready control queue
    refine ⟨False.elim, ?_⟩
    rintro _ commit rfl seg rest inbox
    have taken : c.takesPrepared = false := one
    simpa [Cluster.takesPrepared, control, queue, inbox] using taken
  | read i k => exact fun bound vaild => ⟨one bound vaild, False.elim⟩
  | timeout => exact id
  | hangup => exact id
  | lose => exact id
  | stop => exact id
  | kill => exact absurd rfl alive
  | send => trivial
  | proceed => trivial
  | select => trivial
  | eof => trivial

/-- In a run where messages are read one by one, the participants agree whenever a request
has been answered and all has been read. -/
theorem agreement_slow (n : Nat) {events : List Event} {c : Cluster}
    (run : Run (fun c event c' => next n c event = some c' ∧ event ≠ .kill ∧ OneByOne n c event)
      Cluster.init events c)
    {last : Option (Txn × Str)} (answered : c.control = .idle last) (consumed : c.Consumed n) :
    c.Agree n := by
  have inv : ∃ db, Inv .slow n db c := by
    refine run.invariant (fun c => ∃ db, Inv .slow n db c) ?_ ⟨_, Inv.init .slow n⟩
    rintro c event c' inv ⟨step, alive, one⟩
    exact Inv.next inv (one.allowed alive) step
  obtain ⟨db, inv⟩ := inv
  have holds : ∀ i < n, c.vaild i = true → (c.links i).site.process.db = db := by
    intro i bound vaild
    have link := inv.links i bound vaild
    rw [answered] at link
    obtain ⟨⟨current, _, through⟩, _⟩ := link
    have settled := through.done (consumed i bound vaild).1
    rw [apart_ahead _ current] at settled
    exact (settled.clean id).2
  intro i small j bound vaildI vaildJ
  rw [holds i small vaildI, holds j bound vaildJ]

/-! A transaction with `n` participants in which nothing goes wrong. -/

def sendRequests (n : Nat) (t : Txn) : List Event :=
  .request (respArray t.split_message) t.id :: List.replicate n (.connect true) ++
    .proceed :: List.replicate n .send ++ [.proceed]

def readMessage (n : Nat) (message : Str) : List Event :=
  (List.range n).map fun i => .read i message.length

def takeReplies (n : Nat) (reply : Str) : List Event :=
  .select (List.range n) :: List.replicate n (.reply reply.length) ++ [.proceed]

def sendDecisions (n : Nat) : List Event := List.replicate n .send ++ [.proceed]

def wholeTransaction (n : Nat) (t : Txn) (done : Str) : List Event :=
  sendRequests n t ++ readMessage n (requestMsg t) ++ takeReplies n (preparedMsg t) ++ sendDecisions n ++
    readMessage n (decisionMsg t true) ++ takeReplies n done

def setWord : Txn := { id := 0, split_message := [SET, DEL, "1".toList] }

def delOther : Txn := { id := 1, split_message := [DEL, "k".toList] }

def doneOne : Str := getClusterDoneMsg 1 DEL "1".toList

def Cluster.replied (c : Cluster) (t : Txn) (reply : Str) : Bool :=
  match c.control with
  | .idle (some answer) => decide (answer = (t, reply))
  | _ => false

theorem Cluster.replied_idle {c : Cluster} {t : Txn} {reply : Str} (replied : c.replied t reply = true) :
    c.control = .idle (some (t, reply)) := by
  unfold Cluster.replied at replied
  split at replied
  · next answer control => rw [control, of_decide_eq_true replied]
  · cases replied

def doneNone : Str := getClusterDoneMsg 1 DEL "0".toList

/-- After a timeout both participants are asked again. They read the two copies one by one, and the
coordinator takes the two answers of each at once. -/
def askedTwice : List Event :=
  wholeTransaction 2 setWord (getClusterDoneMsg 0 SET []) ++ sendRequests 2 delOther ++
    [.read 1 (requestMsg delOther).length, .timeout, .read 0 (requestMsg delOther).length,
      .read 0 (requestMsg delOther).length, .read 1 (requestMsg delOther).length, .select [0, 1],
      .reply (2 * (preparedMsg delOther).length), .reply (2 * (preparedMsg delOther).length), .proceed] ++
    sendDecisions 2 ++ readMessage 2 (decisionMsg delOther true) ++ takeReplies 2 doneNone

theorem agreement_slow_twice : ∃ c : Cluster, (c.links 1).site.process.db DEL = some "1".toList ∧ c.Agree 2 := by
  have result : (execute (fun c event => if event ≠ .kill ∧ OneByOne 2 c event then next 2 c event else none)
      Cluster.init askedTwice).any (fun c => c.replied delOther (':' :: "0".toList ++ crlf) &&
        decide (c.Consumed 2 ∧ (c.links 1).site.process.db DEL = some "1".toList)) = true := by
    decide +kernel
  obtain ⟨c, result, facts⟩ := (Option.any_eq_true _ _).mp result
  rw [Bool.and_eq_true, decide_eq_true_eq] at facts
  obtain ⟨replied, consumed, stored⟩ := facts
  exact ⟨c, stored, agreement_slow 2 (run_of_checked result) (c.replied_idle replied) consumed⟩

/-- A request sent again is read together with its first copy: the words of the second
copy become keys to delete. -/
def runTogether : List Event :=
  wholeTransaction 2 setWord (getClusterDoneMsg 0 SET []) ++ sendRequests 2 delOther ++
    [.read 1 (requestMsg delOther).length, .timeout, .read 0 (2 * (requestMsg delOther).length),
      .read 1 (requestMsg delOther).length, .select [0, 1], .reply (preparedMsg delOther).length,
      .reply (2 * (preparedMsg delOther).length), .proceed] ++
    sendDecisions 2 ++ readMessage 2 (decisionMsg delOther true) ++ takeReplies 2 doneOne

/-- The participants disagree after it, with every byte consumed. -/
theorem agreement_run_together : ¬ ∀ (n : Nat) (events : List Event) (c : Cluster) (last : Txn × Str),
    Run (fun c event c' => next n c event = some c' ∧ event ≠ .kill) Cluster.init events c →
    c.control = .idle (some last) → c.Consumed n → c.Agree n := by
  intro claim
  have result : (execute (fun c event => if event ≠ .kill then next 2 c event else none)
      Cluster.init runTogether).any (fun c =>
        c.replied delOther (':' :: "1\r\n".toList) && decide (c.Consumed 2 ∧ c.vaild 0 = true ∧ c.vaild 1 = true ∧
          (c.links 0).site.process.db DEL = none ∧ (c.links 1).site.process.db DEL ≠ none)) = true := by
    decide +kernel
  obtain ⟨c, result, facts⟩ := (Option.any_eq_true _ _).mp result
  rw [Bool.and_eq_true, decide_eq_true_eq] at facts
  obtain ⟨replied, consumed, vaild0, vaild1, deleted, kept⟩ := facts
  have agree := claim 2 runTogether c _ (run_of_checked result) (c.replied_idle replied) consumed
  have same := agree 0 (by decide) 1 (by decide) vaild0 vaild1
  rw [same] at deleted
  exact kept deleted

end CloudLab.TwoPC
