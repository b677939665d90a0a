import CloudLab.TwoPC.Restart
import CloudLab.TwoPC.Sequential

/-! Runs in which nothing fails: every message that a participant reads is served, and the
connections stay in order. -/

namespace CloudLab.TwoPC
open Text ByteStream Tally

def Mode.smooth : Mode := { pend := False, calm := True, whole := True, calm_whole := id }

def Site.Serves (s : Site) (message : Str) : Prop :=
  ∃ handled s', s.handle message = some (handled, s') ∧ handled.next ≠ .shutdown ∧ handled.sent.length ≤ 1

section serves
variable {mode : Mode} {db : Db} {t : Txn} {commit : Bool} {s : Site} {op : Op}

theorem Fresh.serves (fresh : Fresh mode.pend db t s) (valid : t.Valid) (fields : t.split_message = op.fields) :
    s.Serves (requestMsg t) := by
  have consistent := fresh.1.consistent
  have executed : ∃ p : Participant,
      handleMessage s.process (PREPARED_REQUEST :: decimal t.id :: t.split_message) =
        (handlePreparePhase p (PREPARED_REQUEST :: decimal t.id :: t.split_message)).map (respond .again) := by
    rcases consistent.phase with clean | pending
    · exact ⟨s.process, handleMessage_request_clean clean _⟩
    · exact ⟨_, handleMessage_request_other pending valid.read (Ne.symm (fresh.2.1 pending))
        (rollBack_consistent consistent pending) _⟩
  obtain ⟨p, result⟩ := executed
  have handles : (s.handle (requestMsg t)).isSome := by
    rw [handle_request valid, result, handlePreparePhase_op valid fields]
    rfl
  obtain ⟨⟨handled, s'⟩, turn⟩ := Option.isSome_iff_exists.mp handles
  obtain ⟨verdict, sent, _⟩ := fresh.request valid (Or.inl ⟨op, fields⟩) turn
  exact ⟨handled, s', turn, by simp [verdict], by simp [sent]⟩

theorem Prepared.serves_request (prepared : Prepared mode.pend db t s) (valid : t.Valid) :
    s.Serves (requestMsg t) := by
  have handles : (s.handle (requestMsg t)).isSome := by
    obtain ⟨op, p, _, _, process, _⟩ := prepared
    have pending : s.process.phase = 2 := by rw [process, op.prepare_phase]
    have read : stoi (decimal t.id) = some s.process.id := by rw [process, op.prepare_id, valid.read]
    rw [handle_request valid, handleMessage_request_same pending read]
    rfl
  obtain ⟨⟨handled, s'⟩, turn⟩ := Option.isSome_iff_exists.mp handles
  obtain ⟨verdict, sent, _⟩ := prepared.request valid turn
  exact ⟨handled, s', turn, by simp [verdict], by simp [sent]⟩

theorem Prepared.serves_decision (prepared : Prepared mode.pend db t s) : s.Serves (decisionMsg t commit) := by
  have handles : (s.handle (decisionMsg t commit)).isSome := by
    obtain ⟨op, p, _, _, process, _⟩ := prepared
    have pending : s.process.phase = 2 := by rw [process, op.prepare_phase]
    have answer : (handleCommitOrAbortPhase s.process [decisionWord commit, decimal t.id]).isSome := by
      rw [process]
      cases commit with
      | true =>
        rw [show decisionWord true = COMMIT from rfl, op.prepare_commit p t.id]
        rfl
      | false =>
        rw [show decisionWord false = ABORT from rfl, op.prepare_abort p t.id]
        rfl
    rw [handle_decision, handleMessage_decision_pending pending (decisionWord_cases commit)]
    simpa using answer
  obtain ⟨⟨handled, s'⟩, turn⟩ := Option.isSome_iff_exists.mp handles
  obtain ⟨verdict, ⟨_, _, sent⟩, _⟩ := prepared.decision turn
  exact ⟨handled, s', turn, by simp [verdict], by simp [sent]⟩

theorem Settled.serves_get (settled : Settled mode.pend db s) (strict : ¬ mode.pend) (valid : t.Valid)
    (reads : t.Reads) : s.Serves (requestMsg t) := by
  have handles : (s.handle (requestMsg t)).isSome := by
    obtain ⟨key, rest, fields⟩ := reads
    rw [handle_request valid, fields, handleMessage_request_clean (settled.clean strict).1,
      handlePreparePhase_get valid.read]
    rfl
  obtain ⟨⟨handled, s'⟩, turn⟩ := Option.isSome_iff_exists.mp handles
  obtain ⟨verdict, _, _, sent⟩ := settled.get valid reads turn
  obtain ⟨_, _, sent⟩ := sent strict
  exact ⟨handled, s', turn, by simp [verdict], by simp [sent]⟩

end serves

def Txn.Of (t : Txn) (r : Request) : Prop := t.split_message = r.fields

def Control.txn : Control → Option Txn
  | .idle _ => none
  | .connectAll t _ _ _ => some t
  | .sendAll t _ _ _ _ => some t
  | .wait t _ _ => some t
  | .getNext t _ => some t

section link
variable {n : Nat} {db : Db} {t : Txn} {commit : Bool} {control : Control} {vaild : Nat → Bool} {i : Nat}
  {l l' : Link} {seg : Seg Char} {segs : List (Seg Char)} {S : Shape} {r : Request}

/-- A link as it is when nothing has failed. -/
structure Link.Smooth (l : Link) : Prop where
  running : l.running = true
  open_ : l.hup = false
  closed : ∀ conn ∈ l.closed, conn = []
  current : ∀ segs, l.current = some segs → ∀ seg ∈ segs, seg.Whole
  inbox : ∀ seg ∈ l.inbox, seg.Whole

theorem Follows.here (follows : Follows .smooth S l) (smooth : l.Smooth) : S.ahead l l.site :=
  follows.2.done smooth.closed

theorem Follows.current (follows : Follows .smooth S l) (smooth : l.Smooth) (current : l.current = some segs) :
    S.cur l.inbox segs l.site := by
  have here := follows.here smooth
  simpa only [Shape.ahead, current] using here

theorem Follows.serves_asked (valid : t.Valid) {op : Op} (fields : t.split_message = op.fields)
    (follows : Follows .smooth (asked .smooth db t) l) (smooth : l.Smooth)
    (current : l.current = some (seg :: segs)) : l.site.Serves seg.message := by
  obtain ⟨messages, stage, _⟩ := follows.current smooth current
  rw [messages seg (by simp)]
  rcases stage with prepared | ⟨fresh, _⟩
  · exact prepared.serves_request valid
  · exact fresh.serves valid fields

theorem Follows.serves_decided (follows : Follows .smooth (decided .smooth db t commit) l) (smooth : l.Smooth)
    (current : l.current = some (seg :: segs)) : l.site.Serves seg.message := by
  obtain ⟨_, ⟨prepared, has, short⟩ | ⟨_, strict, _⟩⟩ := follows.current smooth current
  · rcases has with ⟨_, later⟩ | decision
    · have none : segs = [] := by
        have one := short trivial
        rw [List.length_cons] at one
        exact List.eq_nil_of_length_eq_zero (by omega)
      rw [none] at later
      exact later.elim
    · rw [decision]
      exact prepared.serves_decision
  · exact absurd trivial strict

theorem LinkInv.serves (known : ControlInv .smooth n db vaild control) (link : LinkInv .smooth db control i l)
    (current' : control.txn = some t) (of : t.Of r) (smooth : l.Smooth)
    (current : l.current = some (seg :: segs)) : l.site.Serves seg.message := by
  have written : t.Writes → ∃ op : Op, t.split_message = op.fields := by
    rintro (⟨op, fields⟩ | ⟨key, short⟩)
    · exact ⟨op, fields⟩
    · rw [Txn.Of, short] at of
      cases r with
      | set => simp [Request.fields] at of
      | get => simp [Request.fields] at of
      | del => simp [Request.fields] at of
  have unsentDone : Follows .smooth (unsent .smooth db t) l → l.site.Serves seg.message := by
    intro follows
    have none := (follows.current smooth current).1
    cases none
  have readyDone : Follows .smooth (ready .smooth db t) l → l.site.Serves seg.message := by
    intro follows
    obtain ⟨_, _, none⟩ := follows.current smooth current
    cases none trivial
  have quiet : ∀ {db}, Quiet .smooth db l → l.site.Serves seg.message := by
    rintro _ ⟨none, _⟩
    rw [none] at current
    cases current
  cases control with
  | idle last => cases current'
  | connectAll t' participantSocket alive todo =>
    cases current'
    by_cases later : i ∈ todo
    · have none := (link.1 later).1
      rw [none] at current
      cases current
    · exact unsentDone (link.2 later).2
  | sendAll t' phase participantSocket alive todo =>
    cases current'
    cases phase with
    | prepare =>
      obtain ⟨valid, writes, _⟩ := known
      obtain ⟨op, fields⟩ := written writes
      by_cases later : i ∈ todo
      · exact unsentDone (link.2.1 later)
      · exact (link.2.2 later).serves_asked valid fields smooth current
    | decision commit =>
      by_cases later : i ∈ todo
      · exact readyDone (link.2.1 later)
      · exact (link.2.2 later).1.serves_decided smooth current
    | get rest => exact link.2.elim
  | wait t' phase w =>
    cases current'
    cases phase with
    | prepare =>
      obtain ⟨valid, writes, _⟩ := known
      obtain ⟨op, fields⟩ := written writes
      cases descriptor : w.allFdSet i with
      | true => exact (link.2.1 descriptor).serves_asked valid fields smooth current
      | false => exact readyDone (link.2.2 descriptor)
    | decision commit =>
      cases socket : w.participantSocket i with
      | true => exact (link.1 socket).1.serves_decided smooth current
      | false =>
        have none := (link.2 socket).2.1
        rw [none] at current
        cases current
    | get rest =>
      obtain ⟨valid, reads, _⟩ := known
      cases socket : w.participantSocket i with
      | true =>
        obtain ⟨messages, settled, _⟩ := (link.1 socket).current smooth current
        rw [messages seg (by simp)]
        exact settled.serves_get id valid reads
      | false => exact quiet (link.2 socket)
  | getNext t' todo => exact quiet link

theorem Link.Smooth.read (smooth : l.Smooth) {k : Nat} (exact : l.ReadsExactly k)
    (served : ∀ seg segs, l.current = some (seg :: segs) → l.site.Serves seg.message)
    (step : l.read k = some l') : l'.Smooth ∧ l.closed = [] ∧ l'.closed = [] ∧
      ∃ seg segs sent, l.current = some (seg :: segs) ∧ (l'.current = some segs ∨ l'.current = none) ∧
        l'.inbox = l.inbox ++ sent ∧ sent.length ≤ 1 := by
  obtain ⟨positive, conn, turn⟩ := Link.read_turn step
  have noClosed : l.closed = [] := by
    cases closed : l.closed with
    | nil => rfl
    | cons first rest =>
      have empty := smooth.closed first (by simp [closed])
      have exact : Exact k first := by simpa [Link.ReadsExactly, closed] using exact
      rw [empty] at exact
      obtain ⟨_, _, none, _⟩ := exact
      cases none
  have current : l.current = some conn := by
    cases turn with
    | crash oldest => simpa [noClosed] using oldest
    | closed conns handled site closed => simp [noClosed] at closed
    | current handled site closed current => exact current
  obtain ⟨seg, rest, rfl, isWhole, long⟩ : Exact k conn := by
    simpa [Link.ReadsExactly, noClosed, current] using exact
  have taken : readBytes k (seg :: rest) = (seg.message, rest) := by
    rw [long]
    exact readBytes_exact isWhole fun none => positive (by rw [long, none]; rfl)
  obtain ⟨handled', site', result', goesOn, few⟩ := served seg rest current
  cases turn with
  | crash _ result =>
    rw [taken, result'] at result
    cases result
  | closed conns handled site closed => simp [noClosed] at closed
  | current handled site closed _ result kind =>
    rw [taken] at result kind
    rw [result', Option.some.injEq, Prod.mk.injEq] at result
    obtain ⟨rfl, rfl⟩ := result
    have short : (handled'.sent.map Seg.sent).length ≤ 1 := by simpa using few
    have answers : ∀ other ∈ l.inbox ++ handled'.sent.map Seg.sent, other.Whole := by
      intro other member
      rcases List.mem_append.mp member with old | new
      · exact smooth.inbox other old
      · obtain ⟨message, _, rfl⟩ := List.mem_map.mp new
        exact Seg.sent_whole message
    cases kind with
    | again =>
      refine ⟨⟨smooth.running, smooth.open_, by simp, ?_, answers⟩, noClosed, rfl, seg, rest, _, current,
        Or.inl rfl, rfl, short⟩
      intro segs same other member
      cases same
      exact smooth.current _ current other (List.mem_cons_of_mem _ member)
    | finish =>
      exact ⟨⟨smooth.running, smooth.open_, by simp, fun _ none => (by cases none), answers⟩, noClosed, rfl, seg,
        rest, _, current, Or.inr rfl, rfl, short⟩
    | shutdown verdict => exact absurd verdict goesOn

end link

end CloudLab.TwoPC
