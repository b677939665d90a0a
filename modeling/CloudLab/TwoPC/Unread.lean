import CloudLab.TwoPC.Progress

/-! When nothing fails, a message that fills its last read is never returned by `getMessage`,
and the request it serves is never answered. -/

namespace CloudLab.TwoPC
open Text ByteStream Tally

/-- No reply that ends the transaction has been counted; and when the PREPARED-REQUEST cannot
be read (`unread`), nobody has replied to it. -/
def Cluster.Starved (n : Nat) (unread : Prop) (c : Cluster) : Prop :=
  match c.control with
  | .sendAll _ .prepare _ _ _ => unread → ∀ i < n, (c.links i).inbox = []
  | .wait _ .prepare w => unread → w.count = 0 ∧ ∀ i < n, (c.links i).inbox = []
  | .sendAll _ (.decision _) _ _ _ => ¬ unread
  | .wait _ (.decision _) w => ¬ unread ∧ w.count = 0
  | .wait _ (.get _) w => w.count = 0 ∧ (unread → ∀ i < n, w.participantSocket i = true → (c.links i).inbox = [])
  | _ => True

def Control.Undecided : Control → Prop
  | .sendAll _ (.decision _) _ _ _ | .wait _ (.decision _) _ => False
  | _ => True

section starved
variable {n : Nat} {db : Db} {t : Txn} {c c' : Cluster} {w : Wait} {phase : Phase} {unread : Prop}
  {vaild : Nat → Bool} {links : Nat → Link} {i k : Nat} {ready : List Nat} {l : Link} {r : Request}
  {seg : Seg Char} {segs : List (Seg Char)} {control : Control}

theorem LinkInv.asked_message (link : LinkInv .smooth db control i l) (txn : control.txn = some t)
    (undecided : control.Undecided) (smooth : l.Smooth) (current : l.current = some (seg :: segs)) :
    seg.message = requestMsg t := by
  have absent (none : l.current = none) : seg.message = requestMsg t := by
    rw [none] at current
    cases current
  have nothing (follows : Follows .smooth (unsent .smooth db t) l) : seg.message = requestMsg t := by
    have none := (follows.current smooth current).1
    cases none
  have request (follows : Follows .smooth (asked .smooth db t) l) : seg.message = requestMsg t :=
    (follows.current smooth current).1 seg (by simp)
  cases control with
  | idle => cases txn
  | getNext t' todo => exact absent link.1
  | connectAll t' participantSocket alive todo =>
    cases txn
    by_cases later : i ∈ todo
    · exact absent (link.1 later).1
    · exact nothing (link.2 later).2
  | sendAll t' phase participantSocket alive todo =>
    cases txn
    cases phase with
    | prepare =>
      by_cases later : i ∈ todo
      · exact nothing (link.2.1 later)
      · exact request (link.2.2 later)
    | decision commit => exact undecided.elim
    | get rest => exact link.2.elim
  | wait t' phase w =>
    cases txn
    cases phase with
    | prepare =>
      cases descriptor : w.allFdSet i with
      | true => exact request (link.2.1 descriptor)
      | false => exact ((link.2.2 descriptor).current smooth current).1 seg (by simp)
    | decision commit => exact undecided.elim
    | get rest =>
      cases socket : w.participantSocket i with
      | true => exact ((link.1 socket).current smooth current).1 seg (by simp)
      | false => exact absent (link.2 socket).1

theorem Orderly.read_short (orderly : Orderly n db c) (free : FailureFree n c (.read i k))
    (step : (c.links i).read k = some l) :
    ∃ seg segs, (c.links i).current = some (seg :: segs) ∧ seg.message.length % 512 ≠ 0 := by
  obtain ⟨bound, exact, receives⟩ := free
  have smooth := orderly.links i bound
  obtain ⟨positive, _⟩ := Link.read_turn step
  obtain ⟨_, closed, _, seg, segs, _, current, _⟩ := smooth.read exact (orderly.served bound) step
  obtain ⟨_, _, same, whole, long⟩ : Exact k (seg :: segs) := by
    simpa [Link.ReadsExactly, closed, current] using exact
  obtain ⟨rfl, rfl⟩ := List.cons.inj same
  refine ⟨seg, segs, current, ?_⟩
  have received := receives (seg :: segs) (by simp [Link.reading, closed, current])
  rw [long, readBytes_exact whole fun none => positive (by rw [long, none]; rfl)] at received
  exact Participant.receives_iff.mp received

theorem FailureFree.reply_short (free : FailureFree n ⟨.wait t phase w, vaild, links⟩ (.reply k))
    (queue : w.ready = i :: ready) (some : ¬ (k = 0 ∨ size (links i).inbox < k)) :
    ∃ seg ∈ (links i).inbox, seg.message.length % 512 ≠ 0 := by
  have delivers : Cluster.Delivers ⟨.wait t phase w, vaild, links⟩ k := free
  simp only [Cluster.Delivers, queue] at delivers
  obtain ⟨exact, received⟩ := delivers
  obtain ⟨seg, rest, inbox, taken⟩ := taken_message some
  rw [taken exact] at received
  exact ⟨seg, by simp [inbox], Coordinator.receives_iff.mp received⟩

theorem Cluster.Starved.setLink (starved : c.Starved n unread) (same : (c.links i).inbox = [] → l.inbox = []) :
    (c.setLink i l).Starved n unread := by
  have kept (j : Nat) (empty : (c.links j).inbox = []) : ((c.setLink i l).links j).inbox = [] := by
    by_cases here : j = i
    · subst here
      rw [Cluster.setLink_self]
      exact same empty
    · rw [Cluster.setLink_of_ne c here]
      exact empty
  obtain ⟨control, vaild, links⟩ := c
  cases control with
  | idle => trivial
  | connectAll => trivial
  | getNext => trivial
  | sendAll t phase =>
    cases phase with
    | prepare => exact fun full j bound => kept j (starved full j bound)
    | decision => exact starved
    | get => trivial
  | wait t phase w =>
    cases phase with
    | prepare => exact fun full => ⟨(starved full).1, fun j bound => kept j ((starved full).2 j bound)⟩
    | decision => exact starved
    | get => exact ⟨starved.1, fun full j bound socket => kept j (starved.2 full j bound socket)⟩

theorem Cluster.Starved.undecided (starved : c.Starved n unread) (full : unread) : c.control.Undecided := by
  obtain ⟨control, vaild, links⟩ := c
  cases control with
  | sendAll _ phase =>
    cases phase with
    | decision => exact absurd full starved
    | prepare => trivial
    | get => trivial
  | wait _ phase =>
    cases phase with
    | decision => exact absurd full starved.1
    | prepare => trivial
    | get => trivial
  | idle => trivial
  | connectAll => trivial
  | getNext => trivial

theorem Cluster.Starved.readable (starved : c.Starved n unread) (short : ¬ unread)
    (same : c'.control = c.control) : c'.Starved n unread := by
  obtain ⟨control, vaild, links⟩ := c
  obtain ⟨_, vaild', links'⟩ := c'
  cases same
  cases control with
  | sendAll _ phase =>
    cases phase with
    | prepare => exact fun full => absurd full short
    | decision => exact starved
    | get => trivial
  | wait _ phase =>
    cases phase with
    | prepare => exact fun full => absurd full short
    | decision => exact starved
    | get => exact ⟨starved.1, fun full => absurd full short⟩
  | idle => trivial
  | connectAll => trivial
  | getNext => trivial

theorem request_starved {data : Str} {id : Int} (step : next n c (.request data id) = some c') :
    c'.Starved n unread := by
  cases next_branch step with
  | refused => trivial
  | get => trivial
  | write => trivial

theorem Cluster.Starved.proceed (starved : c.Starved n unread) (orderly : Orderly n db c) (positive : 0 < n)
    (plain : PlainStore db) (step : next n c .proceed = some c') :
    c'.Starved n unread ∧ c'.control.txn ≠ none := by
  cases next_branch step with
  | nobody nobody => exact absurd nobody (orderly.inv.somebody positive (orderly.everyone 0 positive))
  | @prepare t participantSocket alive vaild links =>
    refine ⟨fun _ i bound => ?_, by simp [Control.txn]⟩
    have link : LinkInv .smooth db (.connectAll t participantSocket alive []) i (links i) := orderly.link bound
    exact (link.2 (by simp)).2.1
  | @startWait t phase participantSocket alive =>
    refine ⟨?_, by simp [Control.txn]⟩
    cases phase with
    | prepare => exact fun full => ⟨rfl, starved full⟩
    | decision => exact ⟨starved, rfl⟩
    | get rest => exact absurd rfl (orderly.inv.control.2.2.2.2.2 rest)
  | @decided t w vaild links done =>
    have agreed := orderly.inv.agreed trivial positive (orderly.everyone 0 positive) done
    simp only [Cluster.decideAll, agreed, if_true]
    refine ⟨fun full => ?_, by simp [Control.txn]⟩
    simp [Wait.prepareResponse, (starved full).1] at agreed
  | @finish t phase w vaild links done voted =>
    obtain ⟨r, _, of⟩ := orderly.txn t rfl
    cases phase with
    | prepare => exact absurd rfl voted
    | decision commit =>
      exact absurd starved.2 (orderly.inv.acknowledged positive (orderly.everyone 0 positive) done)
    | get todo =>
      obtain ⟨answered, _⟩ := orderly.answerGet done of plain
      simp [Wait.commitResponse, starved.1] at answered
  | exhausted => exact absurd rfl orderly.forward

theorem Cluster.Starved.reply (starved : c.Starved n ((requestMsg t).length % 512 = 0)) (orderly : Orderly n db c)
    (txn : c.control.txn = some t) (of : t.Of r)
    (full : (requestMsg t).length % 512 = 0 ∨ (r.doneMsg db t.id).length % 512 = 0)
    (free : FailureFree n c (.reply k)) (step : next n c (.reply k) = some c') :
    c'.Starved n ((requestMsg t).length % 512 = 0) ∧ c'.control.txn ≠ none := by
  have busy : c.control.txn ≠ none := by simp [txn]
  cases next_branch step with
  | @prepared t' w w' vaild links i ready _ queue some recorded =>
    obtain ⟨seg, member, _⟩ := free.reply_short queue some
    obtain ⟨_, _, bound, _⟩ := orderly.inv.control.waits.head queue
    refine ⟨fun unread => ?_, busy⟩
    have empty : (links i).inbox = [] := (starved unread).2 i bound
    rw [empty] at member
    cases member
  | @done t' phase w w' vaild links i ready _ voted queue some recorded =>
    obtain ⟨seg, member, short⟩ := free.reply_short queue some
    obtain ⟨_, socket, bound, _⟩ := orderly.inv.control.waits.head queue
    obtain rfl : t' = t := by simpa [Control.txn] using txn
    have answer := says_done of (orderly.speaks queue seg member) orderly.inv.control.fits.2 voted
      (Control.Forward.commits orderly.forward)
    have unread : (requestMsg t').length % 512 = 0 := full.resolve_right (answer ▸ short)
    cases phase with
    | prepare => exact absurd rfl voted
    | decision => exact absurd unread starved.1
    | get =>
      have empty : (links i).inbox = [] := starved.2 unread i bound socket
      rw [empty] at member
      cases member

theorem Cluster.Starved.read (starved : c.Starved n ((requestMsg t).length % 512 = 0)) (orderly : Orderly n db c)
    (txn : c.control.txn = some t) (free : FailureFree n c (.read i k)) (step : next n c (.read i k) = some c') :
    c'.Starved n ((requestMsg t).length % 512 = 0) ∧ c'.control.txn ≠ none := by
  have busy : c.control.txn ≠ none := by simp [txn]
  obtain ⟨l, turn, rfl⟩ := Option.map_eq_some_iff.mp step
  refine ⟨?_, busy⟩
  obtain ⟨bound, exact, _⟩ := id free
  obtain ⟨seg, segs, current, short⟩ := orderly.read_short free turn
  by_cases unread : (requestMsg t).length % 512 = 0
  · have request := (orderly.link bound).asked_message txn (starved.undecided unread) (orderly.links i bound) current
    rw [request] at short
    exact absurd unread short
  · exact starved.readable unread (Cluster.setLink_control c i l)

/-- Nothing that happens answers a request whose PREPARED-REQUEST or DONE fills its last read. -/
theorem Cluster.Starved.step {event : Event} (starved : c.Starved n ((requestMsg t).length % 512 = 0))
    (orderly : Orderly n db c) (positive : 0 < n) (plain : PlainStore db) (txn : c.control.txn = some t)
    (of : t.Of r) (full : (requestMsg t).length % 512 = 0 ∨ (r.doneMsg db t.id).length % 512 = 0)
    (notRequest : event.isRequest = false) (free : FailureFree n c event) (step : next n c event = some c') :
    c'.Starved n ((requestMsg t).length % 512 = 0) ∧ c'.control.txn ≠ none := by
  have busy : c.control.txn ≠ none := by simp [txn]
  cases event with
  | request => cases notRequest
  | connect ok =>
    cases next_branch step with
    | connectGone => exact ⟨trivial, busy⟩
    | connected => exact ⟨trivial, busy⟩
    | connectFailed => cases free
    | getGone => exact ⟨trivial, busy⟩
    | @asked t' j todo vaild links =>
      refine ⟨⟨rfl, fun _ i _ socket => ?_⟩, busy⟩
      obtain rfl : i = j := by simpa [Wait.start] using socket
      simp [Link.connect, Link.send]
    | getFailed => cases free
  | send =>
    cases next_branch step with
    | @send t' phase participantSocket alive j todo vaild links =>
      refine ⟨?_, busy⟩
      cases phase with
      | prepare =>
        intro unread i bound
        have empty : (links i).inbox = [] := starved unread i bound
        dsimp only
        split
        · by_cases here : i = j
          · subst here
            simpa [Link.send] using empty
          · rw [Function.update_of_ne here]
            exact empty
        · exact empty
      | decision => exact starved
      | get => trivial
  | select ready =>
    cases next_branch step with
    | @select _ phase =>
      refine ⟨?_, busy⟩
      cases phase with
      | prepare => exact starved
      | decision => exact starved
      | get => exact starved
  | reply k => exact starved.reply orderly txn of full free step
  | read i k => exact starved.read orderly txn free step
  | eof i =>
    obtain ⟨l, ended, rfl⟩ := Option.map_eq_some_iff.mp step
    have same := ((orderly.links i free).eof ended).2.1
    exact ⟨starved.setLink fun empty => same.trans empty, busy⟩
  | proceed => exact starved.proceed orderly positive plain step
  | timeout => exact absurd free id
  | hangup => exact absurd free id
  | lose => exact absurd free id
  | stop => exact absurd free id
  | kill => exact absurd free id

end starved

section session
variable {n : Nat} {requests before after : List (Request × Int)} {r : Request} {id : Int} {s s' : Session}
  {event : Event}

/-- The request after those of `before` is not answered. -/
def Session.Blocked (n : Nat) (requests before : List (Request × Int)) (r : Request) (s : Session) : Prop :=
  ∃ answered, s.Sequential n requests answered ∧ answered.length ≤ before.length ∧
    (answered.length = before.length → ∀ t, s.cluster.control.txn = some t →
      r.encode.length % 512 ≠ 0 ∧ s.cluster.Starved n ((requestMsg t).length % 512 = 0))

theorem Session.Sequential.served {answered : List (Request × Int)} {t : Txn}
    (sequential : s.Sequential n requests answered) (split : requests = before ++ (r, id) :: after)
    (same : answered.length = before.length) (busy : s.cluster.control.txn = some t) :
    answered = before ∧ t.Of r ∧ t.id = id := by
  obtain ⟨r', split', of⟩ := sequential.busy t busy
  rw [split] at split'
  obtain ⟨rfl, rest⟩ := List.append_inj split' same.symm
  obtain ⟨request, _⟩ := List.cons.inj rest
  obtain ⟨rfl, rfl⟩ := Prod.mk.inj request
  exact ⟨rfl, of, rfl⟩

theorem Session.Blocked.step (positive : 0 < n) (split : requests = before ++ (r, id) :: after)
    (full : ¬ r.Unfilled (Session.store before) id) (blocked : s.Blocked n requests before r)
    (step : Session.Step n s event s') : s'.Blocked n requests before r := by
  obtain ⟨answered, sequential, few, starved⟩ := blocked
  cases step with
  | @request c r' id' waiting queue free step =>
    obtain ⟨idle, after⟩ := sequential.request positive queue step
    refine ⟨answered, after, few, fun same t busy => ⟨?_, request_starved step⟩⟩
    have here := sequential.idle idle
    rw [queue, split] at here
    obtain ⟨_, rest⟩ := List.append_inj here same.symm
    obtain ⟨request, _⟩ := List.cons.inj rest
    obtain ⟨rfl, rfl⟩ := Prod.mk.inj request
    exact Coordinator.receives_iff.mp free
  | @other c _ notRequest free step =>
    have going (same : answered.length = before.length) (t : Txn) (busy : s.cluster.control.txn = some t) :
        r.encode.length % 512 ≠ 0 ∧ c.Starved n ((requestMsg t).length % 512 = 0) ∧ c.control.txn ≠ none := by
      obtain ⟨rfl, of, rfl⟩ := sequential.served split same busy
      obtain ⟨received, stuck⟩ := starved same t busy
      have some : (requestMsg t).length % 512 = 0 ∨ (r.doneMsg (Session.store answered) t.id).length % 512 = 0 := by
        by_contra none
        rw [not_or] at none
        exact full ⟨received, of.requestMsg_eq ▸ none.1, none.2⟩
      exact ⟨received, stuck.step sequential.orderly positive sequential.plain busy of some notRequest free step⟩
    rcases sequential.other positive notRequest free step with ⟨txn, kept⟩ | ⟨t, r', busy, idle, answers⟩
    · refine ⟨answered, kept, few, fun same t busy => ?_⟩
      obtain ⟨received, stuck, _⟩ := going same t (txn ▸ busy)
      exact ⟨received, stuck⟩
    · have less : answered.length ≠ before.length := fun same => (going same t busy).2.2 idle
      refine ⟨_, answers, ?_, fun _ t' still => ?_⟩
      · rw [List.length_append, List.length_singleton]
        omega
      · have none : c.control.txn = some t' := still
        rw [idle] at none
        cases none

theorem Session.Blocked.init (valid : Session.Valid requests) :
    (Session.init requests).Blocked n requests before r := by
  refine ⟨[], .init n valid, Nat.zero_le _, fun _ t none => ?_⟩
  cases none

theorem Request.exists_filled {db : Db} (filled : ¬ Request.AllUnfilled db requests) :
    ∃ before r id after, requests = before ++ (r, id) :: after ∧
      ¬ r.Unfilled (Request.store db (before.map Prod.fst)) id := by
  induction requests generalizing db with
  | nil => exact absurd trivial filled
  | cons request requests ih =>
    by_cases first : request.1.Unfilled db request.2
    · have rest : ¬ Request.AllUnfilled (request.1.apply db) requests := fun rest => filled ⟨first, rest⟩
      obtain ⟨before, r, id, after, split, filled⟩ := ih rest
      exact ⟨request :: before, r, id, after, by rw [split]; rfl, filled⟩
    · exact ⟨[], request.1, request.2, requests, rfl, first⟩

theorem Session.length_mapReplies (requests : List (Request × Int)) :
    (Session.mapReplies requests).length = requests.length := by
  have long (db : Db) (requests : List Request) : (Request.replies db requests).length = requests.length := by
    induction requests generalizing db with
    | nil => rfl
    | cons r requests ih => rw [Request.replies, List.length_cons, ih, List.length_cons]
  rw [Session.mapReplies, long, List.length_map]

theorem Session.not_refines (positive : 0 < n) (valid : Session.Valid requests)
    (filled : ¬ Request.AllUnfilled (fun _ => none) requests) : ¬ Session.Refines n requests := by
  intro refines
  obtain ⟨before, r, id, after, split, full⟩ := Request.exists_filled filled
  obtain ⟨bound, all⟩ := refines
  obtain ⟨events, s, run, final⟩ := Run.exists_final fun events s run => (all events s run).1
  have replies := (all events s run).2.2 final
  obtain ⟨answered, sequential, few, _⟩ := run.invariant (fun s => s.Blocked n requests before r)
    (fun _ _ _ blocked step => blocked.step positive split full step) (.init valid)
  have long := congrArg List.length (sequential.replies.symm.trans replies)
  rw [Session.length_mapReplies, Session.length_mapReplies, split, List.length_append, List.length_cons] at long
  omega

/-- When nothing fails, the replies are those of one sequential map exactly when no request,
PREPARED-REQUEST or DONE fills its last read. -/
theorem failure_free_refines_map_iff (n : Nat) (positive : 0 < n) (requests : List (Request × Int))
    (valid : Session.Valid requests) :
    Session.Refines n requests ↔ Request.AllUnfilled (fun _ => none) requests := by
  constructor
  · intro refines
    by_contra filled
    exact Session.not_refines positive valid filled refines
  · exact Session.refines_of_unfilled positive valid

end session

def setTwoWords : Request := .set "k".toList "a".toList ["b".toList]

theorem plain_letter {c : Char} (letter : c ≠ '\r' ∧ c ≠ '\n' ∧ c ≠ '*' ∧ c ≠ '$') (count : Nat) :
    Request.Plain (List.replicate (count + 1) c) := by
  refine ⟨by simp, ?_, ?_, ?_, ?_⟩
  · exact fun member => letter.1 (List.eq_of_mem_replicate member).symm
  · exact fun member => letter.2.1 (List.eq_of_mem_replicate member).symm
  · simpa [List.replicate_succ] using letter.2.2.1
  · simpa [List.replicate_succ] using letter.2.2.2

theorem failure_free_refines_map_three :
    let requests := [(setTwoWords, 7), (Request.get "k".toList, 7), (Request.del "k".toList ["k".toList], 7)]
    Session.Refines 2 requests ∧ Session.mapReplies requests =
      ["+OK\r\n".toList, "*2\r\n$1\r\na\r\n$1\r\nb\r\n".toList, ":1\r\n".toList] := by
  intro requests
  have plain (c : Char) (letter : c ≠ '\r' ∧ c ≠ '\n' ∧ c ≠ '*' ∧ c ≠ '$') : Request.Plain [c] :=
    plain_letter letter 0
  have valid : Session.Valid requests := by
    intro request member
    simp only [requests, List.mem_cons, List.not_mem_nil, or_false] at member
    rcases member with rfl | rfl | rfl
    all_goals
      refine ⟨?_, by decide, by decide⟩
      intro s inside
      simp only [setTwoWords, Request.strings, List.tail_cons, List.mem_cons, List.not_mem_nil, or_false] at inside
      rcases inside with rfl | rfl | rfl <;> exact plain _ (by decide)
  exact ⟨(failure_free_refines_map_iff 2 (by decide) requests valid).mpr (by decide +kernel), by decide +kernel⟩

theorem request_never_answered {r : Request} (valid : r.Valid) (filled : r.encode.length % 512 = 0) :
    ¬ Session.Refines 1 [(r, 0)] := by
  refine Session.not_refines (by decide) ?_ fun unfilled => unfilled.1.1 filled
  intro request member
  rw [List.mem_singleton.mp member]
  exact ⟨valid, Int.le_refl 0, Int.natCast_nonneg 9999⟩

def letterSet (count : Nat) : Request := .set "k".toList (List.replicate count 'v') []

theorem length_letterSet {count : Nat} (low : 100 ≤ count) (high : count < 1000) :
    (letterSet count).encode.length = count + 28 := by
  have digits : (decimal count).length = 3 := by
    have most : (decimal count).length ≤ 3 := (length_decimal_le_iff (by decide)).mpr (by omega)
    have least : ¬ (decimal count).length ≤ 2 := fun few => by
      have small := (length_decimal_le_iff (by decide)).mp few
      omega
    omega
  have one : (decimal (1 : Nat)).length = 1 := by decide
  have three : (decimal (3 : Nat)).length = 1 := by decide
  have commands : SET.length = 3 ∧ crlf.length = 2 ∧ "k".toList.length = 1 := by decide
  simp only [letterSet, Request.encode, Request.strings, respArray, bulk, List.length_append, List.length_cons,
    List.flatMap_cons, List.flatMap_nil, List.length_nil, List.length_replicate, digits, commands, one, three,
    Nat.zero_add, Nat.reduceAdd]
  omega

theorem letterSet_valid (count : Nat) : (letterSet (count + 1)).Valid := by
  intro s inside
  simp only [letterSet, Request.strings, List.tail_cons, List.mem_cons, List.not_mem_nil, or_false] at inside
  rcases inside with rfl | rfl
  · exact plain_letter (by decide) 0
  · exact plain_letter (by decide) count

/-- A SET whose RESP text is exactly 512 bytes long is never answered: the coordinator waits
in `recv` for the rest of it. -/
theorem failure_free_not_refines : (letterSet 484).Valid ∧ (letterSet 484).encode.length = 512 ∧
    Coordinator.getMessage [] (delivered Coordinator.MAX_BUF_SIZE (letterSet 484).encode) = none ∧
    ¬ Session.Refines 1 [(letterSet 484, 0)] := by
  have long : (letterSet 484).encode.length = 512 := length_letterSet (by decide) (by decide)
  have filled : (letterSet 484).encode.length % 512 = 0 := by rw [long]
  refine ⟨letterSet_valid 483, long, ?_, ?_⟩
  · have waits := recvLoop_delivered (show 0 < 512 by decide) (letterSet 484).encode
    rw [if_pos filled] at waits
    exact waits
  · exact request_never_answered (letterSet_valid 483) filled

end CloudLab.TwoPC
