import CloudLab.TwoPC.Orderly

/-! When nothing fails, the coordinator's replies are those of one sequential map. -/

namespace CloudLab.TwoPC
open Text ByteStream Tally

/-! What the coordinator finds at the end of its loops when a participant is left. -/

section left
variable {mode : Mode} {n : Nat} {db : Db} {t : Txn} {w : Wait} {vaild participantSocket : Nat → Bool}
  {links : Nat → Link} {alive : Int} {i : Nat}

theorem Inv.somebody (inv : Inv mode n db ⟨.connectAll t participantSocket alive [], vaild, links⟩) (bound : i < n)
    (present : vaild i = true) : alive ≠ 0 := by
  intro zero
  obtain ⟨_, _, _, counted, _⟩ := inv.control
  have socket := ((inv.links i bound present).2 (by simp)).1
  have none : tally n participantSocket = 0 := by omega
  rw [tally_eq_zero.mp none i bound] at socket
  cases socket

theorem Inv.agreed (inv : Inv mode n db ⟨.wait t .prepare w, vaild, links⟩) (whole : mode.whole) (bound : i < n)
    (present : vaild i = true) (ended : ¬ w.GoesOn) : w.prepareResponse n = 1 := by
  obtain ⟨_, _, known⟩ := inv.control
  have link : WaitLink mode db t w i (links i) .prepare := inv.links i bound present
  have counted := (known.settled ended bound link.1).2
  have all : Wait.checkParticipantPreparedResponse n w.response = true := by
    have some : n ≠ 0 := by omega
    simp [Wait.checkParticipantPreparedResponse, some, known.agreed whole]
  simp [Wait.prepareResponse, counted, all]

theorem Inv.acknowledged {commit : Bool} (inv : Inv mode n db ⟨.wait t (.decision commit) w, vaild, links⟩)
    (bound : i < n) (present : vaild i = true) (ended : ¬ w.GoesOn) : w.count ≠ 0 := by
  obtain ⟨valid, writes, known, untouched⟩ := inv.control
  intro zero
  have socket := untouched zero i bound present
  rw [known.settled ended bound] at socket
  cases socket

theorem words_nil_reply : words NIL = [NIL] := by decide

theorem Inv.answerGet {todo : List Nat} (inv : Inv mode n db ⟨.wait t (.get todo) w, vaild, links⟩)
    (whole : mode.whole) (strict : ¬ mode.pend) (counted : w.count ≠ 0) (plain : PlainStore db) {key : Str}
    {rest : List Str} (reads : t.split_message = GET :: key :: rest) :
    w.commitResponse = 1 ∧ getClientGetOrDelMsg t.id w.response_split_msg =
      respArray (match db key with | none => [NIL] | some value => words value) := by
  obtain ⟨_, _, known, _⟩ := inv.control
  obtain ⟨message, reply, verdict, fields, parsed, response⟩ := known.first counted whole
  obtain ⟨key', field, rfl⟩ := reply strict
  obtain rfl : key = key' := by simpa [reads] using field
  have line : (db key).getD NIL ≠ [] ∧ '\n' ∉ (db key).getD NIL := by
    cases found : db key with
    | none => exact ⟨by decide, by decide⟩
    | some value => exact plain key value found
  rw [parse_done (no_newline_words GET (by simp)) line.1 line.2, Option.some.injEq, Prod.mk.injEq] at parsed
  obtain ⟨rfl, rfl⟩ := parsed
  refine ⟨by simp [Wait.commitResponse, counted], ?_⟩
  rw [response rfl, getClientGetOrDelMsg_get _ _ _ line.1]
  cases found : db key with
  | none => simp [words_nil_reply]
  | some value => simp

def Op.reply (db : Db) : Op → Str
  | .set _ _ => getClientOKMsg
  | .del key keys => ':' :: decimal (countDeleted db (key :: keys)) ++ crlf

theorem Inv.answerWrite (inv : Inv mode n db ⟨.wait t (.decision true) w, vaild, links⟩) (whole : mode.whole)
    (counted : w.count ≠ 0) : ∃ op : Op, t.split_message = op.fields ∧
      Cluster.finishAll ⟨.wait t (.decision true) w, vaild, links⟩ t (.decision true) w =
        ⟨.idle (some (t, op.reply db)), vaild, links⟩ := by
  obtain ⟨_, _, known, _⟩ := inv.control
  obtain ⟨message, done, verdict, fields, parsed, response⟩ := known.first counted whole
  have answer : w.commitResponse = 1 := by simp [Wait.commitResponse, counted]
  obtain ⟨op, same, _⟩ := id done
  refine ⟨op, same, ?_⟩
  cases op with
  | set key value =>
    have set : t.split_message[0]? = some SET := congrArg (fun fields => fields[0]?) same
    simp only [Cluster.finishAll, answer, if_true, set, Cluster.answer, Op.reply]
  | del key keys =>
    obtain ⟨yes, text⟩ := done.reply same parsed
    have del : t.split_message[0]? = some DEL := congrArg (fun fields => fields[0]?) same
    have notSet : t.split_message[0]? ≠ some SET := by simp [del]
    simp only [Cluster.finishAll, answer, if_true, if_neg notSet, Cluster.answer, response yes, text, Op.reply]

end left

section ends
variable {n : Nat} {db : Db} {t : Txn} {c c' : Cluster} {w : Wait} {vaild participantSocket : Nat → Bool}
  {links : Nat → Link} {alive : Int} {r : Request} {l : Link}

/-- The answer to a GET is that of the map. -/
theorem Orderly.answerGet {todo : List Nat} (orderly : Orderly n db ⟨.wait t (.get todo) w, vaild, links⟩)
    (ended : ¬ w.GoesOn) (of : t.Of r) (plain : PlainStore db) :
    w.commitResponse = 1 ∧ getClientGetOrDelMsg t.id w.response_split_msg = r.reply db ∧ r.apply db = db := by
  obtain ⟨valid, ⟨key, rest, reads⟩, known, _, somebody⟩ := orderly.inv.control
  have counted : w.count ≠ 0 := by
    intro zero
    obtain ⟨i, bound, socket⟩ := somebody trivial zero
    rw [known.settled ended bound] at socket
    cases socket
  obtain ⟨answered, text⟩ := orderly.inv.answerGet trivial id counted plain reads
  rw [Txn.Of, reads] at of
  cases r with
  | set => simp [Request.fields] at of
  | del => simp [Request.fields] at of
  | get asked =>
    obtain ⟨rfl, _⟩ : key = asked ∧ rest = [] := by simpa [Request.fields] using of
    exact ⟨answered, text, rfl⟩

/-- The answer to a SET or DEL is that of the map. -/
theorem Orderly.answerWrite (orderly : Orderly n db ⟨.wait t (.decision true) w, vaild, links⟩)
    (positive : 0 < n) (ended : ¬ w.GoesOn) (of : t.Of r) :
    Cluster.finishAll ⟨.wait t (.decision true) w, vaild, links⟩ t (.decision true) w =
      ⟨.idle (some (t, r.reply db)), vaild, links⟩ ∧ t.apply db = r.apply db := by
  have counted := orderly.inv.acknowledged positive (orderly.everyone 0 positive) ended
  obtain ⟨op, same, answer⟩ := orderly.inv.answerWrite trivial counted
  rw [answer, Txn.apply_eq same]
  rw [Txn.Of, same] at of
  cases r with
  | get key => cases op <;> simp [Request.fields, Op.fields] at of
  | set key value more =>
    cases op with
    | del => simp [Request.fields, Op.fields] at of
    | set key' value' =>
      obtain ⟨rfl, rfl⟩ : key' = key ∧ value' = Request.joined value more := by
        simpa [Request.fields, Op.fields] using of
      exact ⟨rfl, Request.apply_op (r := .set key' value more) rfl db⟩
  | del key keys =>
    cases op with
    | set => simp [Request.fields, Op.fields] at of
    | del key' keys' =>
      obtain ⟨rfl, rfl⟩ : key' = key ∧ keys' = keys := by simpa [Request.fields, Op.fields] using of
      refine ⟨?_, Request.apply_op (r := .del key' keys') rfl db⟩
      rw [Op.reply, countDeleted_eq, Request.reply]

theorem Orderly.proceed (orderly : Orderly n db c) (positive : 0 < n) (plain : PlainStore db)
    (step : next n c .proceed = some c') :
    Orderly n (nextStore c db .proceed) c' ∧ ∃ t, c.control.txn = some t ∧
      ((c'.control.txn = some t ∧ nextStore c db .proceed = db) ∨
        ∀ r : Request, t.Of r → c'.control = .idle (some (t, r.reply db)) ∧
          nextStore c db .proceed = r.apply db) := by
  have inv := orderly.inv.proceed step
  have present := orderly.everyone 0 positive
  cases next_branch step with
  | nobody nobody => exact absurd nobody (orderly.inv.somebody positive present)
  | @prepare t =>
    exact ⟨⟨inv, orderly.links, fun _ _ _ wrong => (by cases wrong), trivial, orderly.txn⟩, t, rfl,
      Or.inl ⟨rfl, rfl⟩⟩
  | @startWait t phase =>
    refine ⟨⟨inv, orderly.links, readable_wait fun i member => (by cases member), ?_, orderly.txn⟩, t, rfl,
      Or.inl ⟨rfl, rfl⟩⟩
    have forward := orderly.forward
    cases phase with
    | decision commit => exact forward
    | prepare => trivial
    | get => trivial
  | @decided t w vaild links done =>
    simp only [Cluster.decideAll, orderly.inv.agreed trivial positive present done, if_true] at inv ⊢
    exact ⟨⟨inv, orderly.links, fun _ _ _ wrong => (by cases wrong), rfl, orderly.txn⟩, t, rfl,
      Or.inl ⟨rfl, rfl⟩⟩
  | @finish t phase w vaild links done voted =>
    obtain ⟨r, _, of⟩ := orderly.txn t rfl
    cases phase with
    | prepare => exact absurd rfl voted
    | decision commit =>
      obtain rfl : commit = true := orderly.forward
      have answer := (orderly.answerWrite positive done of).1
      rw [answer] at inv ⊢
      refine ⟨⟨inv, orderly.links, fun _ _ _ wrong => (by cases wrong), trivial, fun _ none => (by cases none)⟩,
        t, rfl, Or.inr fun r of => ?_⟩
      obtain ⟨again, stored⟩ := orderly.answerWrite positive done of
      exact ⟨congrArg Cluster.control (answer.symm.trans again), stored⟩
    | get todo =>
      obtain ⟨answered, _⟩ := orderly.answerGet done of plain
      simp only [Cluster.finishAll, answered, Int.zero_lt_one, if_true] at inv ⊢
      refine ⟨⟨inv, orderly.links, fun _ _ _ wrong => (by cases wrong), trivial, fun _ none => (by cases none)⟩,
        t, rfl, Or.inr fun r of => ?_⟩
      obtain ⟨_, text, stored⟩ := orderly.answerGet done of plain
      exact ⟨by rw [← text]; rfl, stored.symm⟩
  | exhausted => exact absurd rfl orderly.forward

theorem Orderly.request (orderly : Orderly n db c) (positive : 0 < n) {r : Request} (valid : r.Valid) {id : Int}
    (step : next n c (.request r.encode id) = some c') :
    Orderly n db c' ∧ c.control.txn = none ∧ ∃ t, c'.control.txn = some t ∧ t.Of r ∧ t.id = id := by
  have inv := orderly.inv.request (fun pend => absurd pend not_false) step
  have filled : List.range n ≠ [] := by
    intro none
    rw [List.range_eq_nil] at none
    omega
  have cleared : ∀ i < n, (c.links i).clear.Smooth := fun i bound =>
    let smooth := orderly.links i bound
    ⟨smooth.running, smooth.open_, smooth.closed, smooth.current, smooth.inbox⟩
  have kept : ∀ t : Txn, t.Of r → ∀ t', some t = some t' → ∃ r : Request, r.Valid ∧ t'.Of r := by
    intro t of t' same
    cases same
    exact ⟨r, valid, of⟩
  have parses := parseClientMsg_encode valid
  cases next_branch step with
  | refused _ parsed =>
    rw [parses] at parsed
    cases parsed
  | get _ parsed =>
    rw [parses] at parsed
    cases parsed
    exact ⟨⟨inv, cleared, fun _ _ _ wrong => (nomatch wrong), filled, kept _ rfl⟩, rfl, _, rfl, rfl, rfl⟩
  | write _ parsed =>
    rw [parses] at parsed
    cases parsed
    exact ⟨⟨inv, cleared, fun _ _ _ wrong => (nomatch wrong), trivial, kept _ rfl⟩, rfl, _, rfl, rfl, rfl⟩

theorem Orderly.init (n : Nat) : Orderly n (fun _ => none) Cluster.init :=
  { inv := Inv.init .smooth n
    links := fun _ _ => ⟨rfl, rfl, fun _ none => (nomatch none), fun _ none => (nomatch none),
      fun _ none => (nomatch none)⟩
    readable := fun _ _ _ wrong => nomatch wrong
    forward := trivial
    txn := fun _ none => nomatch none }

end ends

/-! Whole sessions. -/

/-- The system with the requests that are still to come, under the ids that will be drawn
for them, and the replies it has sent. -/
structure Session where
  cluster : Cluster
  waiting : List (Request × Int)
  replies : List Str

def Session.init (requests : List (Request × Int)) : Session :=
  { cluster := Cluster.init, waiting := requests, replies := [] }

def Cluster.sentReply (before after : Cluster) : List Str :=
  match before.control.txn, after.control with
  | some _, .idle (some (_, reply)) => [reply]
  | _, _ => []

inductive Session.Step (n : Nat) : Session → Event → Session → Prop
  | request {s : Session} {c : Cluster} {r : Request} {id : Int} {waiting : List (Request × Int)} :
      s.waiting = (r, id) :: waiting → FailureFree n s.cluster (.request r.encode id) →
      next n s.cluster (.request r.encode id) = some c →
      Session.Step n s (.request r.encode id) { cluster := c, waiting := waiting, replies := s.replies }
  | other {s : Session} {c : Cluster} {event : Event} : event.isRequest = false →
      FailureFree n s.cluster event → next n s.cluster event = some c →
      Session.Step n s event
        { cluster := c, waiting := s.waiting, replies := s.replies ++ s.cluster.sentReply c }

def Session.store (requests : List (Request × Int)) : Db :=
  Request.store (fun _ => none) (requests.map Prod.fst)

def Session.mapReplies (requests : List (Request × Int)) : List Str :=
  Request.replies (fun _ => none) (requests.map Prod.fst)

theorem Session.store_snoc (requests : List (Request × Int)) (r : Request) (id : Int) :
    Session.store (requests ++ [(r, id)]) = r.apply (Session.store requests) := by
  rw [Session.store, List.map_append, List.map_singleton, Request.store_snoc]
  rfl

theorem Session.mapReplies_snoc (requests : List (Request × Int)) (r : Request) (id : Int) :
    Session.mapReplies (requests ++ [(r, id)]) =
      Session.mapReplies requests ++ [r.reply (Session.store requests)] := by
  rw [Session.mapReplies, List.map_append, List.map_singleton, Request.replies_snoc]
  rfl

/-- Requests that a RESP client sends, under ids that the source draws. -/
def Session.Valid (requests : List (Request × Int)) : Prop :=
  ∀ request ∈ requests, request.1.Valid ∧ 0 ≤ request.2 ∧ request.2 ≤ 9999

/-- The requests answered so far have had the map's replies. -/
structure Session.Sequential (n : Nat) (requests answered : List (Request × Int)) (s : Session) : Prop where
  orderly : Orderly n (Session.store answered) s.cluster
  valid : Session.Valid requests
  replies : s.replies = Session.mapReplies answered
  idle : s.cluster.control.txn = none → requests = answered ++ s.waiting
  busy : ∀ t, s.cluster.control.txn = some t →
    ∃ r, requests = answered ++ (r, t.id) :: s.waiting ∧ t.Of r

section session
variable {n : Nat} {requests answered : List (Request × Int)} {s s' : Session} {c : Cluster} {event : Event}

theorem Session.Sequential.begins (sequential : s.Sequential n requests answered) :
    answered <+: requests := by
  cases txn : s.cluster.control.txn with
  | none => exact ⟨s.waiting, (sequential.idle txn).symm⟩
  | some t =>
    obtain ⟨r, same, _⟩ := sequential.busy t txn
    exact ⟨(r, t.id) :: s.waiting, same.symm⟩

theorem Session.Sequential.plain (sequential : s.Sequential n requests answered) :
    PlainStore (Session.store answered) := by
  refine store_plain ?_ plainStore_empty
  intro r member
  obtain ⟨request, inside, rfl⟩ := List.mem_map.mp member
  exact (sequential.valid request (sequential.begins.subset inside)).1

theorem Session.Sequential.same (sequential : s.Sequential n requests answered)
    (orderly : Orderly n (Session.store answered) c)
    (txn : c.control.txn = s.cluster.control.txn) (silent : s.cluster.sentReply c = []) :
    Session.Sequential n requests answered
      { cluster := c, waiting := s.waiting, replies := s.replies ++ s.cluster.sentReply c } :=
  { orderly := orderly
    valid := sequential.valid
    replies := by rw [silent, List.append_nil]; exact sequential.replies
    idle := fun none => sequential.idle (txn ▸ none)
    busy := fun t some => sequential.busy t (txn ▸ some) }

theorem Cluster.sentReply_busy {before after : Cluster} (busy : after.control.txn.isSome) :
    before.sentReply after = [] := by
  unfold Cluster.sentReply
  split
  · next control => simp [control, Control.txn] at busy
  · rfl

theorem Cluster.sentReply_idle {before after : Cluster} (idle : before.control.txn = none) :
    before.sentReply after = [] := by
  unfold Cluster.sentReply
  rw [idle]

theorem Cluster.sentReply_same {before after : Cluster} (same : after.control = before.control) :
    before.sentReply after = [] := by
  cases txn : before.control.txn with
  | none => exact Cluster.sentReply_idle txn
  | some t => exact Cluster.sentReply_busy (by rw [same, txn]; rfl)

theorem Session.Sequential.mem_waiting (sequential : s.Sequential n requests answered) {r : Request} {id : Int}
    {waiting : List (Request × Int)} (queue : s.waiting = (r, id) :: waiting) : (r, id) ∈ requests := by
  cases txn : s.cluster.control.txn with
  | none =>
    rw [sequential.idle txn, queue]
    simp
  | some t =>
    obtain ⟨_, same, _⟩ := sequential.busy t txn
    rw [same, queue]
    simp

theorem Session.Sequential.request (sequential : s.Sequential n requests answered) (positive : 0 < n) {r : Request}
    {id : Int} {waiting : List (Request × Int)} (queue : s.waiting = (r, id) :: waiting)
    (step : next n s.cluster (.request r.encode id) = some c) : s.cluster.control.txn = none ∧
      Session.Sequential n requests answered { cluster := c, waiting := waiting, replies := s.replies } := by
  obtain ⟨after, idle, t, txn, of, same⟩ :=
    sequential.orderly.request positive (sequential.valid _ (sequential.mem_waiting queue)).1 step
  refine ⟨idle, { orderly := after, valid := sequential.valid, replies := sequential.replies, idle := ?_, busy := ?_ }⟩
  · intro none
    rw [txn] at none
    cases none
  · intro t' other
    rw [txn, Option.some.injEq] at other
    subst other
    refine ⟨r, ?_, of⟩
    rw [same, ← queue]
    exact sequential.idle idle

theorem Session.Sequential.other (sequential : s.Sequential n requests answered) (positive : 0 < n)
    (notRequest : event.isRequest = false) (free : FailureFree n s.cluster event)
    (step : next n s.cluster event = some c) :
    let s' : Session := { cluster := c, waiting := s.waiting, replies := s.replies ++ s.cluster.sentReply c }
    (c.control.txn = s.cluster.control.txn ∧ s'.Sequential n requests answered) ∨
      ∃ t r, s.cluster.control.txn = some t ∧ c.control.txn = none ∧
        s'.Sequential n requests (answered ++ [(r, t.id)]) := by
  have orderly := sequential.orderly
  cases event with
  | request => cases notRequest
  | connect ok =>
    obtain ⟨after, txn, busy⟩ := orderly.connect free step
    exact Or.inl ⟨txn, sequential.same after txn (Cluster.sentReply_busy busy)⟩
  | send =>
    obtain ⟨after, txn, busy⟩ := orderly.send step
    exact Or.inl ⟨txn, sequential.same after txn (Cluster.sentReply_busy busy)⟩
  | select ready =>
    obtain ⟨after, txn, busy⟩ := orderly.select step
    exact Or.inl ⟨txn, sequential.same after txn (Cluster.sentReply_busy busy)⟩
  | reply k =>
    obtain ⟨after, txn, busy⟩ := orderly.reply free step
    exact Or.inl ⟨txn, sequential.same after txn (Cluster.sentReply_busy busy)⟩
  | read i k =>
    have after := orderly.read free step
    obtain ⟨l', _, rfl⟩ := Option.map_eq_some_iff.mp step
    exact Or.inl ⟨rfl, sequential.same after rfl (Cluster.sentReply_same rfl)⟩
  | eof i =>
    have after := orderly.eof step
    obtain ⟨l', _, rfl⟩ := Option.map_eq_some_iff.mp step
    exact Or.inl ⟨rfl, sequential.same after rfl (Cluster.sentReply_same rfl)⟩
  | proceed =>
    obtain ⟨after, t, txn, ends⟩ := orderly.proceed positive sequential.plain step
    rcases ends with ⟨still, store⟩ | answers
    · rw [store] at after
      have same := still.trans txn.symm
      exact Or.inl ⟨same, sequential.same after same (Cluster.sentReply_busy (by rw [still]; rfl))⟩
    · obtain ⟨r, queue, of⟩ := sequential.busy t txn
      obtain ⟨control, store⟩ := answers r of
      rw [store, ← Session.store_snoc answered r t.id] at after
      refine Or.inr ⟨t, r, txn, by rw [control]; rfl,
        { orderly := after, valid := sequential.valid, replies := ?_, idle := ?_, busy := ?_ }⟩
      · simp only [Cluster.sentReply, txn, control, Session.mapReplies_snoc, sequential.replies]
      · intro _
        rw [queue, List.append_assoc]
        rfl
      · intro t' busy
        simp [control, Control.txn] at busy
  | timeout => exact absurd free id
  | hangup => exact absurd free id
  | lose => exact absurd free id
  | stop => exact absurd free id
  | kill => exact absurd free id

theorem Session.Sequential.step (sequential : s.Sequential n requests answered) (positive : 0 < n)
    (step : Session.Step n s event s') : ∃ answered', s'.Sequential n requests answered' := by
  cases step with
  | request queue _ step => exact ⟨_, (sequential.request positive queue step).2⟩
  | other notRequest free step =>
    rcases sequential.other positive notRequest free step with ⟨_, after⟩ | ⟨_, _, _, _, after⟩
    · exact ⟨_, after⟩
    · exact ⟨_, after⟩

theorem Session.Sequential.init (n : Nat) (valid : Session.Valid requests) :
    (Session.init requests).Sequential n requests [] :=
  { orderly := Orderly.init n
    valid := valid
    replies := rfl
    idle := fun _ => rfl
    busy := fun _ none => nomatch none }

/-- Every session is that of the map. -/
theorem Session.sequential (positive : 0 < n) (valid : Session.Valid requests) {events : List Event}
    (run : Run (Session.Step n) (Session.init requests) events s) :
    ∃ answered, s.Sequential n requests answered :=
  run.invariant (fun s => ∃ answered, s.Sequential n requests answered)
    (fun _ _ _ ⟨_, sequential⟩ step => sequential.step positive step) ⟨[], .init n valid⟩

end session

end CloudLab.TwoPC
