import CloudLab.TwoPC.Endless

/-! The loops of the two servers over their connections, with the descriptors that each process has open. -/

namespace CloudLab.TwoPC

open CloudLab Text Tally Descriptors

/-- Where the coordinator is: waiting in `accept`, with what it has sent to the last client; about to
connect to all participants; in `waitForPrepared`; in `waitForCommitOrAbort`; or at the head of the loop
of `handleGET`. The client is on `connfd`. -/
inductive Serving
  | idle (c : Coordinator) (sent : List Str)
  | connect (connfd : Int) (t : Txn) (c : Coordinator)
  | prepare (connfd : Int) (t : Txn) (s : Poll)
  | finish (connfd : Int) (t : Txn) (phase : Phase) (s : Finish)
  | getNext (connfd : Int) (t : Txn) (participantSocket : Nat → Int) (c : Coordinator) (todo : List Nat)

namespace Serving

/-- What a step of the coordinator depends on: a connection from `accept`, with what `getMessage` finds
on it and the next random id; which calls of `connect` would succeed; the outcome of a `select`. -/
inductive Event
  | accept (received : Option Str) (id : Int)
  | connectAll (connects : Nat → Nat → Bool)
  | connectOne (connects : Nat → Bool)
  | selected (polled : Polled)
  | selectFails
  | returns

def leave (c : Coordinator) (connfd : Int) (sent : List Str) : Serving := .idle (c.close connfd) sent

def handleConnection (participantCount : Nat) (c : Coordinator) (connfd : Int) (received : Option Str) (id : Int) :
    Option Serving :=
  match received with
  | none => some (leave c connfd [])
  | some data => do
      let (legal, split_message) ← parseClientMsg data
      let t : Txn := { id, split_message }
      if legal = false then some (leave c connfd (sendMessage getClientERRORMsg))
      else
        let method ← split_message[0]?
        if method = SET ∨ method = DEL then some (.connect connfd t c)
        else if method = GET then some (.getNext connfd t (fun _ => -1) c (List.range participantCount))
        else some (leave c connfd [])

def firstPhase (participantCount : Nat) (connfd : Int) (t : Txn) (c : Coordinator) (connects : Nat → Nat → Bool) :
    Option Serving :=
  let made := Connecting.connectAllParticipants participantCount connects c.vaild c.descriptors
  if made.connectSuccessCount = 0 then
    some (leave ⟨made.vaild, made.descriptors⟩ connfd (sendMessage getClientERRORMsg))
  else
    (Poll.start participantCount made.participantSocket made.connectSuccessCount made.vaild made.descriptors).map
      (.prepare connfd t)

def secondPhase (participantCount : Nat) (connfd : Int) (t : Txn) (s : Poll) (prepareResponse : Int) : Option Serving :=
  if prepareResponse = 0 ∨ prepareResponse = 1 then
    (Finish.start participantCount s.participantSocket s.aliveParticipantCount s.coordinator).map
      (.finish connfd t (.decision (decide (prepareResponse = 1))))
  else some (leave s.coordinator connfd (sendMessage getClientERRORMsg))

def finished (connfd : Int) (t : Txn) (phase : Phase) (s : Finish) (commitResponse : Int) : Serving :=
  match phase with
  | .get todo =>
      if 0 < commitResponse then
        leave s.toCoordinator connfd (sendMessage (getClientGetOrDelMsg t.id s.response_split_msg))
      else .getNext connfd t s.participantSocket s.toCoordinator todo
  | .decision true =>
      if commitResponse = 1 then
        leave s.toCoordinator connfd (sendMessage (if t.split_message[0]? = some SET then getClientOKMsg
          else getClientGetOrDelMsg t.id s.response_split_msg))
      else leave s.toCoordinator connfd (sendMessage getClientERRORMsg)
  | _ => leave s.toCoordinator connfd (sendMessage getClientERRORMsg)

def askOne (participantCount : Nat) (connfd : Int) (t : Txn) (participantSocket : Nat → Int) (c : Coordinator) (i : Nat)
    (todo : List Nat) (connects : Nat → Bool) : Option Serving :=
  if c.vaild i then
    let (sockfd, c) := c.connectParticipant i connects
    if 0 < sockfd then
      (Finish.start participantCount (Function.update participantSocket i sockfd) 1 c).map (.finish connfd t (.get todo))
    else some (.getNext connfd t participantSocket c todo)
  else some (.getNext connfd t participantSocket c todo)

def next (participantCount : Nat) : Serving → Event → Option Serving
  | .idle c _, .accept received id =>
      let connfd := lowestFree c.descriptors
      handleConnection participantCount { c with descriptors := insert connfd c.descriptors } connfd received id
  | .connect connfd t c, .connectAll connects => firstPhase participantCount connfd t c connects
  | .prepare connfd t s, .selected polled =>
      if s.GoesOn ∧ ∀ fd ∈ polled.curFdSet, fd ∈ s.allFdSet ∧ fd < s.maxfd + 1 then
        (s.turn participantCount (requestMsg t) polled).map (.prepare connfd t)
      else none
  | .prepare connfd t s, .selectFails => if s.GoesOn then secondPhase participantCount connfd t s (-1) else none
  | .prepare connfd t s, .returns =>
      if s.GoesOn then none else secondPhase participantCount connfd t s (s.prepareResponse participantCount)
  | .finish connfd t phase s, .selected polled =>
      if s.GoesOn ∧ ∀ fd ∈ polled.curFdSet, fd ∈ s.allFdSet ∧ fd < s.maxfd + 1 then
        (s.turn participantCount (phase.message t) polled).map (.finish connfd t phase)
      else none
  | .finish connfd t phase s, .selectFails => if s.GoesOn then some (finished connfd t phase s (-1)) else none
  | .finish connfd t phase s, .returns => if s.GoesOn then none else some (finished connfd t phase s s.commitResponse)
  | .getNext connfd t participantSocket c (i :: todo), .connectOne connects =>
      askOne participantCount connfd t participantSocket c i todo connects
  | .getNext connfd _ _ c [], .returns => some (leave c connfd (sendMessage getClientERRORMsg))
  | _, _ => none

end Serving

/-- Where a participant is: waiting in `accept`, serving the connection `connfd`, or ended. -/
inductive Attending
  | listening (p : Participant) (descriptors : Finset Int)
  | serving (connfd : Int) (p : Participant) (descriptors : Finset Int)
  | stopped

namespace Attending

/-- A connection from `accept`, or what `getMessage` finds on it. -/
inductive Event
  | accept
  | received (data : Option Str)
  deriving DecidableEq

def next : Attending → Event → Option Attending
  | .listening p descriptors, .accept =>
      let connfd := lowestFree descriptors
      some (.serving connfd p (insert connfd descriptors))
  | .serving _ p descriptors, .received none => some (.listening p descriptors)
  | .serving connfd p descriptors, .received (some data) => do
      let handled ← handleData p data
      match handled.next with
      | .again => some (.serving connfd handled.state descriptors)
      | .finish => some (.listening handled.state descriptors)
      | .shutdown => some .stopped
  | _, _ => none

end Attending

end CloudLab.TwoPC
