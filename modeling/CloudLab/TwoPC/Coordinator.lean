import CloudLab.TwoPC.Participant

/-! The coordinator and its participants as one system. A participant serves its
connections in the order they were made; the coordinator is where the source is between
two calls that reach the network. A socket descriptor is named by the participant it is
connected to, so `participantSocket` and `allFdSet` are functions of the index. -/

namespace CloudLab.TwoPC
open Text ByteStream

/-! A participant's process, and its connections. -/

/-- A participant and, for the record, the ids of the transactions it has committed since
the coordinator took the current request. -/
structure Site where
  process : Participant
  commits : List Int

def executesCommit (p : Participant) (data : Str) : Bool :=
  match parseClusterMsg data with
  | some (true, kind :: _) => decide (p.phase = 2 ∧ kind = COMMIT)
  | _ => false

def Site.handle (s : Site) (data : Str) : Option (Handled × Site) := do
  let handled ← handleData s.process data
  some (handled, { process := handled.state,
                   commits := if executesCommit s.process data then s.process.id :: s.commits
                              else s.commits })

def Site.serve (s : Site) (data : Str) : Option (Next × Site) :=
  (s.handle data).map fun turn => (turn.1.next, turn.2)

/-- `closed`: the connections the coordinator has closed or lost that the participant has
not left, oldest first. `current`: the unread bytes on the coordinator's open connection
while the participant has not left it. `inbox`: the replies the coordinator has not read.
`hup`: reading beyond them reports the end of the connection. -/
structure Link where
  running : Bool
  site : Site
  closed : List (List (Seg Char))
  current : Option (List (Seg Char))
  inbox : List (Seg Char)
  hup : Bool

namespace Link

def init : Link :=
  { running := true, site := { process := Participant.init, commits := [] },
    closed := [], current := none, inbox := [], hup := false }

def connect (l : Link) : Link := { l with current := some [], inbox := [], hup := false }

def send (l : Link) (data : Str) : Link :=
  { l with current := l.current.map fun segs => segs ++ (sendMessage data).map Seg.sent }

def close (l : Link) : Link :=
  { l with closed := l.closed ++ l.current.toList, current := none, inbox := [], hup := false }

/-- The open connection is lost: `k` of the bytes to the participant still arrive, and
`j` of its replies. -/
def lose (l : Link) (k j : Nat) : Link :=
  { l with closed := l.closed ++ (l.current.map (keepBytes k)).toList, current := none,
           inbox := keepBytes j l.inbox, hup := true }

def stop (l : Link) : Link :=
  { l with running := false, closed := l.closed ++ l.current.toList, current := none, hup := true }

/-- The participant's `getMessage` returns the next `k` bytes of the oldest connection. -/
def read (l : Link) (k : Nat) : Option Link :=
  if l.running = false ∨ k = 0 then none
  else
    match l.closed, l.current with
    | segs :: rest, _ =>
        if size segs < k then none
        else
          let taken := readBytes k segs
          match l.site.handle taken.1 with
          | none => some l.stop
          | some (handled, site) =>
              match handled.next with
              | .again => some { l with site := site, closed := taken.2 :: rest }
              | .finish => some { l with site := site, closed := rest }
              | .shutdown => some { l with site := site }.stop
    | [], some segs =>
        if size segs < k then none
        else
          let taken := readBytes k segs
          match l.site.handle taken.1 with
          | none => some l.stop
          | some (handled, site) =>
              let inbox := l.inbox ++ handled.sent.map Seg.sent
              match handled.next with
              | .again => some { l with site := site, current := some taken.2, inbox := inbox }
              | .finish => some { l with site := site, current := none, inbox := inbox }
              | .shutdown => some { l with site := site }.stop
    | [], none => none

/-- The participant finds a closed connection read to its end and accepts the next. -/
def eof (l : Link) : Option Link :=
  match l.running, l.closed with
  | true, [] :: rest => some { l with closed := rest }
  | _, _ => none

end Link

inductive ClosedTurn (l : Link) (left : List (Seg Char)) (conns : List (List (Seg Char)))
    (handled : Handled) (site : Site) : Link → Prop
  | again : handled.next = .again → ClosedTurn l left conns handled site
      { l with site := site, closed := left :: conns }
  | finish : handled.next = .finish → ClosedTurn l left conns handled site
      { l with site := site, closed := conns }
  | shutdown {l' : Link} : handled.next = .shutdown → l' = { l with site := site }.stop →
      ClosedTurn l left conns handled site l'

inductive CurrentTurn (l : Link) (left : List (Seg Char)) (handled : Handled) (site : Site) : Link → Prop
  | again : handled.next = .again → CurrentTurn l left handled site
      { l with site := site, closed := [], current := some left,
               inbox := l.inbox ++ handled.sent.map Seg.sent }
  | finish : handled.next = .finish → CurrentTurn l left handled site
      { l with site := site, closed := [], current := none,
               inbox := l.inbox ++ handled.sent.map Seg.sent }
  | shutdown {l' : Link} : handled.next = .shutdown → l' = { l with site := site }.stop →
      CurrentTurn l left handled site l'

inductive Link.Turn (l : Link) (k : Nat) (conn : List (Seg Char)) : Link → Prop
  | crash : (l.closed ++ l.current.toList).head? = some conn →
      l.site.handle (readBytes k conn).1 = none → Turn l k conn l.stop
  | closed (conns : List (List (Seg Char))) (handled : Handled) (site : Site) {l' : Link} :
      l.closed = conn :: conns → l.site.handle (readBytes k conn).1 = some (handled, site) →
      ClosedTurn l (readBytes k conn).2 conns handled site l' → Turn l k conn l'
  | current (handled : Handled) (site : Site) {l' : Link} : l.closed = [] → l.current = some conn →
      l.site.handle (readBytes k conn).1 = some (handled, site) →
      CurrentTurn l (readBytes k conn).2 handled site l' → Turn l k conn l'

theorem Link.read_turn {l l' : Link} {k : Nat} (step : l.read k = some l') :
    k ≠ 0 ∧ ∃ conn, l.Turn k conn l' := by
  by_cases idle : l.running = false ∨ k = 0
  · simp [Link.read, idle] at step
  refine ⟨fun zero => idle (Or.inr zero), ?_⟩
  cases closed : l.closed with
  | cons conn conns =>
    refine ⟨conn, ?_⟩
    by_cases short : size conn < k
    · simp [Link.read, idle, closed, short] at step
    simp only [Link.read, if_neg idle, closed, if_neg short] at step
    cases result : l.site.handle (readBytes k conn).1 with
    | none =>
      rw [result] at step
      cases step
      exact .crash (by simp [closed]) result
    | some answer =>
      obtain ⟨handled, site⟩ := answer
      refine .closed conns handled site closed result ?_
      cases verdict : handled.next with
      | again =>
        simp only [result, verdict, Option.some.injEq] at step
        exact step ▸ .again verdict
      | finish =>
        simp only [result, verdict, Option.some.injEq] at step
        exact step ▸ .finish verdict
      | shutdown =>
        simp only [result, verdict, Option.some.injEq] at step
        exact .shutdown verdict (by rw [← step, ← closed])
  | nil =>
    cases current : l.current with
    | none => simp [Link.read, idle, closed, current] at step
    | some conn =>
      refine ⟨conn, ?_⟩
      by_cases short : size conn < k
      · simp [Link.read, idle, closed, current, short] at step
      simp only [Link.read, if_neg idle, closed, current, if_neg short] at step
      cases result : l.site.handle (readBytes k conn).1 with
      | none =>
        rw [result] at step
        cases step
        exact .crash (by simp [closed, current]) result
      | some answer =>
        obtain ⟨handled, site⟩ := answer
        refine .current handled site closed current result ?_
        cases verdict : handled.next with
        | again =>
          simp only [result, verdict, Option.some.injEq] at step
          exact step ▸ .again verdict
        | finish =>
          simp only [result, verdict, Option.some.injEq] at step
          exact step ▸ .finish verdict
        | shutdown =>
          simp only [result, verdict, Option.some.injEq] at step
          exact .shutdown verdict (by rw [← step, ← closed, ← current])

/-! The coordinator. -/

structure Txn where
  id : Int
  split_message : List Str
  deriving DecidableEq

/-- Which messages are sent and waited for. `get` carries the participants to ask after
this one. -/
inductive Phase where
  | prepare
  | decision (commit : Bool)
  | get (todo : List Nat)
  deriving DecidableEq

def requestMsg (t : Txn) : Str := getClusterPrepareRequestMsg t.id t.split_message

def decisionMsg (t : Txn) (commit : Bool) : Str :=
  if commit then getClusterCommitMsg t.id else getClusterAbortMsg t.id

def Phase.message (t : Txn) : Phase → Str
  | .prepare => requestMsg t
  | .decision commit => decisionMsg t commit
  | .get _ => requestMsg t

/-- The variables of `waitForPrepared` and `waitForCommitOrAbort`. `count` is
`preparedCount` or `finishedCount`; `ready` are the participants that the last `select`
reported and the loop has still to look at. -/
structure Wait where
  participantSocket : Nat → Bool
  aliveParticipantCount : Int
  allFdSet : Nat → Bool
  count : Int
  timeout : Nat
  response : Nat → Int
  response_split_msg : List Str
  ready : List Nat

namespace Wait

def start (participantSocket : Nat → Bool) (aliveParticipantCount : Int) : Wait :=
  { participantSocket, aliveParticipantCount, allFdSet := participantSocket, count := 0,
    timeout := 0, response := fun _ => -1, response_split_msg := [], ready := [] }

def GoesOn (w : Wait) : Prop := 0 < w.aliveParticipantCount ∧ w.count < w.aliveParticipantCount

instance (w : Wait) : Decidable w.GoesOn := inferInstanceAs (Decidable (_ ∧ _))

def waitedFor (w : Wait) (i : Nat) : Bool := w.participantSocket i && w.allFdSet i

def remove (w : Wait) (i : Nat) : Wait :=
  { w with participantSocket := Function.update w.participantSocket i false,
           allFdSet := Function.update w.allFdSet i false,
           aliveParticipantCount := w.aliveParticipantCount - 1 }

def giveUp (n : Nat) (w : Wait) : Wait :=
  let given := (List.range n).filter w.waitedFor
  { w with participantSocket := fun i => w.participantSocket i && decide (i ∉ given),
           allFdSet := fun i => w.allFdSet i && decide (i ∉ given),
           aliveParticipantCount := w.aliveParticipantCount - given.length,
           timeout := 0 }

/-- `waitForPrepared` on a reply: anything but PREPARED counts as NO. -/
def recordPrepared (w : Wait) (i : Nat) (data : Str) : Option Wait := do
  let parsed ← parseClusterMsg data
  let prepared := parsed.1 && decide (parsed.2[0]? = some PREPARED)
  some { w with response := Function.update w.response i (if prepared then 1 else 0),
                allFdSet := Function.update w.allFdSet i false, count := w.count + 1 }

/-- `waitForCommitOrAbort` on a reply: the first one is kept, each one counts. -/
def recordDone (w : Wait) (i : Nat) (data : Str) : Option Wait := do
  let parsed ← parseClusterMsg data
  some { w with
    response_split_msg := if parsed.1 ∧ w.count = 0 then parsed.2 else w.response_split_msg
    allFdSet := Function.update w.allFdSet i false
    count := w.count + 1
    participantSocket := Function.update w.participantSocket i false }

def checkParticipantPreparedResponse (n : Nat) (response : Nat → Int) : Bool :=
  decide (n ≠ 0) && (List.range n).all fun i => response i ≠ 0

def prepareResponse (n : Nat) (w : Wait) : Int :=
  if w.count = 0 then -1 else if checkParticipantPreparedResponse n w.response then 1 else 0

def commitResponse (w : Wait) : Int := if w.count = 0 then -1 else 1

end Wait

/-- Where the coordinator is: waiting for a client, with the last request and its answer;
in `connectAllParticipants`; in a loop that sends a phase's message; in one of the waits;
or at the head of the loop of `handleGET`. -/
inductive Control where
  | idle (last : Option (Txn × Str))
  | connectAll (t : Txn) (participantSocket : Nat → Bool) (aliveParticipantCount : Int) (todo : List Nat)
  | sendAll (t : Txn) (phase : Phase) (participantSocket : Nat → Bool) (aliveParticipantCount : Int)
      (todo : List Nat)
  | wait (t : Txn) (phase : Phase) (w : Wait)
  | getNext (t : Txn) (todo : List Nat)

/-- `vaild` as the source spells it: the participants not yet given up. -/
structure Cluster where
  control : Control
  vaild : Nat → Bool
  links : Nat → Link

namespace Cluster

def init : Cluster := { control := .idle none, vaild := fun _ => true, links := fun _ => Link.init }

def setLink (c : Cluster) (i : Nat) (l : Link) : Cluster :=
  { c with links := Function.update c.links i l }

@[simp] theorem setLink_control (c : Cluster) (i : Nat) (l : Link) : (c.setLink i l).control = c.control := rfl

@[simp] theorem setLink_self (c : Cluster) (i : Nat) (l : Link) : (c.setLink i l).links i = l := by
  simp [setLink]

theorem setLink_of_ne (c : Cluster) {i j : Nat} (other : j ≠ i) (l : Link) :
    (c.setLink i l).links j = c.links j := by
  simp [setLink, other]

def answer (c : Cluster) (t : Txn) (reply : Str) : Cluster :=
  { c with control := .idle (some (t, reply)) }

def handleConnection (n : Nat) (c : Cluster) (data : Str) (id : Int) : Option Cluster := do
  let parsed ← parseClientMsg data
  let c := { c with links := fun i => { c.links i with site := { (c.links i).site with commits := [] } } }
  let t : Txn := { id := id, split_message := parsed.2 }
  if parsed.1 = false then some (c.answer t getClientERRORMsg)
  else
    if parsed.2[0]? = some GET then some { c with control := .getNext t (List.range n) }
    else some { c with control := .connectAll t (fun _ => false) 0 (List.range n) }

def decideAll (n : Nat) (c : Cluster) (t : Txn) (w : Wait) : Cluster :=
  if w.prepareResponse n = 1 then
    { c with control := .sendAll t (.decision true) w.participantSocket w.aliveParticipantCount (List.range n) }
  else if w.prepareResponse n = 0 then
    { c with control := .sendAll t (.decision false) w.participantSocket w.aliveParticipantCount (List.range n) }
  else c.answer t getClientERRORMsg

def finishAll (c : Cluster) (t : Txn) (phase : Phase) (w : Wait) : Cluster :=
  match phase with
  | .get todo =>
      if 0 < w.commitResponse then
        c.answer t (getClientGetOrDelMsg t.id w.response_split_msg)
      else { c with control := .getNext t todo }
  | .decision true =>
      if w.commitResponse = 1 then
        c.answer t
          (if t.split_message[0]? = some SET then getClientOKMsg
           else getClientGetOrDelMsg t.id w.response_split_msg)
      else c.answer t getClientERRORMsg
  | _ => c.answer t getClientERRORMsg

/-- A `select` that timed out: after three in a row the silent participants are given up,
before that they are sent the message again. -/
def onTimeout (n : Nat) (c : Cluster) (t : Txn) (phase : Phase) (w : Wait) : Cluster :=
  if w.timeout = 3 then
    let given := (List.range n).filter w.waitedFor
    { control := .wait t phase (w.giveUp n)
      vaild := fun i => c.vaild i && decide (i ∉ given)
      links := fun i => if i ∈ given then (c.links i).close else c.links i }
  else
    { c with
      control := .wait t phase { w with timeout := w.timeout + 1 }
      links := fun i =>
        if i < n ∧ w.waitedFor i then (c.links i).send (phase.message t) else c.links i }

/-- The next ready participant's `getMessage` has returned `k` bytes. -/
def onReply (c : Cluster) (t : Txn) (phase : Phase) (w : Wait) (i : Nat) (ready : List Nat) (k : Nat) :
    Option Cluster :=
  let link := c.links i
  if k = 0 ∨ size link.inbox < k then none
  else
    let taken := readBytes k link.inbox
    let w := { w with ready := ready }
    match phase with
    | .prepare => do
        let w ← w.recordPrepared i taken.1
        some { c.setLink i { link with inbox := taken.2 } with control := .wait t phase w }
    | _ => do
        let w ← w.recordDone i taken.1
        some { c.setLink i { link with inbox := taken.2 }.close with control := .wait t phase w }

/-- The next ready participant's connection has ended: it is made again (`ok`), or the
participant is given up. -/
def onHangup (c : Cluster) (t : Txn) (phase : Phase) (w : Wait) (i : Nat) (ready : List Nat) (ok : Bool) :
    Cluster :=
  let w := { w with ready := ready }
  let link := (c.links i).close
  if ok then
    { c.setLink i (link.connect.send (phase.message t)) with
      control := .wait t phase { w with allFdSet := Function.update w.allFdSet i true } }
  else
    { control := .wait t phase (w.remove i), vaild := Function.update c.vaild i false,
      links := Function.update c.links i link }

/-- The coordinator is killed and started again: its connections are closed, and all it
knows is its configuration. -/
def restart (c : Cluster) : Cluster :=
  { control := .idle none, vaild := fun _ => true, links := fun i => (c.links i).close }

end Cluster

/-- What happens next: a client's request, a connection attempt, a send, the end of a
loop, `select`, a `getMessage` at either end, a lost connection, a participant that stops
for good, a kill of the coordinator. -/
inductive Event where
  | request (data : Str) (id : Int)
  | connect (ok : Bool)
  | send
  | proceed
  | select (ready : List Nat)
  | timeout
  | reply (k : Nat)
  | hangup (ok : Bool)
  | read (i k : Nat)
  | eof (i : Nat)
  | lose (i k j : Nat)
  | stop (i : Nat)
  | kill
  deriving DecidableEq

def Event.isRequest : Event → Bool
  | .request _ _ => true
  | _ => false

/-- A reply, or the end of the connection, makes `select` report the socket. -/
def Link.readable (l : Link) : Bool := !l.inbox.isEmpty || l.hup

open Cluster in
def next (n : Nat) (c : Cluster) : Event → Option Cluster
  | .request data id =>
      match c.control with
      | .idle _ => if 0 ≤ id ∧ id ≤ 9999 then handleConnection n c data id else none
      | _ => none
  | .connect ok =>
      match c.control with
      | .connectAll t participantSocket alive (i :: todo) =>
          if c.vaild i = false then some { c with control := .connectAll t participantSocket alive todo }
          else if ok then
            if (c.links i).running then
              some { c.setLink i (c.links i).connect with
                control := .connectAll t (Function.update participantSocket i true) (alive + 1) todo }
            else none
          else some { c with vaild := Function.update c.vaild i false,
                             control := .connectAll t participantSocket alive todo }
      | .getNext t (i :: todo) =>
          if c.vaild i = false then some { c with control := .getNext t todo }
          else if ok then
            if (c.links i).running then
              some { c.setLink i ((c.links i).connect.send (Phase.message t (.get todo))) with
                control := .wait t (.get todo) (Wait.start (fun j => decide (j = i)) 1) }
            else none
          else some { c with vaild := Function.update c.vaild i false, control := .getNext t todo }
      | _ => none
  | .send =>
      match c.control with
      | .sendAll t phase participantSocket alive (i :: todo) =>
          some { (if participantSocket i then c.setLink i ((c.links i).send (phase.message t)) else c) with
            control := .sendAll t phase participantSocket alive todo }
      | _ => none
  | .proceed =>
      match c.control with
      | .connectAll t participantSocket alive [] =>
          if alive = 0 then some (c.answer t getClientERRORMsg)
          else some { c with control := .sendAll t .prepare participantSocket alive (List.range n) }
      | .sendAll t phase participantSocket alive [] =>
          some { c with control := .wait t phase (Wait.start participantSocket alive) }
      | .wait t phase w =>
          if w.ready = [] ∧ ¬ w.GoesOn then
            if phase = .prepare then some (decideAll n c t w) else some (finishAll c t phase w)
          else none
      | .getNext t [] => some (c.answer t getClientERRORMsg)
      | _ => none
  | .select ready =>
      match c.control with
      | .wait t phase w =>
          if w.ready = [] ∧ w.GoesOn ∧ ready ≠ [] ∧ ready.Pairwise (· < ·) ∧
              ∀ i ∈ ready, i < n ∧ w.waitedFor i ∧ (c.links i).readable then
            some { c with control := .wait t phase { w with ready := ready, timeout := 0 } }
          else none
      | _ => none
  | .timeout =>
      match c.control with
      | .wait t phase w => if w.ready = [] ∧ w.GoesOn then some (onTimeout n c t phase w) else none
      | _ => none
  | .reply k =>
      match c.control with
      | .wait t phase w =>
          match w.ready with
          | i :: ready => onReply c t phase w i ready k
          | [] => none
      | _ => none
  | .hangup ok =>
      match c.control with
      | .wait t phase w =>
          match w.ready with
          | i :: ready =>
              if (c.links i).hup ∧ (ok = true → (c.links i).running = true) then
                some (onHangup c t phase w i ready ok)
              else none
          | [] => none
      | _ => none
  | .read i k => ((c.links i).read k).map (c.setLink i)
  | .eof i => ((c.links i).eof).map (c.setLink i)
  | .lose i k j => some (c.setLink i ((c.links i).lose k j))
  | .stop i => some (c.setLink i (c.links i).stop)
  | .kill => some c.restart

end CloudLab.TwoPC
