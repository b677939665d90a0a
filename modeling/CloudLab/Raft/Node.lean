import CloudLab.Library.Text

/-! A node of the Raft-style program on the client's side: the parser of client
requests, the leader's own commit, the message it sends to the other nodes and what
they make of it. `none` stands for an index of `parse_msg` out of range. -/

namespace CloudLab.Raft
open Text

def SET : Str := "SET".toList
def GET : Str := "GET".toList
def DEL : Str := "DEL".toList
def COMMIT : Str := "COMMIT".toList

@[simp] theorem SET_ne_GET : SET ≠ GET := by decide
@[simp] theorem SET_ne_DEL : SET ≠ DEL := by decide
@[simp] theorem DEL_ne_SET : DEL ≠ SET := by decide
@[simp] theorem DEL_ne_GET : DEL ≠ GET := by decide

inductive NodeState where
  | Follower
  | Candidate
  | Leader
  deriving DecidableEq, Repr

abbrev Kvdb := Str → Option Str

structure Node where
  numNodes : Nat
  myNodeId : Nat
  currentLeader : Nat
  currentState : NodeState
  kvdb : Kvdb
  Nodeip : Nat → Str
  Nodeport : Nat → Int
  electionTimeout : Bool
  is_timeout : Bool
  candidateVotenum : Int
  /-- The threads: `startElection`'s loop is running, the one of `handleElectionTimeout`
  still waits, `heartbeatThread` has been started. -/
  FollowerTimerThread : Bool
  HandleTimeout : Bool
  heartbeatThread : Bool

/-- The constructor, the address tables already read from the configuration and
`candidateVotenum` holding whatever was in memory. -/
def Node.create (numNodes myNodeId : Nat) (Nodeip : Nat → Str) (Nodeport : Nat → Int)
    (candidateVotenum : Int) : Node :=
  { numNodes, myNodeId, currentLeader := 0,
    currentState := if myNodeId = 0 then .Leader else .Follower,
    kvdb := fun _ => none, Nodeip, Nodeport, electionTimeout := false, is_timeout := false,
    candidateVotenum, FollowerTimerThread := decide (myNodeId ≠ 0), HandleTimeout := true,
    heartbeatThread := decide (myNodeId = 0) }

def getClinetERROR : Str := "-ERROR\r\n".toList

def getClientOK : Str := "+OK\r\n".toList

def payload (data : Str) : List Str :=
  (words data).filter fun tmp => decide (tmp.head? ≠ some '*' ∧ tmp.head? ≠ some '$')

def parseClinetMessage (data : Str) : Bool × List Str :=
  if data = [] then (false, [])
  else
    let res := payload data
    (decide (¬ (res.length < 2 ∨ (res[0]? ≠ some SET ∧ res[0]? ≠ some GET ∧ res[0]? ≠ some DEL))), res)

/-- What a node sends: an answer on the client's socket, or a message to a node that
accepted the connection. -/
inductive Sent where
  | reply (data : Str)
  | toNode (nodeid : Nat) (message : Str)
  deriving DecidableEq, Repr

def sendLeaderInfo (node : Node) : Str :=
  node.Nodeip node.currentLeader ++ ':' :: decimal (node.Nodeport node.currentLeader)

/-- The text `sendCommitinfo` builds: the command, then the tokens from the third on. -/
def commitInfo (parse_msg : List Str) : Option Str := do
  let command ← parse_msg[0]?
  some ("COMMIT ".toList ++ spaced (command :: parse_msg.drop 2))

/-- The loop over the other nodes; a failed connect is printed and passed over. -/
def sendToOthers (node : Node) (reachable : Nat → Bool) (message : Str) : List Sent :=
  ((List.range node.numNodes).filter fun nodeid => nodeid ≠ node.myNodeId && reachable nodeid).map
    fun nodeid => .toNode nodeid message

def sendCommitinfo (node : Node) (reachable : Nat → Bool) (parse_msg : List Str) : Option (List Sent) := do
  let message ← commitInfo parse_msg
  some (sendToOthers node reachable message)

/-- One pass of the DEL loop: the keys deleted so far are counted. -/
def deleteCounted (state : Kvdb × Nat) (key : Str) : Kvdb × Nat :=
  if state.1 key = none then state else (Function.update state.1 key none, state.2 + 1)

def Commit (kvdb : Kvdb) (parse_msg : List Str) : Option (Kvdb × Str) := do
  let command ← parse_msg[0]?
  if command = SET then
    let key ← parse_msg[1]?
    some (Function.update kvdb key (some (spaced (parse_msg.drop 2))), getClientOK)
  else if command = DEL then
    let deleted := (parse_msg.drop 1).foldl deleteCounted (kvdb, 0)
    some (deleted.1, ':' :: decimal deleted.2 ++ "\r\n".toList)
  else some (kvdb, getClinetERROR)

/-- The answer to a GET: as many elements as the value has spaces, then its words. -/
def getAnswer (kvdb : Kvdb) (key : Str) : Str :=
  match kvdb key with
  | none => "*1\r\n$3\r\nnil\r\n".toList
  | some value =>
      (words value).foldl
        (fun message s => message ++ ('$' :: decimal s.length ++ "\r\n".toList ++ s ++ "\r\n".toList))
        ('*' :: decimal (value.count ' ') ++ "\r\n".toList)

/-- A rejected request is answered with an error, but the dispatch below still runs. -/
def handleClientRequest (node : Node) (reachable : Nat → Bool) (request : Str) :
    Option (Node × List Sent) :=
  if node.currentState ≠ .Leader then some (node, [.reply (sendLeaderInfo node)])
  else
    let parsed := parseClinetMessage request
    let parse_msg := parsed.2
    let rejected : List Sent := if parsed.1 then [] else [.reply getClinetERROR]
    do
      let command ← parse_msg[0]?
      if command = GET then
        let key ← parse_msg[1]?
        some (node, rejected ++ [.reply (getAnswer node.kvdb key)])
      else
        let sent ← sendCommitinfo node reachable parse_msg
        let committed ← Commit node.kvdb parse_msg
        some ({ node with kvdb := committed.1 }, rejected ++ sent ++ [.reply committed.2])

/-- What a follower makes of a COMMIT message: the word after `COMMIT` is the command,
the first word after it the key of a SET. A missing word leaves the variable as it was. -/
def handleCommitRequest (kvdb : Kvdb) (data : Str) : Kvdb :=
  let tokens := words data
  let type := (tokens[1]?).getD ((tokens[0]?).getD [])
  let rest := tokens.drop 2
  if type = SET then
    Function.update kvdb (rest.headD []) (some (spaced rest.tail))
  else rest.foldl (fun kvdb key => Function.update kvdb key none) kvdb

def rejection (request : Str) : List Sent :=
  if (parseClinetMessage request).1 then [] else [.reply getClinetERROR]

/-- How a request comes to be answered: by another node than the leader, from the leader's store,
or once it has been sent on and executed. -/
inductive Answering (node : Node) (reachable : Nat → Bool) (request : Str) : Node → List Sent → Prop
  | redirected : node.currentState ≠ .Leader → Answering node reachable request node [.reply (sendLeaderInfo node)]
  | read (key : Str) : node.currentState = .Leader → (parseClinetMessage request).2[1]? = some key →
      Answering node reachable request node (rejection request ++ [.reply (getAnswer node.kvdb key)])
  | executed (sent : List Sent) (committed : Kvdb × Str) : node.currentState = .Leader →
      sendCommitinfo node reachable (parseClinetMessage request).2 = some sent →
      Commit node.kvdb (parseClinetMessage request).2 = some committed →
      Answering node reachable request { node with kvdb := committed.1 }
        (rejection request ++ sent ++ [.reply committed.2])

theorem handleClientRequest_cases {node after : Node} {reachable : Nat → Bool} {request : Str} {sent : List Sent}
    (result : handleClientRequest node reachable request = some (after, sent)) :
    Answering node reachable request after sent := by
  unfold handleClientRequest at result
  split at result
  · next follows =>
    cases result
    exact .redirected follows
  · next leads =>
    rw [ne_eq, not_not] at leads
    simp only [Option.bind_eq_bind, Option.bind_eq_some_iff] at result
    obtain ⟨command, _, branch⟩ := result
    by_cases get : command = GET
    · rw [if_pos get, Option.bind_eq_some_iff] at branch
      obtain ⟨key, named, same⟩ := branch
      cases same
      exact .read key leads named
    · rw [if_neg get, Option.bind_eq_some_iff] at branch
      obtain ⟨forwarded, sending, branch⟩ := branch
      rw [Option.bind_eq_some_iff] at branch
      obtain ⟨committed, committing, same⟩ := branch
      cases same
      exact .executed forwarded committed leads sending committing

/-! What the parser accepts. -/

theorem payload_token {data token : Str} (member : token ∈ payload data) : Token token :=
  token_of_mem_words data token (List.mem_filter.mp member).1

theorem parse_accepts {data : Str} (accepted : (parseClinetMessage data).1 = true) :
    ∃ command first rest, (parseClinetMessage data).2 = command :: first :: rest ∧
      (command = SET ∨ command = GET ∨ command = DEL) ∧ payload data = command :: first :: rest := by
  by_cases empty : data = []
  · simp [parseClinetMessage, empty] at accepted
  · simp only [parseClinetMessage, if_neg empty, decide_eq_true_eq, not_or, not_lt] at accepted ⊢
    obtain ⟨long, known⟩ := accepted
    match shape : payload data with
    | [] => simp [shape] at long
    | [_] => simp [shape] at long
    | command :: first :: rest =>
      refine ⟨command, first, rest, rfl, ?_, rfl⟩
      simp only [shape, List.getElem?_cons_zero, ne_eq, Option.some.injEq] at known
      tauto

theorem words_commitInfo {command first : Str} {rest : List Str}
    (tokens : ∀ token ∈ command :: first :: rest, Token token) :
    commitInfo (command :: first :: rest) = some ("COMMIT ".toList ++ spaced (command :: rest)) ∧
      words ("COMMIT ".toList ++ spaced (command :: rest)) = COMMIT :: command :: rest := by
  refine ⟨by simp [commitInfo], ?_⟩
  have start : "COMMIT ".toList ++ spaced (command :: rest) = spaced (COMMIT :: command :: rest) := by
    rw [spaced_cons COMMIT]
    rfl
  rw [start]
  apply words_spaced
  intro token member
  rcases List.mem_cons.mp member with rfl | later
  · exact Token.of_all (by decide) (by decide)
  · apply tokens
    rcases List.mem_cons.mp later with rfl | last
    · simp
    · simp [last]

/-! What the leader does with an accepted write. -/

structure Leads (n leader : Nat) (node : Node) : Prop where
  member : leader < n
  count : node.numNodes = n
  self : node.myNodeId = leader
  state : node.currentState = .Leader

def Write (request : Str) : Prop :=
  (parseClinetMessage request).1 = true ∧ (parseClinetMessage request).2[0]? ≠ some GET

def leaderStore (kvdb : Kvdb) (command first : Str) (rest : List Str) : Kvdb :=
  if command = SET then Function.update kvdb first (some (spaced rest))
  else ((first :: rest).foldl deleteCounted (kvdb, 0)).1

theorem handleClientRequest_write {n leader : Nat} {node : Node} {request command first : Str}
    {rest : List Str} (leads : Leads n leader node) (write : Write request)
    (shape : (parseClinetMessage request).2 = command :: first :: rest) (reachable : Nat → Bool) :
    ∃ answer, handleClientRequest node reachable request =
      some ({ node with kvdb := leaderStore node.kvdb command first rest },
        sendToOthers node reachable ("COMMIT ".toList ++ spaced (command :: rest)) ++
          [.reply answer]) ∧
      (answer = getClientOK ∨ ∃ count : Nat, answer = ':' :: decimal count ++ "\r\n".toList) := by
  obtain ⟨accepted, notGet⟩ := write
  obtain ⟨_, _, _, same, known, payloadShape⟩ := parse_accepts accepted
  rw [shape] at same
  cases same
  have notGet : command ≠ GET := by simpa [shape] using notGet
  have tokens : ∀ token ∈ command :: first :: rest, Token token := by
    rw [← payloadShape]
    exact fun token member => payload_token member
  have message := (words_commitInfo tokens).1
  rw [handleClientRequest]
  simp only [leads.state, ne_eq, not_true_eq_false, if_false, accepted, if_true, shape,
    List.getElem?_cons_zero, Option.bind_eq_bind, Option.bind_some, if_neg notGet, sendCommitinfo,
    message, List.nil_append]
  by_cases set : command = SET
  · exact ⟨getClientOK, by simp [Commit, set, leaderStore], Or.inl rfl⟩
  · have del : command = DEL := (known.resolve_left set).resolve_left notGet
    refine ⟨_, ?_, Or.inr ⟨((first :: rest).foldl deleteCounted (node.kvdb, 0)).2, rfl⟩⟩
    simp [Commit, del, leaderStore]

end CloudLab.Raft
