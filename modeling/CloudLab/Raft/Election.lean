import CloudLab.Library.Run
import CloudLab.Raft.Node

/-! Leader election. Each node is a process with its threads; heartbeats and votes are
texts on connections of their own. A node that turns leader twice assigns to a joinable
`heartbeatThread`, which ends its process: `none`. -/

namespace CloudLab.Raft
open Text

def HeartBeat : Str := "HeartBeat!".toList
def RequestVote (nodeid : Nat) : Str := "RequestVote! ".toList ++ decimal nodeid
def AgreeVote : Str := "AgreeVote!".toList

/-- Sets the flag the timer reads when its wait ends; nothing wakes the timer earlier. -/
def restartElection (node : Node) : Node := { node with electionTimeout := true }

def handleHeartBeat (node : Node) : Node := restartElection node

def startHeartBeat (node : Node) : Option Node :=
  if node.heartbeatThread then none else some { node with heartbeatThread := true }

def becomeLeader (node : Node) : Option Node :=
  startHeartBeat { node with currentState := .Leader, currentLeader := node.myNodeId }

def SendHeartBeat (node : Node) (reachable : Nat → Bool) : List Sent :=
  sendToOthers node reachable HeartBeat

def sendRequestVote (node : Node) (reachable : Nat → Bool) : List Sent :=
  sendToOthers node reachable (RequestVote node.myNodeId)

def becomeCandidate (node : Node) (reachable : Nat → Bool) : Node × List Sent :=
  ({ node with currentState := .Candidate, candidateVotenum := 1 }, sendRequestVote node reachable)

/-- Every request is granted, whatever the node is and whomever it voted for before. -/
def handleRequestVote (node : Node) (reachable : Nat → Bool) (nodeid : Int) :
    Option (Node × List Sent) :=
  if 0 ≤ nodeid ∧ nodeid < node.numNodes then
    some (restartElection node,
      if reachable nodeid.toNat then [.toNode nodeid.toNat AgreeVote] else [])
  else none

def handleRecvVote (node : Node) : Option Node :=
  let counted := { node with candidateVotenum := node.candidateVotenum + 1 }
  if ((counted.numNodes / 2 : Nat) : Int) ≤ counted.candidateVotenum then becomeLeader counted
  else some counted

def HandleSockfd (node : Node) (reachable : Nat → Bool) (data : Str) : Option (Node × List Sent) :=
  if '$' ∈ data then handleClientRequest node reachable data
  else if occurs COMMIT data then some ({ node with kvdb := handleCommitRequest node.kvdb data }, [])
  else if occurs "HeartBeat".toList data then some (handleHeartBeat node, [])
  else if occurs "RequestVote".toList data then do
    let tokens := words data
    let nodeid ← stoi ((tokens[1]?).getD ((tokens[0]?).getD []))
    handleRequestVote node reachable nodeid
  else if occurs "AgreeVote".toList data then (handleRecvVote node).map fun after => (after, [])
  else some (node, [])

/-- One round of `startElection`'s loop: the wait ends with the flag set, or the timer
has expired. -/
def electionRound (node : Node) : Node :=
  if node.electionTimeout then
    { node with electionTimeout := false,
                FollowerTimerThread := decide (node.currentState = .Follower) }
  else { node with is_timeout := true, FollowerTimerThread := false }

/-- The thread of `handleElectionTimeout`, woken. -/
def handleElectionTimeout (node : Node) (reachable : Nat → Bool) : Node × List Sent :=
  becomeCandidate { node with HandleTimeout := false } reachable

theorem handleRecvVote_eq (node : Node) :
    handleRecvVote node =
      if node.candidateVotenum + 1 < ((node.numNodes / 2 : Nat) : Int) then
        some { node with candidateVotenum := node.candidateVotenum + 1 }
      else if node.heartbeatThread then none
      else some { node with candidateVotenum := node.candidateVotenum + 1, currentState := .Leader,
                            currentLeader := node.myNodeId, heartbeatThread := true } := by
  unfold handleRecvVote becomeLeader startHeartBeat
  dsimp only
  by_cases short : node.candidateVotenum + 1 < ((node.numNodes / 2 : Nat) : Int)
  · rw [if_pos short, if_neg (by omega)]
  · rw [if_neg short, if_pos (by omega)]

/-! The dispatch of the three messages of an election. -/

theorem HandleSockfd_heartBeat (node : Node) (reachable : Nat → Bool) :
    HandleSockfd node reachable HeartBeat = some (restartElection node, []) := by
  have client : '$' ∉ HeartBeat := by decide
  have commit : ¬ occurs COMMIT HeartBeat := by decide
  have beat : occurs "HeartBeat".toList HeartBeat := by decide
  rw [HandleSockfd, if_neg client, if_neg commit, if_pos beat]
  rfl

theorem HandleSockfd_agreeVote (node : Node) (reachable : Nat → Bool) :
    HandleSockfd node reachable AgreeVote = (handleRecvVote node).map fun after => (after, []) := by
  have client : '$' ∉ AgreeVote := by decide
  have commit : ¬ occurs COMMIT AgreeVote := by decide
  have beat : ¬ occurs "HeartBeat".toList AgreeVote := by decide
  have request : ¬ occurs "RequestVote".toList AgreeVote := by decide
  have agree : occurs "AgreeVote".toList AgreeVote := by decide
  rw [HandleSockfd, if_neg client, if_neg commit, if_neg beat, if_neg request, if_pos agree]

theorem not_mem_requestVote {c : Char} (nodeid : Nat) (head : c ∉ "RequestVote! ".toList)
    (sign : c ≠ '-') (digit : c.isDigit = false) : c ∉ RequestVote nodeid := by
  intro member
  rcases List.mem_append.mp member with early | late
  · exact head early
  · rcases mem_decimal late with same | isDigit
    · exact sign same
    · rw [digit] at isDigit
      cases isDigit

theorem requestVote_split (nodeid : Nat) :
    RequestVote nodeid = "RequestVote".toList ++ '!' :: ' ' :: decimal nodeid := by
  have split : ∀ id : Str, "RequestVote! ".toList ++ id = "RequestVote".toList ++ '!' :: ' ' :: id :=
    fun _ => rfl
  exact split (decimal nodeid)

theorem token_decimal (n : Int) : Token (decimal n) := by
  refine ⟨decimal_ne_nil n, ?_⟩
  intro c member
  rcases mem_decimal member with rfl | digit
  · decide
  · exact digit_not_isspace digit

theorem requestVote_marks (nodeid : Nat) :
    '$' ∉ RequestVote nodeid ∧ occurs COMMIT (RequestVote nodeid) = false ∧
      occurs "HeartBeat".toList (RequestVote nodeid) = false ∧
      occurs "RequestVote".toList (RequestVote nodeid) = true := by
  have client : '$' ∉ RequestVote nodeid :=
    not_mem_requestVote nodeid (by decide) (by decide) (by decide)
  have commit : occurs COMMIT (RequestVote nodeid) = false :=
    occurs_eq_false (not_mem_requestVote nodeid (by decide) (by decide) (by decide))
  have beat : occurs "HeartBeat".toList (RequestVote nodeid) = false :=
    occurs_eq_false (not_mem_requestVote nodeid (by decide) (by decide) (by decide))
  have request : occurs "RequestVote".toList (RequestVote nodeid) = true := by
    rw [requestVote_split]
    exact occurs_append [] "RequestVote".toList ('!' :: ' ' :: decimal nodeid)
  exact ⟨client, commit, beat, request⟩

theorem requestVote_injective {i k : Nat} (same : RequestVote i = RequestVote k) : i = k :=
  Int.ofNat.inj (decimal_injective (List.append_cancel_left same))

theorem requestVote_ne {data : Str} (other : occurs "RequestVote".toList data = false) (k : Nat) :
    RequestVote k ≠ data := by
  rintro rfl
  rw [(requestVote_marks k).2.2.2] at other
  cases other

theorem words_requestVote (nodeid : Nat) :
    words (RequestVote nodeid) = ["RequestVote!".toList, decimal nodeid] := by
  have head : Token ("RequestVote".toList ++ ['!']) := Token.of_all (by decide) (by decide)
  have blank : isspace ' ' = true := by decide
  have word := words_token_space head blank (decimal nodeid)
  rw [words_token (token_decimal nodeid), List.append_assoc, List.singleton_append] at word
  rw [requestVote_split, word]
  rfl

theorem HandleSockfd_requestVote (node : Node) (reachable : Nat → Bool) (nodeid : Nat) :
    HandleSockfd node reachable (RequestVote nodeid) =
      (stoi (decimal nodeid)).bind (handleRequestVote node reachable) := by
  obtain ⟨client, commit, beat, request⟩ := requestVote_marks nodeid
  rw [HandleSockfd, if_neg client, commit, beat, request, words_requestVote]
  simp only [Bool.false_eq_true, if_false, if_true, List.getElem?_cons_succ, List.getElem?_cons_zero, Option.getD_some, Option.bind_eq_bind]

end CloudLab.Raft
