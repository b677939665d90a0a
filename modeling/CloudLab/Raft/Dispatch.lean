import CloudLab.Raft.Election
import CloudLab.TwoPC.Message

/-! Which handler a text reaches. The kind of a message is found by substring search over
the whole text, so a message can carry another kind's mark in its data. -/

namespace CloudLab.Raft
open Text

/-- The handlers `HandleSockfd` chooses among; a vote request carries the id it names, when
there is one to read. -/
inductive Handler where
  | handleClientRequest
  | handleCommitRequest
  | handleHeartBeat
  | handleRequestVote (nodeid : Option Int)
  | handleRecvVote
  | ignored
  deriving DecidableEq, Repr

def dispatch (data : Str) : Handler :=
  if '$' ∈ data then .handleClientRequest
  else if occurs COMMIT data then .handleCommitRequest
  else if occurs "HeartBeat".toList data then .handleHeartBeat
  else if occurs "RequestVote".toList data then
    .handleRequestVote (stoi (((words data)[1]?).getD (((words data)[0]?).getD [])))
  else if occurs "AgreeVote".toList data then .handleRecvVote
  else .ignored

def Handler.run (node : Node) (reachable : Nat → Bool) (data : Str) :
    Handler → Option (Node × List Sent)
  | .handleClientRequest => Raft.handleClientRequest node reachable data
  | .handleCommitRequest => some ({ node with kvdb := Raft.handleCommitRequest node.kvdb data }, [])
  | .handleHeartBeat => some (Raft.handleHeartBeat node, [])
  | .handleRequestVote nodeid => nodeid.bind (Raft.handleRequestVote node reachable)
  | .handleRecvVote => (Raft.handleRecvVote node).map fun after => (after, [])
  | .ignored => some (node, [])

theorem HandleSockfd_dispatch (node : Node) (reachable : Nat → Bool) (data : Str) :
    HandleSockfd node reachable data = (dispatch data).run node reachable data := by
  unfold HandleSockfd dispatch
  split
  · rfl
  split
  · rfl
  split
  · rfl
  split
  · rfl
  split
  · rfl
  · rfl

/-- What a node is sent: a client's request in the RESP encoding, the message of a write the
leader accepted, a heartbeat, a vote request, a vote. -/
inductive Message where
  | client (command : Str) (arguments : List Str)
  | commit (parse_msg : List Str)
  | heartBeat
  | requestVote (nodeid : Nat)
  | agreeVote

def Message.text : Message → Str
  | .client command arguments => TwoPC.respArray (command :: arguments)
  | .commit parse_msg => (commitInfo parse_msg).getD []
  | .heartBeat => HeartBeat
  | .requestVote nodeid => RequestVote nodeid
  | .agreeVote => AgreeVote

def Message.intended : Message → Handler
  | .client _ _ => .handleClientRequest
  | .commit _ => .handleCommitRequest
  | .heartBeat => .handleHeartBeat
  | .requestVote nodeid => .handleRequestVote (some nodeid)
  | .agreeVote => .handleRecvVote

/-- A commit is built from the tokens of an accepted request, and ids are of type `int`. -/
def Message.Generated : Message → Prop
  | .commit parse_msg => ∃ request, parseClinetMessage request = (true, parse_msg)
  | .requestVote nodeid => nodeid < 2 ^ 31
  | _ => True

/-- No forwarded token of a commit contains the mark of a client request. -/
def Message.Unmarked : Message → Prop
  | .commit parse_msg => ∀ token ∈ parse_msg.drop 2, '$' ∉ token
  | _ => True

theorem mem_spaced {c : Char} {tokens : List Str} (plain : c ≠ ' ') :
    c ∈ spaced tokens ↔ ∃ token ∈ tokens, c ∈ token := by
  unfold spaced
  simp only [List.mem_flatMap, List.mem_append, List.mem_singleton, plain, or_false]

theorem dispatch_client {data : Str} (mark : '$' ∈ data) : dispatch data = .handleClientRequest := by
  rw [dispatch, if_pos mark]

theorem dispatch_commit {data : Str} (unmarked : '$' ∉ data) (commit : occurs COMMIT data = true) :
    dispatch data = .handleCommitRequest := by
  rw [dispatch, if_neg unmarked, if_pos commit]

theorem mark_mem_respArray (command : Str) (arguments : List Str) :
    '$' ∈ TwoPC.respArray (command :: arguments) := by
  unfold TwoPC.respArray TwoPC.bulk
  simp

theorem occurs_commitInfo (rest : Str) : occurs COMMIT ("COMMIT ".toList ++ rest) = true := by
  have split : "COMMIT ".toList ++ rest = [] ++ (COMMIT ++ ' ' :: rest) := rfl
  rw [split]
  exact occurs_append [] COMMIT (' ' :: rest)

theorem mark_mem_commitInfo {command : Str} (known : command = SET ∨ command = GET ∨ command = DEL)
    (rest : List Str) :
    '$' ∈ "COMMIT ".toList ++ spaced (command :: rest) ↔ ∃ token ∈ rest, '$' ∈ token := by
  have head : '$' ∉ "COMMIT ".toList := by decide
  have name : '$' ∉ command := by
    rcases known with rfl | rfl | rfl <;> decide
  rw [List.mem_append, mem_spaced (by decide)]
  simp only [head, false_or, List.mem_cons, exists_eq_or_imp, name]

theorem dispatch_intended_iff (message : Message) (generated : message.Generated) :
    dispatch message.text = message.intended ↔ message.Unmarked := by
  cases message with
  | client command arguments =>
    exact iff_of_true (dispatch_client (mark_mem_respArray command arguments)) trivial
  | commit parse_msg =>
    obtain ⟨request, accepted⟩ := generated
    have answer : (parseClinetMessage request).1 = true := by rw [accepted]
    obtain ⟨command, first, rest, shape, known, _⟩ := parse_accepts answer
    rw [accepted] at shape
    change parse_msg = command :: first :: rest at shape
    subst shape
    have text : (Message.commit (command :: first :: rest)).text =
        "COMMIT ".toList ++ spaced (command :: rest) := by
      simp [Message.text, commitInfo]
    have marked := mark_mem_commitInfo known rest
    rw [text]
    constructor
    · intro reached token member mark
      rw [dispatch_client (marked.mpr ⟨token, member, mark⟩)] at reached
      cases reached
    · intro unmarked
      apply dispatch_commit _ (occurs_commitInfo _)
      intro mark
      obtain ⟨token, member, inside⟩ := marked.mp mark
      exact unmarked token member inside
  | heartBeat => exact iff_of_true (by decide) trivial
  | requestVote nodeid =>
    obtain ⟨client, commit, beat, request⟩ := requestVote_marks nodeid
    apply iff_of_true _ trivial
    change dispatch (RequestVote nodeid) = .handleRequestVote (some nodeid)
    have small : (nodeid : Int) < 2 ^ 31 := by exact_mod_cast generated
    have read : stoi (decimal nodeid) = some (nodeid : Int) := stoi_decimal (by omega) small
    rw [dispatch, if_neg client, commit, beat, request, words_requestVote]
    simp only [Bool.false_eq_true, if_false, if_true, List.getElem?_cons_succ,
      List.getElem?_cons_zero, Option.getD_some, read]
  | agreeVote => exact iff_of_true (by decide) trivial

/-- On every node, the text has the effect of the handler its sender means. -/
def RunsIntended (message : Message) : Prop :=
  ∀ node reachable, HandleSockfd node reachable message.text =
    message.intended.run node reachable message.text

/-- Every generated message runs its own handler on every node exactly when no token that a
commit forwards contains a dollar sign. -/
theorem runs_intended_iff (message : Message) (generated : message.Generated) :
    RunsIntended message ↔ message.Unmarked := by
  rw [← dispatch_intended_iff message generated]
  constructor
  · intro runs
    cases message with
    | client command arguments => exact dispatch_client (mark_mem_respArray command arguments)
    | commit parse_msg =>
      by_contra other
      -- a commit always has its own mark, so only the client's mark can divert it
      have marked : '$' ∈ (Message.commit parse_msg).text := by
        by_contra unmarked
        obtain ⟨request, accepted⟩ := generated
        have answer : (parseClinetMessage request).1 = true := by rw [accepted]
        obtain ⟨command, first, rest, shape, _, _⟩ := parse_accepts answer
        rw [accepted] at shape
        change parse_msg = command :: first :: rest at shape
        subst shape
        exact other (dispatch_commit unmarked (occurs_commitInfo _))
      -- a follower answers a client with the leader's address, and a commit with nothing
      have follower := runs (Node.create 2 1 (fun _ => []) (fun _ => 0) 0) (fun _ => true)
      rw [HandleSockfd, if_pos marked] at follower
      simp [handleClientRequest, Node.create, Message.intended, Handler.run] at follower
    | heartBeat => exact (dispatch_intended_iff .heartBeat trivial).mpr trivial
    | requestVote nodeid => exact (dispatch_intended_iff (.requestVote nodeid) generated).mpr trivial
    | agreeVote => exact (dispatch_intended_iff .agreeVote trivial).mpr trivial
  · intro reached node reachable
    rw [HandleSockfd_dispatch, reached]

/-- `SET k a$b`: the follower takes the commit for a client's request. -/
theorem marked_value_diverted :
    (Message.commit [SET, "k".toList, "a$b".toList]).Generated ∧
      dispatch (Message.commit [SET, "k".toList, "a$b".toList]).text = .handleClientRequest ∧
      ¬ RunsIntended (.commit [SET, "k".toList, "a$b".toList]) := by
  have diverted : dispatch (Message.commit [SET, "k".toList, "a$b".toList]).text =
      .handleClientRequest := by decide
  refine ⟨⟨"*3\r\n$3\r\nSET\r\n$1\r\nk\r\n$3\r\na$b\r\n".toList, by decide⟩, diverted, ?_⟩
  intro runs
  have follower := runs (Node.create 2 1 (fun _ => []) (fun _ => 0) 0) (fun _ => true)
  rw [HandleSockfd_dispatch, diverted] at follower
  simp [handleClientRequest, Node.create, Message.intended, Handler.run] at follower

theorem runs_intended_set : RunsIntended (.commit [SET, "k".toList, "v".toList]) := by
  have generated : (Message.commit [SET, "k".toList, "v".toList]).Generated :=
    ⟨"*3\r\n$3\r\nSET\r\n$1\r\nk\r\n$1\r\nv\r\n".toList, by decide⟩
  have unmarked : ∀ token ∈ ["v".toList], '$' ∉ token := by decide
  exact (runs_intended_iff _ generated).mpr unmarked

end CloudLab.Raft
