import CloudLab.Raft.Dispatch
import CloudLab.Raft.SingleLeader

/-! A node from its constructor on, and the cluster with its clients: what one step can do
to a node, and what every node of a reachable cluster therefore is. -/

namespace CloudLab.Raft
open Text

theorem handleClientRequest_same {node : Node} {reachable : Nat → Bool} {request : Str}
    {handled : Node × List Sent} (result : handleClientRequest node reachable request = some handled) :
    ∃ kvdb, handled.1 = { node with kvdb := kvdb } := by
  obtain ⟨after, sent⟩ := handled
  cases handleClientRequest_cases result with
  | redirected => exact ⟨node.kvdb, rfl⟩
  | read => exact ⟨node.kvdb, rfl⟩
  | executed _ committed => exact ⟨committed.1, rfl⟩

theorem handleRequestVote_same {node : Node} {reachable : Nat → Bool} {nodeid : Int}
    {handled : Node × List Sent} (result : handleRequestVote node reachable nodeid = some handled) :
    handled.1 = restartElection node := by
  unfold handleRequestVote at result
  split at result
  · cases result
    rfl
  · cases result

theorem handleRecvVote_same {node after : Node} (result : handleRecvVote node = some after) :
    after = { node with candidateVotenum := node.candidateVotenum + 1 } ∨
      after = { node with candidateVotenum := node.candidateVotenum + 1, currentState := .Leader,
                          currentLeader := node.myNodeId, heartbeatThread := true } := by
  unfold handleRecvVote becomeLeader startHeartBeat at result
  dsimp only at result
  split at result
  · split at result
    · cases result
    · cases result
      exact Or.inr rfl
  · cases result
    exact Or.inl rfl

theorem HandleSockfd_other {node : Node} {reachable : Nat → Bool} {data : Str} {handled : Node × List Sent}
    (result : HandleSockfd node reachable data = some handled) (other : dispatch data ≠ .handleRecvVote) :
    (∃ kvdb, handled.1 = { node with kvdb := kvdb }) ∨ handled.1 = restartElection node := by
  rw [HandleSockfd_dispatch] at result
  cases choice : dispatch data with
  | handleClientRequest =>
    rw [choice] at result
    exact Or.inl (handleClientRequest_same result)
  | handleCommitRequest =>
    rw [choice] at result
    cases result
    exact Or.inl ⟨_, rfl⟩
  | handleHeartBeat =>
    rw [choice] at result
    cases result
    exact Or.inr rfl
  | handleRequestVote nodeid =>
    rw [choice] at result
    obtain ⟨id, _, granted⟩ := Option.bind_eq_some_iff.mp result
    exact Or.inr (handleRequestVote_same granted)
  | handleRecvVote => exact absurd choice other
  | ignored =>
    rw [choice] at result
    cases result
    exact Or.inl ⟨node.kvdb, rfl⟩

theorem HandleSockfd_cases {node : Node} {reachable : Nat → Bool} {data : Str}
    {handled : Node × List Sent} (result : HandleSockfd node reachable data = some handled) :
    (∃ kvdb, handled.1 = { node with kvdb := kvdb }) ∨ handled.1 = restartElection node ∨
      handled.1 = { node with candidateVotenum := node.candidateVotenum + 1 } ∨
      handled.1 = { node with candidateVotenum := node.candidateVotenum + 1, currentState := .Leader,
                              currentLeader := node.myNodeId, heartbeatThread := true } := by
  by_cases vote : dispatch data = .handleRecvVote
  · rw [HandleSockfd_dispatch, vote] at result
    obtain ⟨after, counted, same⟩ := Option.map_eq_some_iff.mp result
    cases same
    exact Or.inr (Or.inr (handleRecvVote_same counted))
  · rcases HandleSockfd_other result vote with kept | marked
    · exact Or.inl kept
    · exact Or.inr (Or.inl marked)

/-- Node `i` of the configuration after any texts, timer rounds and timeouts since its
constructor. -/
inductive Reached (config : Config) (i : Nat) : Node → Prop
  | create (votes : Int) : Reached config i (config.create i votes)
  | handle {node : Node} {reachable : Nat → Bool} {data : Str} {handled : Node × List Sent} :
      Reached config i node → HandleSockfd node reachable data = some handled →
        Reached config i handled.1
  | timer {node : Node} : Reached config i node → Reached config i (electionRound node)
  | timeout {node : Node} (reachable : Nat → Bool) :
      Reached config i node → Reached config i (handleElectionTimeout node reachable).1

theorem Reached.fixed {config : Config} {i : Nat} {node : Node} (reached : Reached config i node) :
    node.myNodeId = i ∧ node.Nodeip = config.Nodeip ∧ node.Nodeport = config.Nodeport := by
  induction reached with
  | create => exact ⟨rfl, rfl, rfl⟩
  | handle _ result ih =>
    rcases HandleSockfd_cases result with ⟨kvdb, same⟩ | same | same | same
    all_goals
      rw [same]
      exact ih
  | timer _ ih =>
    unfold electionRound
    split <;> exact ih
  | timeout _ _ ih => exact ih

/-- The one field that should name the leader is written when a node becomes leader itself:
a follower still has the constructor's value. -/
theorem Reached.follower_leader {config : Config} {i : Nat} {node : Node}
    (reached : Reached config i node) : node.currentState = .Follower → node.currentLeader = 0 := by
  induction reached with
  | create => exact fun _ => rfl
  | handle _ result ih =>
    rcases HandleSockfd_cases result with ⟨kvdb, same⟩ | same | same | same
    · rw [same]
      exact ih
    · rw [same]
      exact ih
    · rw [same]
      exact ih
    · rw [same]
      intro follower
      cases follower
  | timer _ ih =>
    unfold electionRound
    split <;> exact ih
  | timeout _ _ _ =>
    intro follower
    cases follower

/-! The cluster with its clients. -/

inductive ClusterEvent where
  | election (event : Event)
  | client (i : Nat) (request : Str) (reachable : Nat → Bool)

def clusterNext (config : Config) (s : Network) : ClusterEvent → Option Network
  | .election event => next config s event
  | .client i request reachable => do
      let node ← s.nodes i
      match HandleSockfd node (s.accepting reachable) request with
      | none => some (s.crash i)
      | some handled => some (s.place i handled.1 handled.2)

def Lively (config : Config) (s : Network) : Prop :=
  ∀ i node, s.nodes i = some node → Reached config i node

theorem Lively.place {config : Config} {s : Network} (lively : Lively config s) {i : Nat} {after : Node}
    (reached : Reached config i after) (sent : List Sent) : Lively config (s.place i after sent) := by
  intro j node found
  rw [Network.place_nodes] at found
  by_cases same : j = i
  · subst same
    rw [Function.update_self, Option.some.injEq] at found
    rw [← found]
    exact reached
  · rw [Function.update_of_ne same] at found
    exact lively j node found

theorem Lively.crash {config : Config} {s : Network} (lively : Lively config s) (i : Nat) :
    Lively config (s.crash i) := by
  intro j node found
  rw [Network.crash_nodes] at found
  by_cases same : j = i
  · subst same
    rw [Function.update_self] at found
    cases found
  · rw [Function.update_of_ne same] at found
    exact lively j node found

theorem Lively.start (config : Config) (votes : Nat → Int) : Lively config (Network.start config votes) := by
  intro i node found
  change (if i < config.numNodes then some (config.create i (votes i)) else none) = some node at found
  split at found
  · cases found
    exact .create (votes i)
  · cases found

theorem Lively.take {config : Config} {s : Network} (lively : Lively config s) (message : Nat × Str) :
    Lively config (s.take message) := lively

theorem Lively.next {config : Config} {s t : Network} (lively : Lively config s) {event : Event}
    (taken : next config s event = some t) : Lively config t := by
  cases next_branch taken with
  | stopped => exact (lively.take _).crash _
  | @handled i _ _ node handled _ here outcome =>
    exact (lively.take _).place (.handle (lively i node here) outcome) handled.2
  | lose => exact lively.take _
  | @heartbeat i _ node here => exact lively.place (lively i node here) _
  | @timer i node here => exact lively.place (.timer (lively i node here)) []
  | @timeout i _ node here => exact lively.place (.timeout _ (lively i node here)) _
  | crash => exact lively.crash _
  | @restart i votes => exact lively.place (s := s) (.create votes) []

theorem Lively.clusterNext {config : Config} {s t : Network} (lively : Lively config s)
    {event : ClusterEvent} (taken : clusterNext config s event = some t) : Lively config t := by
  cases event with
  | election event => exact lively.next taken
  | client i request reachable =>
    obtain ⟨node, here, result⟩ := Option.bind_eq_some_iff.mp taken
    cases outcome : HandleSockfd node (s.accepting reachable) request with
    | none =>
      rw [outcome] at result
      cases result
      exact lively.crash i
    | some handled =>
      rw [outcome] at result
      cases result
      exact lively.place (.handle (lively i node here) outcome) handled.2

def Evolves (config : Config) (s t : Network) : Prop :=
  ∃ events, Run (fun s e t => clusterNext config s e = some t) s events t

theorem Evolves.lively {config : Config} {votes : Nat → Int} {s : Network}
    (evolves : Evolves config (Network.start config votes) s) : Lively config s := by
  obtain ⟨events, run⟩ := evolves
  exact run.invariant (Lively config) (fun _ _ _ before step => before.clusterNext step)
    (Lively.start config votes)

end CloudLab.Raft
