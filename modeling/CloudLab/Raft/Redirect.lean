import CloudLab.Raft.Lifetime

/-! The address a follower answers its clients with. Heartbeats and vote requests do not
say who leads, so it is always node 0's. -/

namespace CloudLab.Raft
open Text

def address (config : Config) (i : Nat) : Str :=
  config.Nodeip i ++ ':' :: decimal (config.Nodeport i)

theorem Reached.sendLeaderInfo {config : Config} {i : Nat} {node : Node}
    (reached : Reached config i node) : sendLeaderInfo node = address config node.currentLeader := by
  obtain ⟨_, ips, ports⟩ := reached.fixed
  unfold Raft.sendLeaderInfo address
  rw [ips, ports]

/-- A follower's clients are sent to the leader exactly when the leader has node 0's address. -/
theorem redirects_iff (config : Config) (votes : Nat → Int) (s : Network)
    (evolves : Evolves config (Network.start config votes) s) (F L : Nat) (follower leader : Node)
    (atF : s.nodes F = some follower) (_atL : s.nodes L = some leader)
    (follows : follower.currentState = .Follower) (_leads : leader.currentState = .Leader) :
    sendLeaderInfo follower = address config L ↔ address config L = address config 0 := by
  have reached := evolves.lively F follower atF
  rw [reached.sendLeaderInfo, reached.follower_leader follows]
  exact eq_comm

/-- Node 0 crashes, node 1 is elected by node 2, and node 2 reads its heartbeat. -/
def reelection : List ClusterEvent :=
  [.election (.crash 0), .election (.timer 1), .election (.timeout 1 fun _ => true),
    .election (.deliver 2 (RequestVote 1) fun _ => true), .election (.deliver 1 AgreeVote fun _ => true),
    .election (.heartbeat 1 fun _ => true), .election (.deliver 2 HeartBeat fun _ => true)]

theorem run_reelection : ∃ s follower leader, Run (fun s e t => clusterNext trio s e = some t)
      (Network.start trio fun _ => 0) reelection s ∧
    s.nodes 0 = none ∧ s.nodes 1 = some leader ∧ leader.currentState = .Leader ∧
    s.nodes 2 = some follower ∧ follower.currentState = .Follower ∧
    sendLeaderInfo follower = "127.0.0.1:8001".toList := by
  have states : (execute (clusterNext trio) (Network.start trio fun _ => 0) reelection).map
      (fun s => ((s.nodes 0).isNone, (s.nodes 1).map Node.currentState,
        (s.nodes 2).map fun node => (node.currentState, sendLeaderInfo node))) =
        some (true, some .Leader, some (.Follower, "127.0.0.1:8001".toList)) := by decide
  obtain ⟨s, result, shape⟩ := Option.map_eq_some_iff.mp states
  simp only [Prod.mk.injEq] at shape
  obtain ⟨gone, atOne, atTwo⟩ := shape
  obtain ⟨leader, foundLeader, leads⟩ := Option.map_eq_some_iff.mp atOne
  obtain ⟨follower, foundFollower, told⟩ := Option.map_eq_some_iff.mp atTwo
  rw [Prod.mk.injEq] at told
  exact ⟨s, follower, leader, run_of_execute result, Option.isNone_iff_eq_none.mp gone, foundLeader,
    leads, foundFollower, told.1, told.2⟩

/-- After a crash of node 0, node 1 is elected by node 2 and node 2 has read its heartbeat:
it sends its clients to node 0 still. -/
theorem redirect_stale :
    let events : List ClusterEvent := [.election (.crash 0), .election (.timer 1),
      .election (.timeout 1 fun _ => true), .election (.deliver 2 (RequestVote 1) fun _ => true),
      .election (.deliver 1 AgreeVote fun _ => true), .election (.heartbeat 1 fun _ => true),
      .election (.deliver 2 HeartBeat fun _ => true)]
    ∃ s follower leader, Run (fun s e t => clusterNext trio s e = some t)
        (Network.start trio fun _ => 0) events s ∧
      s.nodes 0 = none ∧ s.nodes 1 = some leader ∧ leader.currentState = .Leader ∧
      s.nodes 2 = some follower ∧ follower.currentState = .Follower ∧
      sendLeaderInfo follower ≠ address trio 1 := by
  obtain ⟨s, follower, leader, run, gone, atOne, leads, atTwo, follows, told⟩ := run_reelection
  refine ⟨s, follower, leader, run, gone, atOne, leads, atTwo, follows, ?_⟩
  rw [told]
  decide

/-- The follower and the leader after that election. -/
theorem redirects_iff_reelected : ∃ s follower leader,
    Evolves trio (Network.start trio fun _ => 0) s ∧ s.nodes 2 = some follower ∧ s.nodes 1 = some leader ∧
      (sendLeaderInfo follower = address trio 1 ↔ address trio 1 = address trio 0) := by
  obtain ⟨s, follower, leader, run, _, atOne, leads, atTwo, follows, _⟩ := run_reelection
  exact ⟨s, follower, leader, ⟨reelection, run⟩, atTwo, atOne,
    redirects_iff trio (fun _ => 0) s ⟨reelection, run⟩ 2 1 follower leader atTwo atOne follows leads⟩

end CloudLab.Raft
