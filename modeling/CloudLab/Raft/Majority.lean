import CloudLab.Raft.Lifetime

/-! Which nodes have voted for a new leader. The count of votes starts again at each
candidacy and is compared with half of the cluster, rounded down. -/

namespace CloudLab.Raft
open Text

/-- A node, and the nodes that have granted it a vote since it became Candidate, itself
among them. -/
structure Canvass where
  node : Node
  granted : Finset Nat

/-- `sender` is whoever has sent the text, a node or not. -/
inductive NodeEvent where
  | message (sender : Nat) (data : Str) (reachable : Nat → Bool)
  | timer
  | timeout (reachable : Nat → Bool)

def Canvass.grant (s : Canvass) (sender : Nat) : Finset Nat :=
  if sender < s.node.numNodes then insert sender s.granted else s.granted

def Canvass.next (s : Canvass) : NodeEvent → Option Canvass
  | .message sender data reachable => do
      let handled ← HandleSockfd s.node reachable data
      some { node := handled.1, granted := if dispatch data = .handleRecvVote then s.grant sender else s.granted }
  | .timer => if s.node.FollowerTimerThread then some { s with node := electionRound s.node } else none
  | .timeout reachable =>
      if s.node.HandleTimeout ∧ s.node.is_timeout then
        some { node := (handleElectionTimeout s.node reachable).1, granted := {s.node.myNodeId} }
      else none

/-- A vote from `sender` makes the node leader only as a Candidate to which more than half of
the nodes have granted their votes. -/
def Canvass.ByMajority (s : Canvass) (sender : Nat) : Prop :=
  ∀ after, handleRecvVote s.node = some after → s.node.currentState ≠ .Leader → after.currentState = .Leader →
    s.node.currentState = .Candidate ∧ s.node.numNodes < 2 * (s.grant sender).card

/-- The vote does not reach the threshold; or the node's heartbeats have begun before, and a
second leadership would end its process; or it is the first vote of another node for a
candidate among at most three nodes. -/
def Canvass.Harmless (s : Canvass) (sender : Nat) : Prop :=
  s.node.candidateVotenum + 1 < ((s.node.numNodes / 2 : Nat) : Int) ∨ s.node.heartbeatThread = true ∨
    (s.node.currentState = .Candidate ∧ s.node.numNodes ≤ 3 ∧ sender ≠ s.node.myNodeId ∧ sender < s.node.numNodes)

structure Canvassing (s : Canvass) : Prop where
  member : s.node.myNodeId < s.node.numNodes
  zero : s.node.myNodeId = 0 → s.node.heartbeatThread = true
  leads : s.node.currentState = .Leader → s.node.heartbeatThread = true
  own : s.node.currentState = .Candidate → s.node.myNodeId ∈ s.granted
  counted : s.node.currentState = .Candidate → (s.granted.card : Int) ≤ s.node.candidateVotenum
  below : s.node.currentState = .Candidate →
    s.node.candidateVotenum = 1 ∨ s.node.candidateVotenum < ((s.node.numNodes / 2 : Nat) : Int)

namespace Canvassing

variable {s : Canvass}

theorem create {config : Config} {i : Nat} (member : i < config.numNodes) (votes : Int) :
    Canvassing { node := config.create i votes, granted := ∅ } := by
  have state : (config.create i votes).currentState = if i = 0 then .Leader else .Follower := rfl
  have notCandidate : (config.create i votes).currentState ≠ .Candidate := by
    rw [state]
    split <;> simp
  refine ⟨member, fun zero => decide_eq_true zero, fun leads => ?_, fun candidate => absurd candidate notCandidate,
    fun candidate => absurd candidate notCandidate, fun candidate => absurd candidate notCandidate⟩
  change (config.create i votes).currentState = .Leader at leads
  rw [state] at leads
  split at leads
  · next zero => exact decide_eq_true zero
  · cases leads

theorem congr (inv : Canvassing s) {after : Node} (id : after.myNodeId = s.node.myNodeId)
    (nodes : after.numNodes = s.node.numNodes) (thread : after.heartbeatThread = s.node.heartbeatThread)
    (state : after.currentState = s.node.currentState) (votes : after.candidateVotenum = s.node.candidateVotenum) :
    Canvassing { s with node := after } := by
  obtain ⟨member, zero, leads, own, counted, below⟩ := inv
  constructor
  · rwa [id, nodes]
  · rwa [id, thread]
  · rwa [state, thread]
  · rwa [state, id]
  · rwa [state, votes]
  · rwa [state, votes, nodes]

theorem card_grant (s : Canvass) (sender : Nat) : (s.grant sender).card ≤ s.granted.card + 1 := by
  unfold Canvass.grant
  split
  · exact Finset.card_insert_le sender s.granted
  · exact Nat.le_succ _

theorem subset_grant (s : Canvass) (sender : Nat) : s.granted ⊆ s.grant sender := by
  unfold Canvass.grant
  split
  · exact Finset.subset_insert sender s.granted
  · exact fun _ => id

theorem new_voter {sender : Nat} (grown : s.granted.card < (s.grant sender).card) :
    sender < s.node.numNodes ∧ sender ∉ s.granted := by
  rw [Canvass.grant] at grown
  split at grown
  · next inside =>
    refine ⟨inside, fun known => ?_⟩
    rw [Finset.insert_eq_of_mem known] at grown
    exact absurd grown (Nat.lt_irrefl _)
  · exact absurd grown (Nat.lt_irrefl _)

theorem two_voters (inv : Canvassing s) (candidate : s.node.currentState = .Candidate) {sender : Nat}
    (other : sender ≠ s.node.myNodeId) (inside : sender < s.node.numNodes) : 2 ≤ (s.grant sender).card := by
  have pair : {sender, s.node.myNodeId} ⊆ s.grant sender := by
    rw [Canvass.grant, if_pos inside]
    exact Finset.insert_subset_insert sender (Finset.singleton_subset_iff.mpr (inv.own candidate))
  rw [← Finset.card_pair other]
  exact Finset.card_le_card pair

theorem count (inv : Canvassing s) (sender : Nat)
    (short : s.node.candidateVotenum + 1 < ((s.node.numNodes / 2 : Nat) : Int)) :
    Canvassing { node := { s.node with candidateVotenum := s.node.candidateVotenum + 1 },
                 granted := s.grant sender } := by
  refine ⟨inv.member, inv.zero, inv.leads, fun candidate => subset_grant s sender (inv.own candidate), ?_,
    fun _ => Or.inr short⟩
  intro candidate
  have before := inv.counted candidate
  have after := card_grant s sender
  change ((s.grant sender).card : Int) ≤ s.node.candidateVotenum + 1
  omega

theorem lead (inv : Canvassing s) (granted : Finset Nat) :
    Canvassing { node := { s.node with candidateVotenum := s.node.candidateVotenum + 1, currentState := .Leader,
                                       currentLeader := s.node.myNodeId, heartbeatThread := true },
                 granted := granted } :=
  ⟨inv.member, fun _ => rfl, fun _ => rfl, fun candidate => (nomatch candidate),
    fun candidate => (nomatch candidate), fun candidate => (nomatch candidate)⟩

end Canvassing

theorem Canvassing.vote {s : Canvass} (inv : Canvassing s) (sender : Nat) {after : Node}
    (counted : handleRecvVote s.node = some after) : Canvassing { node := after, granted := s.grant sender } := by
  rw [handleRecvVote_eq] at counted
  split at counted
  · next short =>
    cases counted
    exact inv.count sender short
  · split at counted
    · cases counted
    · cases counted
      exact inv.lead (s.grant sender)

theorem Canvassing.other {s : Canvass} (inv : Canvassing s) {reachable : Nat → Bool} {data : Str}
    {handled : Node × List Sent} (result : HandleSockfd s.node reachable data = some handled)
    (other : dispatch data ≠ .handleRecvVote) : Canvassing { s with node := handled.1 } := by
  rcases HandleSockfd_other result other with ⟨kvdb, same⟩ | same
  · rw [same]
    exact inv.congr rfl rfl rfl rfl rfl
  · rw [same]
    exact inv.congr rfl rfl rfl rfl rfl

theorem Canvassing.next {s t : Canvass} (inv : Canvassing s) {event : NodeEvent} (step : s.next event = some t) :
    Canvassing t := by
  cases event with
  | message sender data reachable =>
    obtain ⟨handled, result, same⟩ := Option.bind_eq_some_iff.mp step
    cases same
    by_cases vote : dispatch data = .handleRecvVote
    · rw [HandleSockfd_dispatch, vote] at result
      obtain ⟨after, counted, same⟩ := Option.map_eq_some_iff.mp result
      cases same
      rw [if_pos vote]
      exact inv.vote sender counted
    · rw [if_neg vote]
      exact inv.other result vote
  | timer =>
    rw [Canvass.next] at step
    split at step
    · cases step
      unfold electionRound
      split
      · exact inv.congr rfl rfl rfl rfl rfl
      · exact inv.congr rfl rfl rfl rfl rfl
    · cases step
  | timeout reachable =>
    rw [Canvass.next] at step
    split at step
    · cases step
      refine ⟨inv.member, inv.zero, fun leads => (nomatch leads), fun _ => Finset.mem_singleton_self _, fun _ => ?_,
        fun _ => Or.inl rfl⟩
      exact le_of_eq rfl
    · cases step

/-- In every state that texts and timers lead to, a vote that arrives switches the node to
Leader only with a majority exactly when it is harmless. -/
theorem vote_by_majority_iff (config : Config) (i : Nat) (member : i < config.numNodes) (votes : Int)
    (events : List NodeEvent) (s : Canvass)
    (run : Run (fun s e t => Canvass.next s e = some t) { node := config.create i votes, granted := ∅ } events s)
    (sender : Nat) : s.ByMajority sender ↔ s.Harmless sender := by
  have inv : Canvassing s :=
    run.invariant Canvassing (fun _ _ _ before step => before.next step) (Canvassing.create member votes)
  unfold Canvass.ByMajority Canvass.Harmless
  rw [handleRecvVote_eq]
  by_cases short : s.node.candidateVotenum + 1 < ((s.node.numNodes / 2 : Nat) : Int)
  · rw [if_pos short]
    refine iff_of_true ?_ (Or.inl short)
    intro after same notLeader leads
    cases same
    exact absurd leads notLeader
  rw [if_neg short]
  cases thread : s.node.heartbeatThread with
  | true => exact iff_of_true (fun after none => (nomatch none)) (Or.inr (Or.inl rfl))
  | false =>
    have notLeader : s.node.currentState ≠ .Leader := fun leads => by
      rw [inv.leads leads] at thread
      cases thread
    have notZero : s.node.myNodeId ≠ 0 := fun zero => by
      rw [inv.zero zero] at thread
      cases thread
    have small := inv.member
    constructor
    · intro majority
      obtain ⟨candidate, enough⟩ := majority _ rfl notLeader rfl
      have own := inv.own candidate
      have counted := inv.counted candidate
      have grown := Canvassing.card_grant s sender
      -- the threshold is met by the first vote, or by half of the cluster
      have few : s.node.numNodes ≤ 3 := by
        rcases inv.below candidate with one | below <;> omega
      have one : s.granted.card ≤ 1 := by
        rcases inv.below candidate with one | below <;> omega
      have grants := Canvassing.new_voter (show s.granted.card < (s.grant sender).card by omega)
      exact Or.inr (Or.inr ⟨candidate, few, fun same => grants.2 (same ▸ own), grants.1⟩)
    · rintro (reached | started | ⟨candidate, few, other, inside⟩) after same _ _
      · exact absurd reached short
      · cases started
      · have two := inv.two_voters candidate other inside
        exact ⟨candidate, by omega⟩

theorem Canvass.next_vote {s : Canvass} {after : Node} (counted : handleRecvVote s.node = some after) (sender : Nat)
    (reachable : Nat → Bool) :
    s.next (.message sender AgreeVote reachable) = some { node := after, granted := s.grant sender } := by
  have vote : dispatch AgreeVote = .handleRecvVote := by decide
  simp only [Canvass.next, HandleSockfd_agreeVote, counted, vote, Option.map_some, Option.bind_eq_bind,
    Option.bind_some, if_true]

/-- Five nodes: node 1 times out, and is leader with the vote of node 0, which is alive. -/
theorem leader_with_two_of_five :
    let config : Config := { trio with numNodes := 5 }
    ∃ s t, Run (fun s e t => Canvass.next s e = some t) { node := config.create 1 0, granted := ∅ }
        [.timer, .timeout fun _ => true] s ∧
      s.next (.message 0 AgreeVote fun _ => true) = some t ∧ t.node.currentState = .Leader ∧
      t.granted = {0, 1} ∧ ¬ s.ByMajority 0 := by
  intro config
  have timer : Canvass.next { node := config.create 1 0, granted := ∅ } .timer =
      some { node := electionRound (config.create 1 0), granted := ∅ } := rfl
  have timeout : Canvass.next { node := electionRound (config.create 1 0), granted := ∅ } (.timeout fun _ => true) =
      some { node := (handleElectionTimeout (electionRound (config.create 1 0)) fun _ => true).1, granted := {1} } :=
    rfl
  have run : Run (fun s e t => Canvass.next s e = some t) { node := config.create 1 0, granted := ∅ }
      [.timer, .timeout fun _ => true] _ := Run.head timer (Run.single timeout)
  let candidate : Canvass :=
    { node := (handleElectionTimeout (electionRound (config.create 1 0)) fun _ => true).1, granted := {1} }
  have counted : handleRecvVote candidate.node =
      some { candidate.node with candidateVotenum := 2, currentState := .Leader, currentLeader := 1,
                                 heartbeatThread := true } := by
    rw [handleRecvVote_eq, if_neg (by decide), if_neg (by decide)]
    rfl
  refine ⟨candidate, _, run, Canvass.next_vote counted 0 fun _ => true, rfl, by decide, fun majority => ?_⟩
  have enough := (majority _ counted (by decide) rfl).2
  exact absurd enough (by decide)

theorem vote_by_majority_iff_three :
    ∃ s : Canvass, s.node.currentState = .Candidate ∧ (s.ByMajority 2 ↔ s.Harmless 2) := by
  have timer : Canvass.next { node := trio.create 1 0, granted := ∅ } .timer =
      some { node := electionRound (trio.create 1 0), granted := ∅ } := rfl
  have timeout : Canvass.next { node := electionRound (trio.create 1 0), granted := ∅ } (.timeout fun _ => true) =
      some { node := (handleElectionTimeout (electionRound (trio.create 1 0)) fun _ => true).1, granted := {1} } :=
    rfl
  exact ⟨_, rfl, vote_by_majority_iff trio 1 (by decide) 0 _ _ (Run.head timer (Run.single timeout)) 2⟩

end CloudLab.Raft
