import CloudLab.Library.Tally
import CloudLab.Raft.SingleLeader

/-! Whether the cluster can still elect a leader. The timer thread and the timeout thread of
a node run once and a candidate asks once, so the last of them can be spent in vain. -/

namespace CloudLab.Raft
open Text

/-- The node leads, its election timer runs, or its timeout is still to come. -/
def Hopeful (node : Node) : Prop :=
  node.currentState = .Leader ∨ node.FollowerTimerThread = true ∨ (node.HandleTimeout = true ∧ node.is_timeout = true)

instance (node : Node) : Decidable (Hopeful node) := inferInstanceAs (Decidable (_ ∨ _ ∨ _ ∧ _))

def IsVote (data : Str) : Prop := data = AgreeVote ∨ ∃ k, data = RequestVote k

def Majority (config : Config) (s : Network) : Prop := config.numNodes < 2 * tally config.numNodes s.up

/-- A majority is running, and nothing is left that could make one of them leader. -/
structure Stuck (config : Config) (s : Network) : Prop where
  majority : Majority config s
  nodes : ∀ i node, s.nodes i = some node → ¬ Hopeful node
  flight : ∀ message ∈ s.flight, ¬ IsVote message.2

def Hope (s : Network) : Prop := ∃ j node, s.nodes j = some node ∧ Hopeful node

/-- The hope does not rest on node `i`. -/
def Besides (s : Network) (i : Nat) : Prop := ∃ j node, j ≠ i ∧ s.nodes j = some node ∧ Hopeful node

def MajorityBesides (config : Config) (s : Network) (i : Nat) : Prop :=
  config.numNodes < 2 * tally config.numNodes (Function.update s.up i false)

def voteFor (k : Nat) (message : Nat × Str) : Bool :=
  decide (message.2 = RequestVote k) || (decide (message.1 = k) && decide (message.2 = AgreeVote))

/-- The step is none of those that a node has no second try after, as long as a majority runs and no (other) node leads
or has yet to stand: a timeout that too few nodes can be asked after, or whose node sends heartbeats already and would be
ended by its election; a vote or a request for one that is lost; a request for a vote that a running candidate gets no
answer to; a crash, or a further vote for a leader, which ends it. -/
def Sustained (config : Config) (s : Network) : Event → Prop
  | .timeout i reachable => Majority config s → Besides s i ∨
      (∀ node, s.nodes i = some node → node.heartbeatThread = false) ∧
        1 ≤ tally config.numNodes (fun j => j ≠ i && s.accepting reachable j) ∧
        config.numNodes / 2 ≤ tally config.numNodes (fun j => j ≠ i && s.accepting reachable j) + 1
  | .lose i data => Majority config s → (∃ k, s.up k = true ∧ voteFor k (i, data) = true) → Hope s
  | .deliver i data reachable =>
      (Majority config s → ∀ k, data = RequestVote k → s.up k = true → reachable k = true ∨ Hope s) ∧
      (MajorityBesides config s i → data = AgreeVote → Besides s i ∨
        ∀ node, s.nodes i = some node → node.heartbeatThread = true →
          node.candidateVotenum + 1 < ((node.numNodes / 2 : Nat) : Int))
  | .crash i => MajorityBesides config s i → Besides s i
  | .heartbeat _ _ | .timer _ | .restart _ _ => True

/-! What keeps the election alive: a node that may still stand or leads, or a candidate with votes enough under way. -/

def pending (s : Network) (i : Nat) : Nat := s.flight.countP (voteFor i)

/-- The votes of node `i` and those still to come make it leader. -/
structure Gathers (s : Network) (i : Nat) (node : Node) : Prop where
  here : s.nodes i = some node
  first : node.heartbeatThread = false
  some_ : 1 ≤ pending s i
  enough : ((node.numNodes / 2 : Nat) : Int) ≤ node.candidateVotenum + pending s i

def Alive (s : Network) : Prop := Hope s ∨ ∃ i node, Gathers s i node

section alive
variable {config : Config} {s : Network} {i k : Nat} {node after : Node} {sent : List Sent} {message : Nat × Str}

theorem Hope.besides (hope : Hope s) (here : s.nodes i = some node) (hopeless : ¬ Hopeful node) : Besides s i := by
  obtain ⟨j, other, found, hopeful⟩ := hope
  refine ⟨j, other, ?_, found, hopeful⟩
  rintro rfl
  cases here.symm.trans found
  exact hopeless hopeful

theorem Besides.place (besides : Besides s i) : Hope (s.place i after sent) := by
  obtain ⟨j, other, different, found, hopeful⟩ := besides
  refine ⟨j, other, ?_, hopeful⟩
  rw [Network.place_nodes, Function.update_of_ne different]
  exact found

theorem Besides.crash (besides : Besides s i) : Hope (s.crash i) := by
  obtain ⟨j, other, different, found, hopeful⟩ := besides
  refine ⟨j, other, ?_, hopeful⟩
  rw [Network.crash_nodes, Function.update_of_ne different]
  exact found

theorem Hope.place (hope : Hope s) (here : s.nodes i = some node) (keeps : Hopeful node → Hopeful after) :
    Hope (s.place i after sent) := by
  by_cases hopeful : Hopeful node
  · exact ⟨i, after, Function.update_self .., keeps hopeful⟩
  · exact (hope.besides here hopeful).place

theorem voteFor_iff : voteFor k message = true ↔ message.2 = RequestVote k ∨ message.1 = k ∧ message.2 = AgreeVote := by
  simp only [voteFor, Bool.or_eq_true, Bool.and_eq_true, decide_eq_true_eq]

theorem isVote_of_voteFor (vote : voteFor k message = true) : IsVote message.2 := by
  rcases voteFor_iff.mp vote with request | agree
  · exact Or.inr ⟨k, request⟩
  · exact Or.inl agree.2

theorem not_stuck_of_alive (alive : Majority config s → Alive s) : ¬ Stuck config s := by
  intro stuck
  rcases alive stuck.majority with ⟨j, other, found, hopeful⟩ | ⟨i, node, gathers⟩
  · exact stuck.nodes j other found hopeful
  · obtain ⟨message, member, vote⟩ := List.countP_pos_iff.mp gathers.some_
    exact stuck.flight message member (isVote_of_voteFor vote)

theorem pending_take (s : Network) (member : message ∈ s.flight) (k : Nat) :
    pending (s.take message) k + (voteFor k message).toNat = pending s k := by
  unfold pending Network.take
  rw [List.countP_erase]
  cases vote : voteFor k message with
  | false => simp
  | true =>
    have positive : 0 < s.flight.countP (voteFor k) := List.countP_pos_iff.mpr ⟨message, member, vote⟩
    simp only [member, and_self, if_true, Bool.toNat_true]
    omega

theorem pending_place (s : Network) (i : Nat) (after : Node) (sent : List Sent) (k : Nat) :
    pending (s.place i after sent) k = pending s k + (sent.filterMap Network.posted).countP (voteFor k) :=
  List.countP_append

theorem Gathers.kept {t : Network} (gathers : Gathers s k node) (here : t.nodes k = some after)
    (first : after.heartbeatThread = node.heartbeatThread) (count : after.numNodes = node.numNodes)
    (votes : node.candidateVotenum + pending s k ≤ after.candidateVotenum + pending t k) (some_ : 1 ≤ pending t k) :
    Gathers t k after := by
  refine ⟨here, first.trans gathers.first, some_, ?_⟩
  have enough := gathers.enough
  rw [count]
  omega

theorem Alive.step {t : Network} (alive : Alive s) (here : s.nodes i = some node)
    (nodes : t.nodes = Function.update s.nodes i (some after)) (hopeful : Hopeful node → Hopeful after)
    (first : after.heartbeatThread = node.heartbeatThread) (count : after.numNodes = node.numNodes)
    (votes : after.candidateVotenum = node.candidateVotenum)
    (kept : Hope s ∨ ∀ k, s.up k = true → pending s k ≤ pending t k) : Alive t := by
  have hope : Hope s → Alive t := by
    rintro ⟨j, other, found, standing⟩
    by_cases same : j = i
    · subst same
      cases here.symm.trans found
      exact Or.inl ⟨j, after, by rw [nodes, Function.update_self], hopeful standing⟩
    · exact Or.inl ⟨j, other, by rw [nodes, Function.update_of_ne same, found], standing⟩
  rcases alive with before | ⟨k, candidate, gathers⟩
  · exact hope before
  rcases kept with before | kept
  · exact hope before
  have more := kept k (by rw [Network.up, gathers.here]; rfl)
  have some_ := gathers.some_
  right
  by_cases same : k = i
  · subst same
    cases here.symm.trans gathers.here
    exact ⟨k, after, gathers.kept (by rw [nodes, Function.update_self]) first count (by omega) (by omega)⟩
  · exact ⟨k, candidate, gathers.kept (by rw [nodes, Function.update_of_ne same, gathers.here]) rfl rfl (by omega) (by omega)⟩

theorem majority_place (here : s.nodes i = some node) :
    Majority config (s.place i after sent) ↔ Majority config s := by
  have up : (s.place i after sent).up = s.up := by
    funext j
    by_cases same : j = i
    · subst same
      simp [Network.up, here]
    · simp [Network.up, Function.update_of_ne same]
  rw [Majority, up, Majority]

theorem majority_crash : Majority config (s.crash i) ↔ MajorityBesides config s i := by
  have up : (s.crash i).up = Function.update s.up i false := by
    funext j
    by_cases same : j = i
    · subst same
      simp [Network.up]
    · simp [Network.up, Function.update_of_ne same]
  rw [Majority, up, MajorityBesides]

end alive

/-! What runs in the cluster, and what is under way. -/

structure Timed (config : Config) (i : Nat) (node : Node) : Prop where
  id : node.myNodeId = i
  count : node.numNodes = config.numNodes
  timer : node.FollowerTimerThread = true →
    node.currentState ≠ .Candidate ∧ node.HandleTimeout = true ∧ node.is_timeout = false

def Electoral (config : Config) (data : Str) : Prop :=
  data = HeartBeat ∨ data = AgreeVote ∨ ∃ k < config.numNodes, data = RequestVote k

structure Voting (config : Config) (s : Network) : Prop where
  nodes : ∀ i node, s.nodes i = some node → i < config.numNodes ∧ Timed config i node
  flight : ∀ message ∈ s.flight, Electoral config message.2

namespace Timed

variable {config : Config} {i : Nat} {node : Node}

theorem create (config : Config) (i : Nat) (votes : Int) : Timed config i (config.create i votes) := by
  refine ⟨rfl, rfl, fun _ => ⟨?_, rfl, rfl⟩⟩
  change (if i = 0 then NodeState.Leader else .Follower) ≠ .Candidate
  split <;> simp

theorem restart (timed : Timed config i node) : Timed config i (restartElection node) :=
  ⟨timed.id, timed.count, timed.timer⟩

theorem vote (timed : Timed config i node) {after : Node} (counted : handleRecvVote node = some after) :
    Timed config i after := by
  rw [handleRecvVote_eq] at counted
  split at counted
  · cases counted
    exact ⟨timed.id, timed.count, timed.timer⟩
  · split at counted
    · cases counted
    · cases counted
      refine ⟨timed.id, timed.count, fun running => ⟨by simp, (timed.timer running).2⟩⟩

theorem round (timed : Timed config i node) (running : node.FollowerTimerThread = true) :
    Timed config i (electionRound node) ∧ Hopeful (electionRound node) := by
  obtain ⟨state, waits, notYet⟩ := timed.timer running
  unfold electionRound
  split
  · refine ⟨⟨timed.id, timed.count, fun _ => ⟨state, waits, notYet⟩⟩, ?_⟩
    cases role : node.currentState with
    | Follower => exact Or.inr (Or.inl rfl)
    | Candidate => exact absurd role state
    | Leader => exact Or.inl rfl
  · exact ⟨⟨timed.id, timed.count, fun ended => (nomatch ended)⟩, Or.inr (Or.inr ⟨waits, rfl⟩)⟩

theorem timeout (timed : Timed config i node) (expired : node.is_timeout = true) (reachable : Nat → Bool) :
    Timed config i (handleElectionTimeout node reachable).1 ∧ ¬ Hopeful (handleElectionTimeout node reachable).1 := by
  have ended : node.FollowerTimerThread ≠ true := fun running => by
    rw [(timed.timer running).2.2] at expired
    cases expired
  refine ⟨⟨timed.id, timed.count, fun running => absurd running ended⟩, ?_⟩
  rintro (leads | running | ⟨waits, _⟩)
  · cases leads
  · exact ended running
  · cases waits

end Timed

namespace Voting

variable {config : Config} {s : Network} {i : Nat} {node after : Node} {sent : List Sent}

theorem start (config : Config) (votes : Nat → Int) : Voting config (Network.start config votes) := by
  constructor
  · intro i node found
    change (if i < config.numNodes then some (config.create i (votes i)) else none) = some node at found
    split at found
    · next bound =>
      cases found
      exact ⟨bound, .create config i (votes i)⟩
    · cases found
  · exact fun _ member => absurd member List.not_mem_nil

theorem place (voting : Voting config s) (bound : i < config.numNodes) (timed : Timed config i after)
    (texts : ∀ j data, Sent.toNode j data ∈ sent → Electoral config data) : Voting config (s.place i after sent) := by
  constructor
  · intro j other found
    rw [Network.place_nodes] at found
    by_cases same : j = i
    · subst same
      rw [Function.update_self, Option.some.injEq] at found
      exact found ▸ ⟨bound, timed⟩
    · rw [Function.update_of_ne same] at found
      exact voting.nodes j other found
  · rintro ⟨j, data⟩ member
    rcases List.mem_append.mp member with early | late
    · exact voting.flight _ early
    · exact texts j data (Network.mem_posted.mp late)

theorem crash (voting : Voting config s) (i : Nat) : Voting config (s.crash i) := by
  constructor
  · intro j other found
    rw [Network.crash_nodes] at found
    by_cases same : j = i
    · rw [same, Function.update_self] at found
      cases found
    · rw [Function.update_of_ne same] at found
      exact voting.nodes j other found
  · exact fun message member => voting.flight message (List.mem_filter.mp member).1

theorem take (voting : Voting config s) (message : Nat × Str) : Voting config (s.take message) :=
  ⟨voting.nodes, fun other member => voting.flight other (List.mem_of_mem_erase member)⟩

end Voting

/-! One step of the cluster. -/

theorem heartBeat_not_vote : ¬ IsVote HeartBeat := by
  rintro (same | ⟨k, same⟩)
  · exact absurd same (by decide)
  · exact requestVote_ne (by decide) k same.symm

theorem agreeVote_ne_requestVote (k : Nat) : AgreeVote ≠ RequestVote k := (requestVote_ne (by decide) k).symm

theorem HandleSockfd_request {config : Config} {i k : Nat} {node : Node} (timed : Timed config i node)
    (int : config.numNodes < 2 ^ 31) (bound : k < config.numNodes) (reachable : Nat → Bool) :
    HandleSockfd node reachable (RequestVote k) =
      some (restartElection node, if reachable k then [.toNode k AgreeVote] else []) := by
  have inside : (0 : Int) ≤ k ∧ (k : Int) < node.numNodes := by
    rw [timed.count]
    omega
  rw [HandleSockfd_requestVote, stoi_decimal (by omega) (by omega), Option.bind_some, handleRequestVote,
    if_pos inside, Int.toNat_natCast]

section step
variable {config : Config} {s t : Network} {i : Nat} {data : Str} {reachable : Nat → Bool} {node : Node}

theorem electoral_to_others {message : Str} (electoral : Electoral config message) :
    ∀ j data, Sent.toNode j data ∈ sendToOthers node reachable message → Electoral config data := by
  intro j data sent
  obtain ⟨k, _, same⟩ := List.mem_map.mp sent
  cases same
  exact electoral

/-- There is still a way to elect a leader, if a majority runs. -/
def Electing (config : Config) (s : Network) : Prop := Majority config s → Alive s

structure StepSpec (config : Config) (s : Network) (event : Event) (t : Network) : Prop where
  voting : Voting config t
  electing : Electing config s → Sustained config s event → Electing config t

theorem voteFor_other {k : Nat} (other : k ≠ i) : voteFor k (i, AgreeVote) = false := by
  rw [← Bool.not_eq_true, voteFor_iff]
  rintro (request | ⟨same, _⟩)
  · exact agreeVote_ne_requestVote k request
  · exact other same.symm

theorem voteFor_heartBeat (k : Nat) : voteFor k (i, HeartBeat) = false := by
  rw [← Bool.not_eq_true]
  exact fun vote => heartBeat_not_vote (isVote_of_voteFor vote)

theorem voteFor_request {k k' : Nat} : voteFor k' (i, RequestVote k) = decide (k' = k) := by
  rw [Bool.eq_iff_iff, voteFor_iff, decide_eq_true_iff]
  constructor
  · rintro (request | ⟨_, agree⟩)
    · exact (requestVote_injective request).symm
    · exact absurd agree.symm (agreeVote_ne_requestVote k)
  · rintro rfl
    exact Or.inl rfl

theorem Voting.deliver_heartBeat (voting : Voting config s) (here : s.nodes i = some node) (member : (i, HeartBeat) ∈ s.flight) :
    StepSpec config s (.deliver i HeartBeat reachable) ((s.take (i, HeartBeat)).place i (restartElection node) []) := by
  obtain ⟨bound, timed⟩ := voting.nodes i node here
  refine ⟨(voting.take _).place bound timed.restart (by simp), fun alive _ majority => ?_⟩
  have here' : (s.take (i, HeartBeat)).nodes i = some node := here
  have before := alive ((majority_place here').mp majority)
  refine before.step here rfl id rfl rfl rfl (Or.inr fun k _ => ?_)
  have taken := pending_take s member k
  rw [voteFor_heartBeat] at taken
  rw [pending_place]
  simp only [Bool.toNat_false, add_zero] at taken
  omega

theorem Voting.deliver_request (voting : Voting config s) (here : s.nodes i = some node)
    {k : Nat} (bound : k < config.numNodes) (member : (i, RequestVote k) ∈ s.flight) :
    StepSpec config s (.deliver i (RequestVote k) reachable)
      ((s.take (i, RequestVote k)).place i (restartElection node)
        (if s.accepting reachable k then [.toNode k AgreeVote] else [])) := by
  obtain ⟨small, timed⟩ := voting.nodes i node here
  refine ⟨(voting.take _).place small timed.restart ?_, fun alive sustained majority => ?_⟩
  · intro j data sent
    split at sent
    · cases List.mem_singleton.mp sent
      exact Or.inr (Or.inl rfl)
    · cases sent
  have here' : (s.take (i, RequestVote k)).nodes i = some node := here
  have majority := (majority_place here').mp majority
  refine (alive majority).step here rfl id rfl rfl rfl ?_
  by_cases hope : Hope s
  · exact Or.inl hope
  refine Or.inr fun k' up => ?_
  have taken := pending_take s member k'
  rw [voteFor_request] at taken
  rw [pending_place]
  by_cases asking : k' = k
  · subst asking
    have reached := (sustained.1 majority k' rfl up).resolve_right hope
    have accepted : s.accepting reachable k' = true := by rw [Network.accepting, reached, up]; rfl
    have vote : voteFor k' (k', AgreeVote) = true := voteFor_iff.mpr (Or.inr ⟨rfl, rfl⟩)
    rw [if_pos accepted]
    simp only [List.filterMap_cons, List.filterMap_nil, Network.posted, List.countP_cons, List.countP_nil, vote, if_true]
    simp only [decide_true, Bool.toNat_true] at taken
    omega
  · simp only [asking, decide_false, Bool.toNat_false, add_zero] at taken
    omega

theorem Voting.deliver_vote (voting : Voting config s) (here : s.nodes i = some node) (member : (i, AgreeVote) ∈ s.flight)
    {after : Node} (counted : handleRecvVote node = some after) :
    StepSpec config s (.deliver i AgreeVote reachable) ((s.take (i, AgreeVote)).place i after []) := by
  obtain ⟨bound, timed⟩ := voting.nodes i node here
  refine ⟨(voting.take _).place bound (timed.vote counted) (by simp), fun alive _ majority => ?_⟩
  have here' : (s.take (i, AgreeVote)).nodes i = some node := here
  have before := alive ((majority_place here').mp majority)
  rw [handleRecvVote_eq] at counted
  split at counted
  · next short =>
    cases counted
    rcases before with hope | ⟨k, candidate, gathers⟩
    · exact Or.inl (Hope.place hope here id)
    have taken := pending_take s member k
    have placed := pending_place (s.take (i, AgreeVote)) i { node with candidateVotenum := node.candidateVotenum + 1 } [] k
    have some_ := gathers.some_
    right
    by_cases same : k = i
    · subst same
      cases here.symm.trans gathers.here
      have vote : voteFor k (k, AgreeVote) = true := voteFor_iff.mpr (Or.inr ⟨rfl, rfl⟩)
      have enough := gathers.enough
      rw [vote] at taken
      simp only [List.filterMap_nil, List.countP_nil, Bool.toNat_true] at placed taken
      refine ⟨k, _, gathers.kept (Function.update_self ..) rfl rfl ?_ ?_⟩
      · change node.candidateVotenum + _ ≤ node.candidateVotenum + 1 + _
        omega
      · omega
    · rw [voteFor_other same] at taken
      simp only [List.filterMap_nil, List.countP_nil, Bool.toNat_false] at placed taken
      have there : ((s.take (i, AgreeVote)).place i { node with candidateVotenum := node.candidateVotenum + 1 } []).nodes k =
          some candidate := by
        rw [Network.place_nodes, Function.update_of_ne same]
        exact gathers.here
      exact ⟨k, candidate, gathers.kept there rfl rfl (by omega) (by omega)⟩
  · split at counted
    · cases counted
    · cases counted
      exact Or.inl ⟨i, _, Function.update_self .., Or.inl rfl⟩

theorem Voting.stopped_vote (voting : Voting config s) (here : s.nodes i = some node)
    (ended : handleRecvVote node = none) :
    StepSpec config s (.deliver i AgreeVote reachable) ((s.take (i, AgreeVote)).crash i) := by
  refine ⟨(voting.take _).crash i, fun _ sustained majority => ?_⟩
  rw [handleRecvVote_eq] at ended
  split at ended
  · cases ended
  · next reached =>
    split at ended
    · next running =>
      rcases sustained.2 (majority_crash.mp majority) rfl with besides | short
      · have besides : Besides (s.take (i, AgreeVote)) i := besides
        exact Or.inl besides.crash
      · exact absurd (short node here running) reached
    · cases ended

theorem Voting.deliver (voting : Voting config s) (int : config.numNodes < 2 ^ 31)
    (taken : next config s (.deliver i data reachable) = some t) : StepSpec config s (.deliver i data reachable) t := by
  cases next_branch taken with
  | stopped inFlight here outcome =>
    have timed := (voting.nodes i _ here).2
    rcases voting.flight _ inFlight with rfl | rfl | ⟨k, bound, rfl⟩
    · rw [HandleSockfd_heartBeat] at outcome
      cases outcome
    · rw [HandleSockfd_agreeVote, Option.map_eq_none_iff] at outcome
      exact voting.stopped_vote here outcome
    · rw [HandleSockfd_request timed int bound] at outcome
      cases outcome
  | handled inFlight here outcome =>
    have timed := (voting.nodes i _ here).2
    rcases voting.flight _ inFlight with rfl | rfl | ⟨k, bound, rfl⟩
    · rw [HandleSockfd_heartBeat] at outcome
      cases outcome
      exact voting.deliver_heartBeat here inFlight
    · rw [HandleSockfd_agreeVote, Option.map_eq_some_iff] at outcome
      obtain ⟨after, counted, same⟩ := outcome
      cases same
      exact voting.deliver_vote here inFlight counted
    · rw [HandleSockfd_request timed int bound] at outcome
      cases outcome
      exact voting.deliver_request here bound inFlight

theorem Voting.lose (voting : Voting config s) (member : (i, data) ∈ s.flight) :
    StepSpec config s (.lose i data) (s.take (i, data)) := by
  refine ⟨voting.take _, fun alive sustained majority => ?_⟩
  have majority : Majority config s := majority
  rcases alive majority with hope | ⟨k, candidate, gathers⟩
  · exact Or.inl hope
  cases vote : voteFor k (i, data) with
  | true => exact Or.inl (sustained majority ⟨k, by rw [Network.up, gathers.here]; rfl, vote⟩)
  | false =>
    have taken := pending_take s member k
    rw [vote] at taken
    simp only [Bool.toNat_false, add_zero] at taken
    have some_ := gathers.some_
    exact Or.inr ⟨k, candidate, gathers.kept gathers.here rfl rfl (by omega) (by omega)⟩

theorem Voting.timer (voting : Voting config s) (taken : next config s (.timer i) = some t) :
    StepSpec config s (.timer i) t := by
  obtain ⟨node, here, result⟩ := Option.bind_eq_some_iff.mp taken
  split at result
  · next running =>
    cases result
    obtain ⟨bound, timed⟩ := voting.nodes i node here
    obtain ⟨timed', hopeful⟩ := timed.round running
    exact ⟨voting.place bound timed' (by simp), fun _ _ _ => Or.inl ⟨i, _, Function.update_self .., hopeful⟩⟩
  · cases result

theorem countP_requests {n : Nat} (self : node.myNodeId = i) (count : node.numNodes = n) (reachable : Nat → Bool) :
    ((sendRequestVote node reachable).filterMap Network.posted).countP (voteFor i) =
      tally n fun j => j ≠ i && reachable j := by
  subst self count
  have each : (Network.posted ∘ fun nodeid => Sent.toNode nodeid (RequestVote node.myNodeId)) =
      fun nodeid => some (nodeid, RequestVote node.myNodeId) := rfl
  have vote (nodeid : Nat) : voteFor node.myNodeId (nodeid, RequestVote node.myNodeId) = true :=
    voteFor_iff.mpr (Or.inl rfl)
  rw [sendRequestVote, sendToOthers, List.filterMap_map, each, List.filterMap_eq_map', List.countP_map]
  simp only [Function.comp_def, vote, List.countP_true]
  rw [Tally.length_filter_range]

theorem Voting.timeout (voting : Voting config s) (here : s.nodes i = some node) (expired : node.is_timeout = true) :
    StepSpec config s (.timeout i reachable)
      (s.place i (handleElectionTimeout node (s.accepting reachable)).1
        (handleElectionTimeout node (s.accepting reachable)).2) := by
  obtain ⟨bound, timed⟩ := voting.nodes i node here
  obtain ⟨timed', _⟩ := timed.timeout expired (s.accepting reachable)
  refine ⟨voting.place bound timed' ?_, fun _ sustained majority => ?_⟩
  · exact electoral_to_others (Or.inr (Or.inr ⟨node.myNodeId, timed.id ▸ bound, rfl⟩))
  rcases sustained ((majority_place here).mp majority) with besides | ⟨first, asked, enough⟩
  · exact Or.inl besides.place
  have requests : ((handleElectionTimeout node (s.accepting reachable)).2.filterMap Network.posted).countP (voteFor i) =
      tally config.numNodes fun j => j ≠ i && s.accepting reachable j :=
    countP_requests timed.id timed.count (s.accepting reachable)
  have more := pending_place s i (handleElectionTimeout node (s.accepting reachable)).1
    (handleElectionTimeout node (s.accepting reachable)).2 i
  refine Or.inr ⟨i, _, Function.update_self .., first node here, by omega, ?_⟩
  change ((node.numNodes / 2 : Nat) : Int) ≤ 1 + _
  rw [timed.count]
  omega

theorem Voting.next (voting : Voting config s) (int : config.numNodes < 2 ^ 31) {event : Event}
    (taken : next config s event = some t) : StepSpec config s event t := by
  cases event with
  | deliver i data reachable => exact voting.deliver int taken
  | timer i => exact voting.timer taken
  | lose i data =>
    cases next_branch taken with
    | lose inFlight => exact voting.lose inFlight
  | heartbeat i reachable =>
    cases next_branch taken with
    | heartbeat here =>
      obtain ⟨bound, timed⟩ := voting.nodes i _ here
      refine ⟨voting.place bound timed (electoral_to_others (Or.inl rfl)), fun alive _ majority => ?_⟩
      refine (alive ((majority_place here).mp majority)).step here rfl id rfl rfl rfl (Or.inr fun k _ => ?_)
      rw [pending_place]
      omega
  | timeout i reachable =>
    cases next_branch taken with
    | timeout here woken => exact voting.timeout here woken.2
  | crash i =>
    cases next_branch taken with
    | crash => exact ⟨voting.crash i, fun _ sustained majority => Or.inl (sustained (majority_crash.mp majority)).crash⟩
  | restart i votes =>
    cases next_branch taken with
    | restart bound down =>
      have timed := Timed.create config i votes
      have placed : Voting config (s.place i (config.create i votes) []) := voting.place bound timed (by simp)
      have same : s.place i (config.create i votes) [] =
          { s with nodes := Function.update s.nodes i (some (config.create i votes)) } := by
        simp [Network.place]
      rw [same] at placed
      refine ⟨placed, fun _ _ _ => Or.inl ⟨i, config.create i votes, Function.update_self .., ?_⟩⟩
      by_cases zero : i = 0
      · exact Or.inl (if_pos zero)
      · exact Or.inr (Or.inl (decide_eq_true zero))

end step

theorem alive_start (config : Config) (votes : Nat → Int) : Electing config (Network.start config votes) := by
  intro majority
  have nonempty : 0 < config.numNodes := by
    have bound := Tally.tally_le config.numNodes (Network.start config votes).up
    unfold Majority at majority
    omega
  exact Or.inl ⟨0, config.create 0 (votes 0), if_pos nonempty, Or.inl rfl⟩

/-- In every run whose steps are all sustained the cluster can still elect whenever a majority is running. -/
theorem can_elect (config : Config) (int : config.numNodes < 2 ^ 31) (votes : Nat → Int) (events : List Event)
    (s : Network)
    (run : Run (fun s e t => next config s e = some t ∧ Sustained config s e) (Network.start config votes) events s) :
    ¬ Stuck config s := by
  have inv : Voting config s ∧ Electing config s := by
    refine run.invariant (fun s => Voting config s ∧ Electing config s) ?_
      ⟨Voting.start config votes, alive_start config votes⟩
    rintro s e t ⟨voting, alive⟩ ⟨taken, sustained⟩
    have spec := voting.next int taken
    exact ⟨spec.voting, spec.electing alive sustained⟩
  exact not_stuck_of_alive inv.2

/-- The leader of three nodes crashes, and the two that are left ask for votes while they cannot
connect: both are candidates for ever. -/
theorem stuck_after_crash :
    ∃ s, Run (fun s e t => next trio s e = some t) (Network.start trio fun _ => 0)
        [.crash 0, .timer 1, .timer 2, .timeout 1 fun _ => false, .timeout 2 fun _ => false] s ∧ Stuck trio s := by
  have result : (execute (next trio) (Network.start trio fun _ => 0)
      [.crash 0, .timer 1, .timer 2, .timeout 1 fun _ => false, .timeout 2 fun _ => false]).any (fun s =>
        decide (s.flight = [] ∧ 3 < 2 * tally 3 s.up) &&
          (List.range 3).all fun i => (s.nodes i).all fun node => decide ¬ Hopeful node) = true := by
    decide
  obtain ⟨s, reached, facts⟩ := (Option.any_eq_true _ _).mp result
  rw [Bool.and_eq_true, decide_eq_true_eq, List.all_eq_true] at facts
  obtain ⟨⟨none, majority⟩, hopeless⟩ := facts
  have run := run_of_execute reached
  have voting : Voting trio s := run.invariant (Voting trio)
    (fun _ _ _ before taken => (before.next (by decide) taken).voting) (Voting.start trio fun _ => 0)
  refine ⟨s, run, majority, fun i node found => ?_, fun message member => ?_⟩
  · have here := hopeless i (List.mem_range.mpr (voting.nodes i node found).1)
    rw [found, Option.all_some, decide_eq_true_eq] at here
    exact here
  · rw [none] at member
    exact absurd member List.not_mem_nil

/-- After the crash of the leader node 1 times out, is voted for by node 2 and leads. -/
theorem can_elect_after_crash :
    ∃ s, Run (fun s e t => next trio s e = some t ∧ Sustained trio s e) (Network.start trio fun _ => 0)
        [.crash 0, .timer 1, .timeout 1 fun _ => true, .deliver 2 (RequestVote 1) fun _ => true,
          .deliver 1 AgreeVote fun _ => true] s ∧ ¬ Stuck trio s := by
  have crash : Sustained trio (Network.start trio fun _ => 0) (.crash 0) :=
    fun _ => ⟨1, trio.create 1 0, by decide, rfl, Or.inr (Or.inl rfl)⟩
  have run : Run (fun s e t => next trio s e = some t ∧ Sustained trio s e) (Network.start trio fun _ => 0)
      [.crash 0, .timer 1, .timeout 1 fun _ => true, .deliver 2 (RequestVote 1) fun _ => true,
        .deliver 1 AgreeVote fun _ => true] _ :=
    Run.head ⟨rfl, crash⟩ <| Run.head ⟨rfl, trivial⟩ <|
      Run.head ⟨rfl, fun _ => Or.inr ⟨fun node here => by cases here; rfl, by decide, by decide⟩⟩ <|
        Run.head ⟨rfl, fun _ _ _ _ => Or.inl rfl, fun _ same => absurd same.symm (agreeVote_ne_requestVote 1)⟩ <|
          Run.single ⟨rfl, fun _ _ _ _ => Or.inl rfl, fun _ _ => Or.inr fun node here running => by cases here; cases running⟩
  exact ⟨_, run, can_elect trio (by decide) (fun _ => 0) _ _ run⟩

end CloudLab.Raft
