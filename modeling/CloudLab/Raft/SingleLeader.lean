import CloudLab.Raft.Election

/-! The election under every interleaving of deliveries, timers, lost connections, crashes
and restarts, and when it keeps a single leader. -/

namespace CloudLab.Raft
open Text

/-- The running nodes, and the messages accepted for a node but not yet read there. -/
structure Network where
  nodes : Nat → Option Node
  flight : List (Nat × Str)

namespace Network

def up (s : Network) (i : Nat) : Bool := (s.nodes i).isSome

def accepting (s : Network) (reachable : Nat → Bool) : Nat → Bool := fun j => reachable j && s.up j

def posted : Sent → Option (Nat × Str)
  | .reply _ => none
  | .toNode nodeid message => some (nodeid, message)

def place (s : Network) (i : Nat) (after : Node) (sent : List Sent) : Network :=
  { nodes := Function.update s.nodes i (some after), flight := s.flight ++ sent.filterMap posted }

def crash (s : Network) (i : Nat) : Network :=
  { nodes := Function.update s.nodes i none, flight := s.flight.filter fun message => message.1 ≠ i }

def take (s : Network) (message : Nat × Str) : Network :=
  { s with flight := s.flight.erase message }

@[simp] theorem place_nodes (s : Network) (i : Nat) (after : Node) (sent : List Sent) :
    (s.place i after sent).nodes = Function.update s.nodes i (some after) := rfl

@[simp] theorem crash_nodes (s : Network) (i : Nat) :
    (s.crash i).nodes = Function.update s.nodes i none := rfl

theorem mem_posted {sent : List Sent} {j : Nat} {data : Str} :
    (j, data) ∈ sent.filterMap posted ↔ Sent.toNode j data ∈ sent := by
  rw [List.mem_filterMap]
  constructor
  · rintro ⟨message, member, same⟩
    cases message with
    | reply => cases same
    | toNode =>
      cases same
      exact member
  · exact fun member => ⟨_, member, rfl⟩

end Network

/-- `timer`: one round of the follower's timer thread. `timeout`: the waiting thread of
`handleElectionTimeout` wakes. A restarted process starts with arbitrary `votes`. -/
inductive Event where
  | deliver (i : Nat) (data : Str) (reachable : Nat → Bool)
  | lose (i : Nat) (data : Str)
  | heartbeat (i : Nat) (reachable : Nat → Bool)
  | timer (i : Nat)
  | timeout (i : Nat) (reachable : Nat → Bool)
  | crash (i : Nat)
  | restart (i : Nat) (votes : Int)

structure Config where
  numNodes : Nat
  Nodeip : Nat → Str
  Nodeport : Nat → Int

def Config.create (config : Config) (i : Nat) (votes : Int) : Node :=
  Node.create config.numNodes i config.Nodeip config.Nodeport votes

def Network.start (config : Config) (votes : Nat → Int) : Network :=
  { nodes := fun i => if i < config.numNodes then some (config.create i (votes i)) else none,
    flight := [] }

def next (config : Config) (s : Network) : Event → Option Network
  | .deliver i data reachable =>
      if (i, data) ∈ s.flight then do
        let node ← s.nodes i
        match HandleSockfd node (s.accepting reachable) data with
        | none => some ((s.take (i, data)).crash i)
        | some handled => some ((s.take (i, data)).place i handled.1 handled.2)
      else none
  | .lose i data => if (i, data) ∈ s.flight then some (s.take (i, data)) else none
  | .heartbeat i reachable => do
      let node ← s.nodes i
      if node.heartbeatThread ∧ node.currentLeader = node.myNodeId then
        some (s.place i node (SendHeartBeat node (s.accepting reachable)))
      else none
  | .timer i => do
      let node ← s.nodes i
      if node.FollowerTimerThread then some (s.place i (electionRound node) []) else none
  | .timeout i reachable => do
      let node ← s.nodes i
      if node.HandleTimeout ∧ node.is_timeout then
        let woken := handleElectionTimeout node (s.accepting reachable)
        some (s.place i woken.1 woken.2)
      else none
  | .crash i => do
      let _ ← s.nodes i
      some (s.crash i)
  | .restart i votes =>
      if i < config.numNodes ∧ s.up i = false then
        some { s with nodes := Function.update s.nodes i (some (config.create i votes)) }
      else none

inductive Branch (config : Config) (s : Network) : Event → Network → Prop where
  | stopped {i data reachable node} (inFlight : (i, data) ∈ s.flight) (here : s.nodes i = some node)
      (outcome : HandleSockfd node (s.accepting reachable) data = none) :
      Branch config s (.deliver i data reachable) ((s.take (i, data)).crash i)
  | handled {i data reachable node handled} (inFlight : (i, data) ∈ s.flight) (here : s.nodes i = some node)
      (outcome : HandleSockfd node (s.accepting reachable) data = some handled) :
      Branch config s (.deliver i data reachable) ((s.take (i, data)).place i handled.1 handled.2)
  | lose {i data} (inFlight : (i, data) ∈ s.flight) : Branch config s (.lose i data) (s.take (i, data))
  | heartbeat {i reachable node} (here : s.nodes i = some node)
      (leads : node.heartbeatThread ∧ node.currentLeader = node.myNodeId) :
      Branch config s (.heartbeat i reachable) (s.place i node (SendHeartBeat node (s.accepting reachable)))
  | timer {i node} (here : s.nodes i = some node) :
      Branch config s (.timer i) (s.place i (electionRound node) [])
  | timeout {i reachable node} (here : s.nodes i = some node) (woken : node.HandleTimeout ∧ node.is_timeout) :
      Branch config s (.timeout i reachable)
        (s.place i (handleElectionTimeout node (s.accepting reachable)).1
          (handleElectionTimeout node (s.accepting reachable)).2)
  | crash {i} : Branch config s (.crash i) (s.crash i)
  | restart {i votes} (bound : i < config.numNodes) (down : s.up i = false) :
      Branch config s (.restart i votes)
        { s with nodes := Function.update s.nodes i (some (config.create i votes)) }

theorem next_branch {config : Config} {s t : Network} {event : Event} (taken : next config s event = some t) :
    Branch config s event t := by
  cases event with
  | deliver i data reachable =>
    by_cases inFlight : (i, data) ∈ s.flight
    · rw [next, if_pos inFlight] at taken
      obtain ⟨node, here, result⟩ := Option.bind_eq_some_iff.mp taken
      cases outcome : HandleSockfd node (s.accepting reachable) data with
      | none =>
        rw [outcome] at result
        cases result
        exact .stopped inFlight here outcome
      | some handled =>
        rw [outcome] at result
        cases result
        exact .handled inFlight here outcome
    · rw [next, if_neg inFlight] at taken
      cases taken
  | lose i data =>
    by_cases inFlight : (i, data) ∈ s.flight
    · rw [next, if_pos inFlight] at taken
      cases taken
      exact .lose inFlight
    · rw [next, if_neg inFlight] at taken
      cases taken
  | heartbeat i reachable =>
    obtain ⟨node, here, result⟩ := Option.bind_eq_some_iff.mp taken
    split at result
    · next leads =>
      cases result
      exact .heartbeat here leads
    · cases result
  | timer i =>
    obtain ⟨node, here, result⟩ := Option.bind_eq_some_iff.mp taken
    split at result
    · cases result
      exact .timer here
    · cases result
  | timeout i reachable =>
    obtain ⟨node, here, result⟩ := Option.bind_eq_some_iff.mp taken
    split at result
    · next woken =>
      cases result
      exact .timeout here woken
    · cases result
  | crash i =>
    obtain ⟨_, _, result⟩ := Option.bind_eq_some_iff.mp taken
    cases result
    exact .crash
  | restart i votes =>
    by_cases down : i < config.numNodes ∧ s.up i = false
    · rw [next, if_pos down] at taken
      cases taken
      exact .restart down.1 down.2
    · rw [next, if_neg down] at taken
      cases taken

def SingleLeader (s : Network) : Prop :=
  ∀ i j a b, s.nodes i = some a → s.nodes j = some b →
    a.currentState = .Leader → b.currentState = .Leader → i = j

/-- The node leads or can still come to: its timeout is still to come, or a vote for it or a request for one
is under way. -/
def Contends (s : Network) (i : Nat) : Prop :=
  ∃ node, s.nodes i = some node ∧ (node.currentState = .Leader ∨ (node.HandleTimeout ∧ node.is_timeout) ∨
    (i, AgreeVote) ∈ s.flight ∨ ∃ j, (j, RequestVote i) ∈ s.flight)

def Alone (s : Network) (i : Nat) : Prop := ∀ j, j ≠ i → ¬ Contends s j

/-- What keeps elections apart: an election timer expires only while no other running node leads or can still
come to; a node restarts only when no vote request of its former process is under way, and node 0, which starts
as leader, only while no running node contends. -/
def Orderly (s : Network) : Event → Prop
  | .timer i => ∀ node, s.nodes i = some node → node.electionTimeout = false → Alone s i
  | .restart i _ => (∀ j, (j, RequestVote i) ∉ s.flight) ∧ (i = 0 → Alone s i)
  | _ => True

/-- What may be sent in a step from `s`: a vote, or a request for one, only for a node that contends there. -/
def Backed (s : Network) (j : Nat) (data : Str) : Prop :=
  data = HeartBeat ∨ (data = AgreeVote ∧ Contends s j) ∨ ∃ k, data = RequestVote k ∧ Contends s k

/-- One contender at most, and only texts of an election are under way, to running nodes. -/
structure Uncontested (s : Network) : Prop where
  self : ∀ i node, s.nodes i = some node → node.myNodeId = i
  single : ∀ i j, Contends s i → Contends s j → i = j
  running : ∀ i data, (i, data) ∈ s.flight → s.up i = true
  election : ∀ i data, (i, data) ∈ s.flight → data = HeartBeat ∨ data = AgreeVote ∨ ∃ k, data = RequestVote k

theorem Backed.agreeVote {s : Network} {j : Nat} (backed : Backed s j AgreeVote) : Contends s j := by
  rcases backed with beat | ⟨_, contends⟩ | ⟨k, request, _⟩
  · exact absurd beat (by decide)
  · exact contends
  · exact absurd request.symm (requestVote_ne (by decide) k)

theorem Backed.requestVote {s : Network} {j k : Nat} (backed : Backed s j (RequestVote k)) : Contends s k := by
  rcases backed with beat | ⟨agree, _⟩ | ⟨l, request, contends⟩
  · exact absurd beat (requestVote_ne (by decide) k)
  · exact absurd agree (requestVote_ne (by decide) k)
  · exact requestVote_injective request ▸ contends

theorem Backed.election {s : Network} {j : Nat} {data : Str} (backed : Backed s j data) :
    data = HeartBeat ∨ data = AgreeVote ∨ ∃ k, data = RequestVote k :=
  backed.imp_right fun later => later.imp And.left fun ⟨k, request, _⟩ => ⟨k, request⟩

theorem handleRecvVote_self {node after : Node} (voted : handleRecvVote node = some after) :
    after.myNodeId = node.myNodeId := by
  simp only [handleRecvVote, becomeLeader, startHeartBeat] at voted
  split at voted
  · split at voted
    · cases voted
    · cases voted
      rfl
  · cases voted
    rfl

theorem sent_to_others {s : Network} {node : Node} {reachable : Nat → Bool} {message data : Str} {j : Nat}
    (sent : Sent.toNode j data ∈ sendToOthers node (s.accepting reachable) message) :
    s.up j = true ∧ data = message := by
  obtain ⟨nodeid, chosen, same⟩ := List.mem_map.mp sent
  cases same
  have accepts := (List.mem_filter.mp chosen).2
  simp only [Network.accepting, Bool.and_eq_true] at accepts
  exact ⟨accepts.2.2, rfl⟩

namespace Uncontested
open Network

theorem single_of {s t : Network} (inv : Uncontested s) (i : Nat)
    (contenders : ∀ k, Contends t k → Contends s k ∨ k = i ∧ Alone s i) :
    ∀ k l, Contends t k → Contends t l → k = l := by
  intro k l first second
  rcases contenders k first with before | ⟨rfl, alone⟩
  · rcases contenders l second with before' | ⟨rfl, alone⟩
    · exact inv.single k l before before'
    · by_contra different
      exact alone k different before
  · rcases contenders l second with before' | ⟨rfl, _⟩
    · by_contra different
      exact alone l (Ne.symm different) before'
    · rfl

theorem fewer {s : Network} (inv : Uncontested s) {flight : List (Nat × Str)} (less : ∀ message ∈ flight, message ∈ s.flight) :
    Uncontested { s with flight := flight } := by
  refine ⟨inv.self, inv.single_of 0 ?_, fun i data member => inv.running i data (less _ member),
    fun i data member => inv.election i data (less _ member)⟩
  rintro k ⟨node, here, reason⟩
  exact Or.inl ⟨node, here, reason.imp_right fun later => later.imp_right fun last =>
    last.imp (less _) fun ⟨j, member⟩ => ⟨j, less _ member⟩⟩

/-! A step of node `i`, after which `flight` is left of what was under way in `s`. -/

section place
variable {s : Network} {i : Nat} {node after : Node} {sent : List Sent} {flight : List (Nat × Str)}

theorem flies (less : ∀ message ∈ flight, message ∈ s.flight)
    (sends : ∀ j data, Sent.toNode j data ∈ sent → s.up j = true ∧ Backed s j data) {j : Nat} {data : Str}
    (member : (j, data) ∈ (({ s with flight := flight } : Network).place i after sent).flight) :
    (j, data) ∈ s.flight ∨ (s.up j = true ∧ Backed s j data) := by
  rcases List.mem_append.mp member with early | late
  · exact Or.inl (less _ early)
  · exact Or.inr (sends j data (mem_posted.mp late))

theorem contends_place (less : ∀ message ∈ flight, message ∈ s.flight) (here : s.nodes i = some node)
    (new : after.currentState = .Leader ∨ (after.HandleTimeout ∧ after.is_timeout) → Contends s i ∨ Alone s i)
    (sends : ∀ j data, Sent.toNode j data ∈ sent → s.up j = true ∧ Backed s j data) {k : Nat}
    (contends : Contends (({ s with flight := flight } : Network).place i after sent) k) :
    Contends s k ∨ k = i ∧ Alone s i := by
  obtain ⟨other, found, reason⟩ := contends
  -- A vote or a request that is under way speaks for a contender of `s`.
  have voted (member : (k, AgreeVote) ∈ (({ s with flight := flight } : Network).place i after sent).flight)
      {before : Node} (there : s.nodes k = some before) : Contends s k := by
    rcases flies less sends member with early | late
    · exact ⟨before, there, Or.inr (Or.inr (Or.inl early))⟩
    · exact late.2.agreeVote
  have requested {j : Nat}
      (member : (j, RequestVote k) ∈ (({ s with flight := flight } : Network).place i after sent).flight)
      {before : Node} (there : s.nodes k = some before) : Contends s k := by
    rcases flies less sends member with early | late
    · exact ⟨before, there, Or.inr (Or.inr (Or.inr ⟨j, early⟩))⟩
    · exact late.2.requestVote
  by_cases same : k = i
  · subst same
    rw [place_nodes, Function.update_self, Option.some.injEq] at found
    subst found
    rcases reason with leads | timed | vote | ⟨_, request⟩
    · exact (new (Or.inl leads)).imp_right fun alone => ⟨rfl, alone⟩
    · exact (new (Or.inr timed)).imp_right fun alone => ⟨rfl, alone⟩
    · exact Or.inl (voted vote here)
    · exact Or.inl (requested request here)
  · rw [place_nodes, Function.update_of_ne same] at found
    rcases reason with leads | timed | vote | ⟨_, request⟩
    · exact Or.inl ⟨other, found, Or.inl leads⟩
    · exact Or.inl ⟨other, found, Or.inr (Or.inl timed)⟩
    · exact Or.inl (voted vote found)
    · exact Or.inl (requested request found)

theorem place (inv : Uncontested s) (less : ∀ message ∈ flight, message ∈ s.flight)
    (here : s.nodes i = some node) (self : after.myNodeId = node.myNodeId)
    (new : after.currentState = .Leader ∨ (after.HandleTimeout ∧ after.is_timeout) → Contends s i ∨ Alone s i)
    (sends : ∀ j data, Sent.toNode j data ∈ sent → s.up j = true ∧ Backed s j data) :
    Uncontested (({ s with flight := flight } : Network).place i after sent) := by
  have stillUp (j : Nat) (running : s.up j = true) :
      (({ s with flight := flight } : Network).place i after sent).up j = true := by
    by_cases same : j = i
    · simp [Network.place, up, same]
    · simpa [Network.place, up, Function.update_of_ne same] using running
  refine ⟨?_, inv.single_of i fun _ => contends_place less here new sends, ?_, ?_⟩
  · intro j other found
    by_cases same : j = i
    · subst same
      rw [place_nodes, Function.update_self, Option.some.injEq] at found
      rw [← found, self]
      exact inv.self j node here
    · rw [place_nodes, Function.update_of_ne same] at found
      exact inv.self j other found
  · intro j data member
    rcases flies less sends member with early | late
    · exact stillUp j (inv.running j data early)
    · exact stillUp j late.1
  · intro j data member
    rcases flies less sends member with early | late
    · exact inv.election j data early
    · exact late.2.election

end place

theorem crash {s : Network} (inv : Uncontested s) (i : Nat) : Uncontested (s.crash i) := by
  have before : ∀ j node, (s.crash i).nodes j = some node → s.nodes j = some node := by
    intro j node found
    by_cases same : j = i
    · rw [crash_nodes, same, Function.update_self] at found
      cases found
    · rwa [crash_nodes, Function.update_of_ne same] at found
  have early : ∀ message ∈ (s.crash i).flight, message ∈ s.flight := fun _ member => (List.mem_filter.mp member).1
  refine ⟨fun j node found => inv.self j node (before j node found), inv.single_of i ?_, ?_,
    fun j data member => inv.election j data (early _ member)⟩
  · rintro k ⟨node, here, reason⟩
    exact Or.inl ⟨node, before k node here, reason.imp_right fun later => later.imp_right fun last =>
      last.imp (early _) fun ⟨j, member⟩ => ⟨j, early _ member⟩⟩
  · intro j data member
    obtain ⟨under, elsewhere⟩ := List.mem_filter.mp member
    have different : j ≠ i := by simpa using elsewhere
    have running := inv.running j data under
    simpa [Network.crash, up, Function.update_of_ne different] using running

theorem created_leads {config : Config} {i : Nat} {votes : Int}
    (contends : (config.create i votes).currentState = .Leader ∨
      ((config.create i votes).HandleTimeout ∧ (config.create i votes).is_timeout)) : i = 0 := by
  rcases contends with leads | expired
  · by_contra other
    simp [Config.create, Node.create, other] at leads
  · simp [Config.create, Node.create] at expired

theorem restart {s : Network} (inv : Uncontested s) {i : Nat} (config : Config) (votes : Int)
    (down : s.up i = false) (forgotten : ∀ j, (j, RequestVote i) ∉ s.flight) (zero : i = 0 → Alone s i) :
    Uncontested { s with nodes := Function.update s.nodes i (some (config.create i votes)) } := by
  have elsewhere : ∀ j data, (j, data) ∈ s.flight → j ≠ i := by
    rintro j data member rfl
    rw [inv.running j data member] at down
    cases down
  refine ⟨?_, inv.single_of i ?_, ?_, inv.election⟩
  · intro j node found
    by_cases same : j = i
    · subst same
      simp only [Function.update_self, Option.some.injEq] at found
      rw [← found]
      rfl
    · simp only [Function.update_of_ne same] at found
      exact inv.self j node found
  · rintro k ⟨node, found, reason⟩
    by_cases same : k = i
    · subst same
      simp only [Function.update_self, Option.some.injEq] at found
      subst found
      rcases reason with leads | timed | vote | ⟨j, request⟩
      · exact Or.inr ⟨rfl, zero (created_leads (Or.inl leads))⟩
      · exact Or.inr ⟨rfl, zero (created_leads (Or.inr timed))⟩
      · exact absurd rfl (elsewhere k _ vote)
      · exact absurd request (forgotten j)
    · simp only [Function.update_of_ne same] at found
      exact Or.inl ⟨node, found, reason⟩
  · intro j data member
    simpa [up, Function.update_of_ne (elsewhere j data member)] using inv.running j data member

theorem deliver {s : Network} (inv : Uncontested s) {i : Nat} {data : Str} {node : Node}
    (reachable : Nat → Bool) (member : (i, data) ∈ s.flight) (here : s.nodes i = some node) :
    match HandleSockfd node (s.accepting reachable) data with
    | none => Uncontested ((s.take (i, data)).crash i)
    | some handled => Uncontested ((s.take (i, data)).place i handled.1 handled.2) := by
  have less : ∀ message ∈ s.flight.erase (i, data), message ∈ s.flight := fun _ => List.mem_of_mem_erase
  have rest : Uncontested (s.take (i, data)) := inv.fewer less
  have same : node.currentState = .Leader ∨ (node.HandleTimeout ∧ node.is_timeout) → Contends s i ∨ Alone s i :=
    fun reason => Or.inl ⟨node, here, reason.imp_right Or.inl⟩
  rcases inv.election i data member with rfl | rfl | ⟨k, rfl⟩
  · rw [HandleSockfd_heartBeat]
    exact inv.place less here rfl same (by simp)
  · rw [HandleSockfd_agreeVote]
    have contends : Contends s i := ⟨node, here, Or.inr (Or.inr (Or.inl member))⟩
    cases voted : handleRecvVote node with
    | none => exact rest.crash i
    | some after => exact inv.place less here (handleRecvVote_self voted) (fun _ => Or.inl contends) (by simp)
  · rw [HandleSockfd_requestVote]
    rcases stoi_decimal_cases k with read | thrown
    · rw [read, Option.bind_some, handleRequestVote]
      by_cases known : 0 ≤ (k : Int) ∧ (k : Int) < node.numNodes
      · rw [if_pos known]
        refine inv.place less here rfl same ?_
        intro j message sent
        by_cases accepts : s.accepting reachable (k : Int).toNat = true
        · rw [if_pos accepts, List.mem_singleton, Sent.toNode.injEq, Int.toNat_natCast] at sent
          obtain ⟨rfl, rfl⟩ := sent
          rw [Int.toNat_natCast, accepting, Bool.and_eq_true] at accepts
          obtain ⟨candidate, there⟩ := Option.isSome_iff_exists.mp accepts.2
          exact ⟨accepts.2, Or.inr (Or.inl ⟨rfl, candidate, there, Or.inr (Or.inr (Or.inr ⟨i, member⟩))⟩)⟩
        · rw [if_neg accepts] at sent
          cases sent
      · rw [if_neg known]
        exact rest.crash i
    · rw [thrown]
      exact rest.crash i

theorem step {config : Config} {s t : Network} {event : Event} (inv : Uncontested s)
    (orderly : Orderly s event) (taken : next config s event = some t) : Uncontested t := by
  have all : ∀ message ∈ s.flight, message ∈ s.flight := fun _ => id
  cases next_branch taken with
  | @stopped _ _ reachable _ inFlight here outcome =>
    have kept := inv.deliver reachable inFlight here
    rw [outcome] at kept
    exact kept
  | @handled _ _ reachable _ _ inFlight here outcome =>
    have kept := inv.deliver reachable inFlight here
    rw [outcome] at kept
    exact kept
  | lose => exact inv.fewer fun _ => List.mem_of_mem_erase
  | @heartbeat _ _ node here =>
    refine inv.place all here rfl (fun reason => Or.inl ⟨node, here, reason.imp_right Or.inl⟩) ?_
    intro j data sent
    obtain ⟨running, rfl⟩ := sent_to_others sent
    exact ⟨running, Or.inl rfl⟩
  | @timer i node here =>
    by_cases reset : node.electionTimeout = true
    · rw [electionRound, if_pos reset]
      exact inv.place all here rfl (fun reason => Or.inl ⟨node, here, reason.imp_right Or.inl⟩) (by simp)
    · rw [electionRound, if_neg reset]
      have alone := orderly node here (by simpa using reset)
      exact inv.place all here rfl (fun _ => Or.inr alone) (by simp)
  | @timeout i reachable node here woken =>
    have contends : Contends s i := ⟨node, here, Or.inr (Or.inl woken)⟩
    refine inv.place all here rfl (fun _ => Or.inl contends) ?_
    intro j data sent
    obtain ⟨running, rfl⟩ := sent_to_others sent
    have named : node.myNodeId = i := inv.self i node here
    exact ⟨running, Or.inr (Or.inr ⟨i, by rw [← named], contends⟩)⟩
  | crash => exact inv.crash _
  | @restart i votes _ down => exact inv.restart config votes down orderly.1 orderly.2

theorem start (config : Config) (votes : Nat → Int) : Uncontested (Network.start config votes) := by
  have created : ∀ i node, (Network.start config votes).nodes i = some node →
      node = config.create i (votes i) := by
    intro i node found
    by_cases member : i < config.numNodes
    · simp only [Network.start, if_pos member, Option.some.injEq] at found
      exact found.symm
    · simp only [Network.start, if_neg member] at found
      cases found
  have zero : ∀ i, Contends (Network.start config votes) i → i = 0 := by
    rintro i ⟨node, found, reason⟩
    rw [created i node found] at reason
    rcases reason with leads | timed | vote | ⟨j, request⟩
    · exact created_leads (Or.inl leads)
    · exact created_leads (Or.inr timed)
    · cases vote
    · cases request
  refine ⟨?_, fun i j first second => (zero i first).trans (zero j second).symm, ?_, ?_⟩
  · intro i node found
    rw [created i node found]
    rfl
  · intro i data member
    cases member
  · intro i data member
    cases member

end Uncontested

def OrderlyStep (config : Config) (s : Network) (event : Event) (t : Network) : Prop :=
  Orderly s event ∧ next config s event = some t

/-- From the start, in every run whose steps are all orderly, no two running nodes are
leader at any time. -/
theorem single_leader (config : Config) (votes : Nat → Int) (events : List Event) (s : Network)
    (run : Run (OrderlyStep config) (Network.start config votes) events s) :
    SingleLeader s := by
  have inv : Uncontested s :=
    run.invariant Uncontested (fun _ _ _ before step => before.step step.1 step.2)
      (Uncontested.start config votes)
  intro i j a b atI atJ leadsA leadsB
  exact inv.single i j ⟨a, atI, Or.inl leadsA⟩ ⟨b, atJ, Or.inl leadsB⟩

def trio : Config :=
  { numNodes := 3, Nodeip := fun _ => "127.0.0.1".toList, Nodeport := fun nodeid => 8001 + nodeid }

/-- Node 1 times out next to the living leader 0, asks node 2 and is given its vote. -/
theorem two_leaders :
    let events := [.timer 1, .timeout 1 fun _ => true, .deliver 2 (RequestVote 1) fun _ => true,
      .deliver 1 AgreeVote fun _ => true]
    ∃ s, Run (fun s e t => next trio s e = some t) (Network.start trio fun _ => 0) events s ∧
      ¬ SingleLeader s := by
  intro events
  have states : (execute (next trio) (Network.start trio fun _ => 0) events).map
      (fun s => ((s.nodes 0).map Node.currentState, (s.nodes 1).map Node.currentState)) =
        some (some .Leader, some .Leader) := by decide
  obtain ⟨s, result, both⟩ := Option.map_eq_some_iff.mp states
  rw [Prod.mk.injEq] at both
  obtain ⟨a, atZero, leadsA⟩ := Option.map_eq_some_iff.mp both.1
  obtain ⟨b, atOne, leadsB⟩ := Option.map_eq_some_iff.mp both.2
  refine ⟨s, run_of_execute result, ?_⟩
  intro single
  exact absurd (single 0 1 a b atZero atOne leadsA leadsB) (by decide)

/-- The leader crashes, and node 1 times out and reaches nobody. It stays a candidate for ever, and does not bar
node 2, which times out and leads with its vote. -/
def secondCandidate : List Event :=
  [.crash 0, .timer 1, .timeout 1 fun _ => false, .timer 2, .timeout 2 fun _ => true,
    .deliver 1 (RequestVote 2) fun _ => true, .deliver 2 AgreeVote fun _ => true]

theorem single_leader_second_candidate :
    ∃ s, Run (OrderlyStep trio) (Network.start trio fun _ => 0) secondCandidate s ∧
      (s.nodes 1).map Node.currentState = some .Candidate ∧ (s.nodes 2).map Node.currentState = some .Leader ∧
      SingleLeader s := by
  have nobody {s : Network} {i : Nat} (quiet : s.flight = [])
      (others : ∀ j node, j ≠ i → s.nodes j = some node →
        node.currentState ≠ .Leader ∧ ¬ (node.HandleTimeout ∧ node.is_timeout)) : Alone s i := by
    rintro j different ⟨node, found, reason⟩
    rw [quiet] at reason
    rcases reason with leads | timed | vote | ⟨_, request⟩
    · exact (others j node different found).1 leads
    · exact (others j node different found).2 timed
    · cases vote
    · cases request
  have outcome : ∃ s, Run (OrderlyStep trio) (Network.start trio fun _ => 0) secondCandidate s ∧
      (s.nodes 1).map Node.currentState = some .Candidate ∧ (s.nodes 2).map Node.currentState = some .Leader := by
    refine ⟨_, Run.head ⟨trivial, rfl⟩ <| Run.head ⟨fun _ _ _ => nobody rfl ?_, rfl⟩ <|
      Run.head ⟨trivial, rfl⟩ <| Run.head ⟨fun _ _ _ => nobody rfl ?_, rfl⟩ <| Run.head ⟨trivial, rfl⟩ <|
        Run.head ⟨trivial, rfl⟩ <| Run.single ⟨trivial, rfl⟩, rfl, rfl⟩
    · intro j node different found
      rcases j with _ | _ | _ | j
      · cases found
      · exact absurd rfl different
      · cases found
        decide
      · cases found
    · intro j node different found
      rcases j with _ | _ | _ | j
      · cases found
      · cases found
        decide
      · exact absurd rfl different
      · cases found
  obtain ⟨s, run, candidate, leads⟩ := outcome
  exact ⟨s, run, candidate, leads, single_leader trio _ _ _ run⟩

end CloudLab.Raft
