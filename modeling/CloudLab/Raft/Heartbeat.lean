import CloudLab.Raft.Lifetime

/-! How many votes a candidate survives. The thread of its heartbeats is started with every vote from
the threshold on, and a second start ends the process. -/

namespace CloudLab.Raft
open Text

def votesFor (i : Nat) : ClusterEvent → Bool
  | .election (.deliver j data _) => decide (j = i ∧ dispatch data = .handleRecvVote)
  | .client j request _ => decide (j = i ∧ dispatch request = .handleRecvVote)
  | _ => false

/-- Node `i` reads a vote with which `startHeartBeat` assigns to the joinable `heartbeatThread`. -/
def StartsTwice (i : Nat) (s : Network) (event : ClusterEvent) : Prop :=
  votesFor i event = true ∧ ∃ node, s.nodes i = some node ∧ handleRecvVote node = none

def Restarts (i : Nat) : ClusterEvent → Prop
  | .election (.restart j _) => j = i
  | _ => False

structure SameCount (node after : Node) : Prop where
  nodes : after.numNodes = node.numNodes
  timeout : after.HandleTimeout = node.HandleTimeout
  votes : after.candidateVotenum = node.candidateVotenum
  thread : after.heartbeatThread = node.heartbeatThread

theorem SameCount.refl (node : Node) : SameCount node node := ⟨rfl, rfl, rfl, rfl⟩

theorem SameCount.text {node : Node} {reachable : Nat → Bool} {data : Str} {handled : Node × List Sent}
    (result : HandleSockfd node reachable data = some handled) (other : dispatch data ≠ .handleRecvVote) :
    SameCount node handled.1 := by
  rcases HandleSockfd_other result other with ⟨kvdb, same⟩ | same
  · rw [same]
    exact ⟨rfl, rfl, rfl, rfl⟩
  · rw [same]
    exact ⟨rfl, rfl, rfl, rfl⟩

theorem SameCount.timer (node : Node) : SameCount node (electionRound node) := by
  unfold electionRound
  split <;> exact ⟨rfl, rfl, rfl, rfl⟩

inductive Own (i : Nat) (s : Network) (event : ClusterEvent) (t : Network) : Prop
  | vote (node : Node) : votesFor i event = true → s.nodes i = some node → t.nodes i = handleRecvVote node →
      Own i s event t
  | other : votesFor i event = false →
      (∀ after, t.nodes i = some after → ∃ node, s.nodes i = some node ∧ (node.HandleTimeout = true ∨ SameCount node after)) →
      Own i s event t

namespace Own

variable {config : Config} {s t : Network} {i j : Nat} {event : ClusterEvent}

theorem away (silent : votesFor i event = false) (same : t.nodes i = s.nodes i) : Own i s event t := by
  refine .other silent fun after found => ⟨after, ?_, Or.inr (.refl after)⟩
  rw [← same]
  exact found

theorem ended (silent : votesFor i event = false) (none : t.nodes i = none) : Own i s event t := by
  refine .other silent fun after found => ?_
  rw [none] at found
  cases found

theorem text {node : Node} (reachable : Nat → Bool) (data : Str) (here : s.nodes j = some node)
    (vote : votesFor i event = decide (j = i ∧ dispatch data = .handleRecvVote))
    (result : t.nodes = Function.update s.nodes j ((HandleSockfd node reachable data).map Prod.fst)) : Own i s event t := by
  by_cases mine : j = i
  · subst mine
    have now : t.nodes j = (HandleSockfd node reachable data).map Prod.fst := by rw [result, Function.update_self]
    by_cases agree : dispatch data = .handleRecvVote
    · refine .vote node (by rw [vote]; exact decide_eq_true ⟨rfl, agree⟩) here ?_
      rw [now, HandleSockfd_dispatch, agree, Handler.run, Option.map_map]
      exact Option.map_id'
    · refine .other (by rw [vote]; exact decide_eq_false fun both => agree both.2) fun after found => ⟨node, here, Or.inr ?_⟩
      rw [now] at found
      obtain ⟨handled, outcome, rfl⟩ := Option.map_eq_some_iff.mp found
      exact .text outcome agree
  · refine away (by rw [vote]; exact decide_eq_false fun both => mine both.1) ?_
    rw [result, Function.update_of_ne (Ne.symm mine)]

theorem place {node after : Node} (here : s.nodes j = some node) (silent : votesFor i event = false)
    (result : t.nodes = Function.update s.nodes j (some after)) (kept : node.HandleTimeout = true ∨ SameCount node after) :
    Own i s event t := by
  by_cases mine : j = i
  · subst mine
    refine .other silent fun other found => ⟨node, here, ?_⟩
    rw [result, Function.update_self] at found
    cases found
    exact kept
  · refine away silent ?_
    rw [result, Function.update_of_ne (Ne.symm mine)]

theorem step (taken : clusterNext config s event = some t) (goes : ¬ Restarts i event) : Own i s event t := by
  cases event with
  | client j request reachable =>
    obtain ⟨node, here, result⟩ := Option.bind_eq_some_iff.mp taken
    refine text (s.accepting reachable) request here rfl ?_
    cases outcome : HandleSockfd node (s.accepting reachable) request with
    | none =>
      rw [outcome] at result
      cases result
      rfl
    | some handled =>
      rw [outcome] at result
      cases result
      rfl
  | election event =>
    cases next_branch taken with
    | @stopped j data reachable node _ here outcome =>
      refine text (s.accepting reachable) data here rfl ?_
      rw [outcome]
      rfl
    | @handled j data reachable node handled _ here outcome =>
      refine text (s.accepting reachable) data here rfl ?_
      rw [outcome]
      rfl
    | lose => exact away rfl rfl
    | heartbeat here => exact place here rfl rfl (Or.inr (.refl _))
    | @timer _ node here => exact place here rfl rfl (Or.inr (.timer node))
    | timeout here woken => exact place here rfl rfl (Or.inl woken.1)
    | @crash j =>
      by_cases mine : j = i
      · subst mine
        exact ended rfl (Function.update_self _ _ _)
      · exact away rfl (Function.update_of_ne (Ne.symm mine) _ _)
    | @restart j =>
      have other : i ≠ j := fun same => goes same.symm
      exact away rfl (Function.update_of_ne other _ _)

end Own

/-- A candidate among `n` nodes after it has read `votes` votes, where `before` says whether its heartbeats
had been started before it became one. -/
structure Elected (n : Nat) (before : Bool) (votes : Nat) (node : Node) : Prop where
  nodes : node.numNodes = n
  woken : node.HandleTimeout = false
  counted : node.candidateVotenum = 1 + votes
  started : node.heartbeatThread = true ↔ before = true ∨ (1 ≤ votes ∧ n / 2 ≤ votes + 1)

/-- So many votes can be read without a second start. -/
def survived (n : Nat) (before : Bool) : Nat := max 1 (n / 2 - 1) - before.toNat

namespace Elected

variable {n votes : Nat} {before : Bool} {node after : Node}

theorem same (elected : Elected n before votes node) (same : SameCount node after) : Elected n before votes after := by
  obtain ⟨nodes, timeout, votes, thread⟩ := same
  refine ⟨nodes.trans elected.nodes, timeout.trans elected.woken, votes.trans elected.counted, ?_⟩
  rw [thread]
  exact elected.started

theorem vote (elected : Elected n before votes node) (counted : handleRecvVote node = some after) :
    Elected n before (votes + 1) after := by
  obtain ⟨rfl, woken, number, started⟩ := elected
  rw [handleRecvVote_eq] at counted
  split at counted
  · next short =>
    cases counted
    refine ⟨rfl, woken, by push_cast; omega, ?_⟩
    rw [started]
    constructor
    · rintro (earlier | ⟨_, reached⟩)
      · exact Or.inl earlier
      · omega
    · rintro (earlier | ⟨_, reached⟩)
      · exact Or.inl earlier
      · omega
  · next reached =>
    split at counted
    · cases counted
    · cases counted
      exact ⟨rfl, woken, by push_cast; omega, iff_of_true rfl (Or.inr (by omega))⟩

theorem vote_iff (elected : Elected n before votes node) :
    handleRecvVote node ≠ none ↔ votes + 1 ≤ survived n before := by
  obtain ⟨rfl, _, number, started⟩ := elected
  rw [handleRecvVote_eq]
  unfold survived
  split
  · next short =>
    refine iff_of_true (by simp) ?_
    cases before with
    | false => simp only [Bool.toNat_false]; omega
    | true => simp only [Bool.toNat_true]; omega
  · next reached =>
    split
    · next thread =>
      refine iff_of_false (by simp) ?_
      rcases started.mp thread with rfl | ⟨some, enough⟩
      · simp only [Bool.toNat_true]
        omega
      · omega
    · next thread =>
      refine iff_of_true (by simp) ?_
      cases before with
      | false =>
        have few : ¬ (1 ≤ votes ∧ node.numNodes / 2 ≤ votes + 1) := fun enough => thread (started.mpr (Or.inr enough))
        simp only [Bool.toNat_false]
        omega
      | true => exact absurd (started.mpr (Or.inl rfl)) thread

end Elected

/-- Node `i`, while it runs, became a candidate and has counted its votes since. -/
def Counts (i n : Nat) (before : Bool) (votes : Nat) (s : Network) : Prop :=
  ∀ node, s.nodes i = some node → Elected n before votes node

section votes

variable {config : Config} {i n votes : Nat} {before : Bool} {s t : Network} {event : ClusterEvent} {events : List ClusterEvent}

theorem Counts.step (counts : Counts i n before votes s) (taken : clusterNext config s event = some t)
    (goes : ¬ Restarts i event) : Counts i n before (votes + (votesFor i event).toNat) t := by
  intro after found
  cases Own.step taken goes with
  | vote node vote here result =>
    rw [vote]
    exact (counts node here).vote (result.symm.trans found)
  | other silent kept =>
    rw [silent]
    obtain ⟨node, here, waits | same⟩ := kept after found
    · rw [(counts node here).woken] at waits
      cases waits
    · exact (counts node here).same same

theorem Counts.timeout {node : Node} {reachable : Nat → Bool} (here : s.nodes i = some node)
    (taken : clusterNext config s (.election (.timeout i reachable)) = some t) :
    Counts i node.numNodes node.heartbeatThread 0 t := by
  intro after found
  have taken : next config s (.timeout i reachable) = some t := taken
  cases next_branch taken with
  | timeout here' _ =>
    rw [here] at here'
    cases here'
    rw [Network.place_nodes, Function.update_self] at found
    cases found
    exact ⟨rfl, rfl, rfl, by simp [handleElectionTimeout, becomeCandidate]⟩

theorem countP_snoc (i : Nat) (events : List ClusterEvent) (event : ClusterEvent) :
    (events ++ [event]).countP (votesFor i) = events.countP (votesFor i) + (votesFor i event).toNat := by
  rw [List.countP_append, List.countP_singleton]
  cases votesFor i event <;> rfl

theorem Counts.run (run : Run (fun s e t => clusterNext config s e = some t) s events t)
    (goes : ∀ event ∈ events, ¬ Restarts i event) (start : Counts i n before 0 s) :
    Counts i n before (events.countP (votesFor i)) t := by
  induction run with
  | refl => exact start
  | tail _ last ih =>
    obtain ⟨earlier, now⟩ := List.forall_mem_append.mp goes
    rw [countP_snoc]
    exact (ih earlier).step last (now _ (List.mem_singleton_self _))

theorem Counts.startsTwice_iff (counts : Counts i n before votes s) (few : votes ≤ survived n before)
    (taken : clusterNext config s event = some t) (goes : ¬ Restarts i event) :
    ¬ StartsTwice i s event ↔ votes + (votesFor i event).toNat ≤ survived n before := by
  unfold StartsTwice
  cases Own.step taken goes with
  | vote node vote here _ =>
    rw [vote, Bool.toNat_true, ← (counts node here).vote_iff]
    simp [here]
  | other silent => simp [silent, few]

end votes

/-- A node that becomes candidate starts its heartbeats at most once, in whatever run of the cluster it
goes on in, exactly when it reads no more than `max 1 (n / 2 - 1)` votes, one less if its heartbeats had
been started before. -/
theorem heartbeat_started_once_iff {config : Config} {i : Nat} {node : Node} {reachable : Nat → Bool}
    {s candidate t : Network} {events : List ClusterEvent} (here : s.nodes i = some node)
    (timeout : clusterNext config s (.election (.timeout i reachable)) = some candidate)
    (run : Run (fun s e t => clusterNext config s e = some t) candidate events t)
    (goes : ∀ event ∈ events, ¬ Restarts i event) :
    Run (fun s e t => clusterNext config s e = some t ∧ ¬ StartsTwice i s e) candidate events t ↔
      events.countP (votesFor i) + node.heartbeatThread.toNat ≤ max 1 (node.numNodes / 2 - 1) := by
  have start := Counts.timeout here timeout
  have bound (k : Nat) : k + node.heartbeatThread.toNat ≤ max 1 (node.numNodes / 2 - 1) ↔
      k ≤ survived node.numNodes node.heartbeatThread := by
    have one := Bool.toNat_le node.heartbeatThread
    unfold survived
    omega
  rw [bound]
  constructor
  · intro safe
    clear run
    induction safe with
    | refl => exact Nat.zero_le _
    | tail earlier last ih =>
      obtain ⟨before, now⟩ := List.forall_mem_append.mp goes
      have counts := start.run (earlier.mono fun _ _ _ step => step.1) before
      rw [countP_snoc]
      exact (counts.startsTwice_iff (ih before) last.1 (now _ (List.mem_singleton_self _))).mp last.2
  · intro few
    induction run with
    | refl => exact Run.refl _
    | tail earlier last ih =>
      obtain ⟨before, now⟩ := List.forall_mem_append.mp goes
      rw [countP_snoc] at few
      have counts := start.run earlier before
      have safe := (counts.startsTwice_iff (by omega) last (now _ (List.mem_singleton_self _))).mpr few
      exact (ih before (by omega)).tail ⟨last, safe⟩

def asksTwo : List ClusterEvent :=
  [.election (.timer 1), .election (.timeout 1 fun _ => true), .election (.deliver 0 (RequestVote 1) fun _ => true),
    .election (.deliver 2 (RequestVote 1) fun _ => true)]

def granted : ClusterEvent := .election (.deliver 1 AgreeVote fun _ => true)

/-- Node 1 has asked both others: with the first vote it leads, and the second one ends its process. -/
theorem second_vote_ends_leader :
    ∃ s t, Run (fun s e t => clusterNext trio s e = some t) (Network.start trio fun _ => 0) (asksTwo ++ [granted]) s ∧
      (∃ node, s.nodes 1 = some node ∧ node.currentState = .Leader) ∧ clusterNext trio s granted = some t ∧
      StartsTwice 1 s granted ∧ t.nodes 1 = none := by
  have result : (execute (clusterNext trio) (Network.start trio fun _ => 0) (asksTwo ++ [granted])).any (fun s =>
      (s.nodes 1).any (fun node => decide (node.currentState = .Leader) && (handleRecvVote node).isNone) &&
        (clusterNext trio s granted).any fun t => (t.nodes 1).isNone) = true := by decide +kernel
  obtain ⟨s, reached, facts⟩ := (Option.any_eq_true _ _).mp result
  rw [Bool.and_eq_true] at facts
  obtain ⟨node, here, ends⟩ := (Option.any_eq_true _ _).mp facts.1
  obtain ⟨t, step, gone⟩ := (Option.any_eq_true _ _).mp facts.2
  rw [Bool.and_eq_true, decide_eq_true_eq, Option.isNone_iff_eq_none] at ends
  exact ⟨s, t, run_of_execute reached, ⟨node, here, ends.1⟩, step, ⟨by decide, node, here, ends.2⟩,
    Option.isNone_iff_eq_none.mp gone⟩

theorem heartbeat_started_once_iff_one :
    let waiting := (Network.start trio fun _ => 0).place 1 (electionRound (trio.create 1 0)) []
    let events := [.election (.deliver 0 (RequestVote 1) fun _ => true), granted]
    ∃ candidate t, clusterNext trio waiting (.election (.timeout 1 fun _ => true)) = some candidate ∧
      Run (fun s e t => clusterNext trio s e = some t ∧ ¬ StartsTwice 1 s e) candidate events t ∧
      ∃ node, t.nodes 1 = some node ∧ node.currentState = .Leader := by
  intro waiting events
  have result : ((clusterNext trio waiting (.election (.timeout 1 fun _ => true))).bind fun candidate =>
      execute (clusterNext trio) candidate events).any (fun t =>
        (t.nodes 1).any fun node => decide (node.currentState = .Leader)) = true := by decide +kernel
  obtain ⟨t, found, leads⟩ := (Option.any_eq_true _ _).mp result
  obtain ⟨candidate, timeout, executed⟩ := Option.bind_eq_some_iff.mp found
  obtain ⟨node, here, leader⟩ := (Option.any_eq_true _ _).mp leads
  have goes : ∀ event ∈ events, ¬ Restarts 1 event := by simp [events, granted, Restarts]
  have present : waiting.nodes 1 = some (electionRound (trio.create 1 0)) := rfl
  have once := heartbeat_started_once_iff present timeout (run_of_execute executed) goes
  exact ⟨candidate, t, timeout, once.mpr (by decide), node, here, of_decide_eq_true leader⟩

end CloudLab.Raft
