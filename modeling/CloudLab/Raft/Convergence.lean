import CloudLab.Raft.Lifetime

/-! Two nodes that are sent the same commits: whether their stores come to be the same. -/

namespace CloudLab.Raft
open Text

def commitsFor (i : Nat) (messages : List (Nat × Str)) : List Str :=
  (messages.filter fun message => message.1 = i ∧ dispatch message.2 = .handleCommitRequest).map Prod.snd

/-- The store of a node once it has read the commits that are under way to it. -/
def Network.settled (s : Network) (i : Nat) (node : Node) : Kvdb :=
  (commitsFor i s.flight).foldl handleCommitRequest node.kvdb

def handledText : ClusterEvent → Option (Nat × Str × (Nat → Bool))
  | .client i request reachable => some (i, request, reachable)
  | .election (.deliver i data reachable) => some (i, data, reachable)
  | .election _ => none

def news (s : Network) (event : ClusterEvent) (i : Nat) : List Str :=
  match handledText event with
  | none => []
  | some (k, data, reachable) =>
      match (s.nodes k).bind fun node => HandleSockfd node (s.accepting reachable) data with
      | none => []
      | some handled => commitsFor i (handled.2.filterMap Network.posted)

/-- Node `i` is not restarted, loses no commit, and reads the commits in the order in which they were sent; a client
does not send it one. -/
def InOrder (i : Nat) (s : Network) : ClusterEvent → Prop
  | .client k request _ => k = i → dispatch request ≠ .handleCommitRequest
  | .election (.deliver k data _) => k = i → dispatch data = .handleCommitRequest →
      (commitsFor i s.flight).head? = some data
  | .election (.lose k data) => k = i → dispatch data ≠ .handleCommitRequest
  | .election (.restart k _) => k ≠ i
  | .election _ => True

def Follows (s : Network) (i : Nat) : Prop := ∀ node ∈ s.nodes i, node.currentState ≠ .Leader

/-- A step in which neither of two nodes leads, and whoever sends commits reaches both or none of them. -/
structure Alike (i j : Nat) (s : Network) (event : ClusterEvent) : Prop where
  first : InOrder i s event
  second : InOrder j s event
  follows : Follows s i ∧ Follows s j
  reached : ∀ text ∈ handledText event, text.2.2 i = text.2.2 j

instance (i : Nat) (s : Network) : (event : ClusterEvent) → Decidable (InOrder i s event)
  | .client _ _ _ => inferInstanceAs (Decidable (_ → _))
  | .election (.deliver _ _ _) => inferInstanceAs (Decidable (_ → _))
  | .election (.lose _ _) => inferInstanceAs (Decidable (_ → _))
  | .election (.restart _ _) => inferInstanceAs (Decidable (_ ≠ _))
  | .election (.heartbeat _ _) => inferInstanceAs (Decidable True)
  | .election (.timer _) => inferInstanceAs (Decidable True)
  | .election (.timeout _ _) => inferInstanceAs (Decidable True)
  | .election (.crash _) => inferInstanceAs (Decidable True)

instance (s : Network) (i : Nat) : Decidable (Follows s i) := inferInstanceAs (Decidable (∀ node ∈ s.nodes i, _))

instance (i j : Nat) (s : Network) (event : ClusterEvent) : Decidable (Alike i j s event) :=
  decidable_of_iff (InOrder i s event ∧ InOrder j s event ∧ (Follows s i ∧ Follows s j) ∧
      ∀ text ∈ handledText event, text.2.2 i = text.2.2 j)
    ⟨fun all => ⟨all.1, all.2.1, all.2.2.1, all.2.2.2⟩, fun alike => ⟨alike.1, alike.2, alike.3, alike.4⟩⟩

section texts
variable {i j : Nat} {messages : List (Nat × Str)} {data : Str} {rest : List Str} {node after : Node}
  {reachable : Nat → Bool} {sent : List Sent}

@[simp] theorem commitsFor_append (i : Nat) (left right : List (Nat × Str)) :
    commitsFor i (left ++ right) = commitsFor i left ++ commitsFor i right := by
  simp only [commitsFor, List.filter_append, List.map_append]

theorem commitsFor_erase {k : Nat} (other : k = i → dispatch data ≠ .handleCommitRequest) :
    commitsFor i (messages.erase (k, data)) = commitsFor i messages := by
  unfold commitsFor
  rw [← List.erase_filter, List.erase_of_not_mem]
  intro member
  obtain ⟨same, commit⟩ := of_decide_eq_true (List.mem_filter.mp member).2
  exact other same commit

theorem commitsFor_erase_first (queue : commitsFor i messages = data :: rest) :
    commitsFor i (messages.erase (i, data)) = rest := by
  unfold commitsFor at queue ⊢
  obtain ⟨message, others, split, same, later⟩ := List.map_eq_cons_iff.mp queue
  have member : message ∈ messages.filter fun message => message.1 = i ∧ dispatch message.2 = .handleCommitRequest := by
    rw [split]
    exact List.mem_cons_self
  have mine := (of_decide_eq_true (List.mem_filter.mp member).2).1
  have whole : message = (i, data) := Prod.ext mine same
  rw [← List.erase_filter, split, whole, List.erase_cons_head, later]

theorem commitsFor_crash {k : Nat} (other : i ≠ k) :
    commitsFor i (messages.filter fun message => message.1 ≠ k) = commitsFor i messages := by
  unfold commitsFor
  rw [List.filter_filter]
  congr 1
  apply List.filter_congr
  intro message _
  by_cases mine : message.1 = i
  · simp [mine, other]
  · simp [mine]

theorem commitsFor_sendToOthers (message : Str) : commitsFor i ((sendToOthers node reachable message).filterMap Network.posted) =
    if (i < node.numNodes ∧ i ≠ node.myNodeId ∧ reachable i = true) ∧ dispatch message = .handleCommitRequest
    then [message] else [] := by
  let others := (List.range node.numNodes).filter fun nodeid => nodeid ≠ node.myNodeId && reachable nodeid
  have addressed : (sendToOthers node reachable message).filterMap Network.posted = others.map fun k => (k, message) := by
    rw [sendToOthers, List.filterMap_map]
    exact congrFun (List.filterMap_eq_map (f := fun k => (k, message))) others
  have known : i ∈ others ↔ i < node.numNodes ∧ i ≠ node.myNodeId ∧ reachable i = true := by
    simp only [others, List.mem_filter, List.mem_range, Bool.and_eq_true, decide_eq_true_eq]
  have once : others.count i = if i ∈ others then 1 else 0 := List.Nodup.count (List.nodup_range.filter _)
  simp only [addressed, commitsFor, List.filter_map, List.map_map, ← known]
  by_cases commit : dispatch message = .handleCommitRequest
  · have mine : others.filter ((fun message => decide (message.1 = i ∧ dispatch message.2 = .handleCommitRequest)) ∘
        fun k => (k, message)) = others.filter (· == i) := by
      apply List.filter_congr
      intro k _
      simp only [Function.comp_apply, commit, and_true]
      rfl
    rw [mine, List.filter_beq, once]
    by_cases member : i ∈ others
    · simp [member, commit]
    · simp [member]
  · simp [commit]

theorem HandleSockfd_commits (handled : HandleSockfd node reachable data = some (after, sent)) :
    (∀ i, commitsFor i (sent.filterMap Network.posted) = []) ∨ node.currentState = .Leader ∧ ∃ message, ∀ i,
      commitsFor i (sent.filterMap Network.posted) =
        commitsFor i ((sendToOthers node reachable message).filterMap Network.posted) := by
  have quiet : ∀ message, (rejection message).filterMap Network.posted = [] := by
    intro message
    rw [rejection]
    split <;> rfl
  rw [HandleSockfd_dispatch] at handled
  cases choice : dispatch data with
  | handleClientRequest =>
    rw [choice] at handled
    cases handleClientRequest_cases handled with
    | redirected => exact Or.inl fun _ => rfl
    | read =>
      left
      intro i
      rw [List.filterMap_append, quiet]
      rfl
    | executed forwarded committed leads sends _ =>
      obtain ⟨message, _, same⟩ := Option.bind_eq_some_iff.mp sends
      cases same
      refine Or.inr ⟨leads, message, fun i => ?_⟩
      rw [List.filterMap_append, List.filterMap_append, quiet, List.nil_append, commitsFor_append]
      exact List.append_nil _
  | handleCommitRequest =>
    rw [choice] at handled
    cases handled
    exact Or.inl fun _ => rfl
  | handleHeartBeat =>
    rw [choice] at handled
    cases handled
    exact Or.inl fun _ => rfl
  | handleRequestVote nodeid =>
    rw [choice] at handled
    obtain ⟨id, _, granted⟩ := Option.bind_eq_some_iff.mp handled
    unfold handleRequestVote at granted
    split at granted
    · cases granted
      left
      intro i
      have vote : dispatch AgreeVote ≠ .handleCommitRequest := by decide
      split
      · simp [commitsFor, Network.posted, vote]
      · rfl
    · cases granted
  | handleRecvVote =>
    rw [choice] at handled
    obtain ⟨counted, _, same⟩ := Option.map_eq_some_iff.mp handled
    cases same
    exact Or.inl fun _ => rfl
  | ignored =>
    rw [choice] at handled
    cases handled
    exact Or.inl fun _ => rfl

theorem HandleSockfd_kvdb (follows : node.currentState ≠ .Leader)
    (handled : HandleSockfd node reachable data = some (after, sent)) :
    after.kvdb = if dispatch data = .handleCommitRequest then handleCommitRequest node.kvdb data else node.kvdb := by
  rw [HandleSockfd_dispatch] at handled
  cases choice : dispatch data with
  | handleClientRequest =>
    rw [choice] at handled
    cases handleClientRequest_cases handled with
    | redirected => rfl
    | read => rfl
    | executed _ _ leads => exact absurd leads follows
  | handleCommitRequest =>
    rw [choice] at handled
    cases handled
    rfl
  | handleHeartBeat =>
    rw [choice] at handled
    cases handled
    rfl
  | handleRequestVote nodeid =>
    rw [choice] at handled
    obtain ⟨id, _, granted⟩ := Option.bind_eq_some_iff.mp handled
    rw [show after = restartElection node from handleRequestVote_same granted]
    rfl
  | handleRecvVote =>
    rw [choice] at handled
    obtain ⟨counted, voted, same⟩ := Option.map_eq_some_iff.mp handled
    cases same
    rcases handleRecvVote_same voted with kept | leads
    · rw [kept]
      rfl
    · rw [leads]
      rfl
  | ignored =>
    rw [choice] at handled
    cases handled
    rfl

end texts

theorem Reached.count {config : Config} {i : Nat} {node : Node} (reached : Reached config i node) :
    node.numNodes = config.numNodes := by
  induction reached with
  | create => rfl
  | handle _ result ih =>
    rcases HandleSockfd_cases result with ⟨kvdb, same⟩ | same | same | same
    all_goals
      rw [same]
      exact ih
  | timer _ ih =>
    unfold electionRound
    split <;> exact ih
  | timeout _ _ ih => exact ih

section step
variable {config : Config} {s t : Network} {i j : Nat} {node after : Node} {event : ClusterEvent}

/-- What a step leaves of node `i`: all that was under way to it, and what the step sends, is in store or still
under way. -/
def Kept (s : Network) (event : ClusterEvent) (t : Network) (i : Nat) : Prop :=
  ∀ after, t.nodes i = some after → ∃ node, s.nodes i = some node ∧
    t.settled i after = (news s event i).foldl handleCommitRequest (s.settled i node)

theorem Kept.away (same : t.nodes i = s.nodes i) (quiet : news s event i = [])
    (flight : commitsFor i t.flight = commitsFor i s.flight) : Kept s event t i := by
  intro after here
  rw [same] at here
  refine ⟨after, here, ?_⟩
  rw [quiet, Network.settled, Network.settled, flight]
  rfl

theorem Kept.text {k : Nat} {data : Str} {reachable : Nat → Bool} {handled : Node × List Sent} {flight : List (Nat × Str)}
    (text : handledText event = some (k, data, reachable)) (here : s.nodes k = some node)
    (outcome : HandleSockfd node (s.accepting reachable) data = some handled)
    (follows : k = i → node.currentState ≠ .Leader)
    (queue : commitsFor i s.flight = (if k = i ∧ dispatch data = .handleCommitRequest then [data] else []) ++
      commitsFor i flight) :
    Kept s event (Network.place { s with flight := flight } k handled.1 handled.2) i := by
  have sent : news s event i = commitsFor i (handled.2.filterMap Network.posted) := by
    rw [news, text]
    dsimp only
    rw [here, Option.bind_some, outcome]
  intro after found
  rw [Network.place_nodes] at found
  by_cases mine : k = i
  · subst mine
    rw [Function.update_self, Option.some.injEq] at found
    subst found
    have none : commitsFor k (handled.2.filterMap Network.posted) = [] :=
      (HandleSockfd_commits outcome).elim (fun quiet => quiet k) fun leads => absurd leads.1 (follows rfl)
    refine ⟨node, here, ?_⟩
    rw [sent, none, Network.settled, Network.settled, queue, HandleSockfd_kvdb (follows rfl) outcome]
    change (commitsFor k (flight ++ handled.2.filterMap Network.posted)).foldl _ _ = _
    rw [commitsFor_append, none, List.append_nil]
    by_cases commit : dispatch data = .handleCommitRequest
    · simp [commit]
    · simp [commit]
  · rw [Function.update_of_ne (Ne.symm mine)] at found
    refine ⟨after, found, ?_⟩
    rw [sent, Network.settled, Network.settled, queue]
    change (commitsFor i (flight ++ handled.2.filterMap Network.posted)).foldl _ _ = _
    rw [commitsFor_append, List.foldl_append]
    simp [mine]

theorem Kept.crash {k : Nat} (quiet : news s event i = []) (nodes : t.nodes = Function.update s.nodes k none)
    (flight : i ≠ k → commitsFor i t.flight = commitsFor i s.flight) : Kept s event t i := by
  by_cases mine : i = k
  · intro after found
    rw [nodes, mine, Function.update_self] at found
    cases found
  · exact Kept.away (by rw [nodes, Function.update_of_ne mine]) quiet (flight mine)

theorem Kept.thread {k : Nat} {sent : List Sent} (quiet : news s event i = []) (here : s.nodes k = some node)
    (store : after.kvdb = node.kvdb) (none : commitsFor i (sent.filterMap Network.posted) = []) :
    Kept s event (s.place k after sent) i := by
  have flight : commitsFor i (s.place k after sent).flight = commitsFor i s.flight := by
    change commitsFor i (s.flight ++ sent.filterMap Network.posted) = _
    rw [commitsFor_append, none, List.append_nil]
  by_cases mine : i = k
  · intro other found
    rw [Network.place_nodes, mine, Function.update_self, Option.some.injEq] at found
    refine ⟨node, mine ▸ here, ?_⟩
    rw [quiet, Network.settled, Network.settled, flight, ← found, store]
    rfl
  · exact Kept.away (by rw [Network.place_nodes, Function.update_of_ne mine]) quiet flight

theorem not_commit {message : Str} (other : dispatch message ≠ .handleCommitRequest) (reachable : Nat → Bool) :
    commitsFor i ((sendToOthers node reachable message).filterMap Network.posted) = [] := by
  rw [commitsFor_sendToOthers, if_neg fun both => other both.2]

theorem dispatch_requestVote (k : Nat) : dispatch (RequestVote k) ≠ .handleCommitRequest := by
  obtain ⟨client, commit, beat, request⟩ := requestVote_marks k
  rw [dispatch, if_neg client, commit, beat, request]
  exact Handler.noConfusion

theorem Kept.next {event : Event} (taken : next config s event = some t) (ordered : InOrder i s (.election event))
    (follows : Follows s i) : Kept s (.election event) t i := by
  cases next_branch taken with
  | @stopped k data reachable node inFlight here outcome =>
    have quiet : news s (.election (.deliver k data reachable)) i = [] := by
      rw [news, handledText]
      dsimp only
      rw [here, Option.bind_some, outcome]
    refine Kept.crash quiet rfl fun other => ?_
    change commitsFor i ((s.flight.erase (k, data)).filter fun message => message.1 ≠ k) = _
    rw [commitsFor_crash other, commitsFor_erase fun same => absurd same.symm other]
  | @handled k data reachable node handled inFlight here outcome =>
    refine Kept.text rfl here outcome (fun same => follows node (same ▸ here)) ?_
    by_cases mine : k = i ∧ dispatch data = .handleCommitRequest
    · obtain ⟨rfl, commit⟩ := mine
      obtain ⟨rest, queue⟩ := List.head?_eq_some_iff.mp (ordered rfl commit)
      rw [if_pos ⟨rfl, commit⟩, commitsFor_erase_first queue, queue]
      rfl
    · rw [if_neg mine, commitsFor_erase fun same commit => mine ⟨same, commit⟩]
      rfl
  | lose => exact Kept.away rfl rfl (commitsFor_erase ordered)
  | heartbeat here => exact Kept.thread rfl here rfl (not_commit (by decide) _)
  | @timer k node here =>
    have store : (electionRound node).kvdb = node.kvdb := by
      rw [electionRound]
      split <;> rfl
    exact Kept.thread rfl here store rfl
  | timeout here => exact Kept.thread rfl here rfl (not_commit (dispatch_requestVote _) _)
  | crash => exact Kept.crash rfl rfl fun other => commitsFor_crash other
  | restart => exact Kept.away (Function.update_of_ne (Ne.symm ordered) _ _) rfl rfl

theorem Kept.step (taken : clusterNext config s event = some t) (ordered : InOrder i s event)
    (follows : Follows s i) : Kept s event t i := by
  cases event with
  | election event => exact Kept.next taken ordered follows
  | client k request reachable =>
    obtain ⟨node, here, result⟩ := Option.bind_eq_some_iff.mp taken
    cases outcome : HandleSockfd node (s.accepting reachable) request with
    | none =>
      rw [outcome] at result
      cases result
      have quiet : news s (.client k request reachable) i = [] := by
        rw [news, handledText]
        dsimp only
        rw [here, Option.bind_some, outcome]
      exact Kept.crash quiet rfl fun other => commitsFor_crash other
    | some handled =>
      rw [outcome] at result
      cases result
      refine Kept.text rfl here outcome (fun same => follows node (same ▸ here)) ?_
      rw [if_neg fun both => ordered both.1 both.2]
      rfl

theorem news_alike (lively : Lively config s) (bounds : i < config.numNodes ∧ j < config.numNodes)
    (up : s.up i = true ∧ s.up j = true) (alike : Alike i j s event) : news s event i = news s event j := by
  unfold news
  cases text : handledText event with
  | none => rfl
  | some handling =>
    obtain ⟨k, data, reachable⟩ := handling
    dsimp only
    cases result : (s.nodes k).bind fun node => HandleSockfd node (s.accepting reachable) data with
    | none => rfl
    | some handled =>
      obtain ⟨node, here, outcome⟩ := Option.bind_eq_some_iff.mp result
      dsimp only
      rcases HandleSockfd_commits outcome with quiet | ⟨leads, message, sends⟩
      · rw [quiet i, quiet j]
      · have reached := lively k node here
        have count := reached.count
        have self := reached.fixed.1
        have others : i ≠ k ∧ j ≠ k := by
          constructor
          · exact fun same => alike.follows.1 node (same ▸ here) leads
          · exact fun same => alike.follows.2 node (same ▸ here) leads
        have first : (i < node.numNodes ∧ i ≠ node.myNodeId ∧ s.accepting reachable i = true) ↔ reachable i = true := by
          simp [count, self, bounds.1, others.1, Network.accepting, up.1]
        have second : (j < node.numNodes ∧ j ≠ node.myNodeId ∧ s.accepting reachable j = true) ↔ reachable j = true := by
          simp [count, self, bounds.2, others.2, Network.accepting, up.2]
        rw [sends i, sends j, commitsFor_sendToOthers, commitsFor_sendToOthers]
        have same : reachable i = reachable j := alike.reached _ text
        simp only [first, second, same]

end step

def Together (i j : Nat) (s : Network) : Prop :=
  ∀ a b, s.nodes i = some a → s.nodes j = some b → s.settled i a = s.settled j b

theorem Together.step {config : Config} {s t : Network} {i j : Nat} {event : ClusterEvent} (together : Together i j s)
    (lively : Lively config s) (bounds : i < config.numNodes ∧ j < config.numNodes)
    (taken : clusterNext config s event = some t) (alike : Alike i j s event) : Together i j t := by
  intro a b atI atJ
  obtain ⟨a', beforeI, left⟩ := Kept.step taken alike.first alike.follows.1 a atI
  obtain ⟨b', beforeJ, right⟩ := Kept.step taken alike.second alike.follows.2 b atJ
  have up : s.up i = true ∧ s.up j = true := by
    rw [Network.up, Network.up, beforeI, beforeJ]
    exact ⟨rfl, rfl⟩
  rw [left, right, together a' b' beforeI beforeJ, news_alike lively bounds up alike]

/-- Two nodes that do not lead, in a run in which each commit reaches both of them or none, and each of them reads its
commits in the order in which they were sent: their stores differ by nothing but commits under way, and are the same
when none is. -/
theorem followers_converge (config : Config) (votes : Nat → Int) (i j : Nat)
    (bounds : i < config.numNodes ∧ j < config.numNodes) (events : List ClusterEvent) (t : Network)
    (run : Run (fun s event t => clusterNext config s event = some t ∧ Alike i j s event) (Network.start config votes) events t)
    (a b : Node) (atI : t.nodes i = some a) (atJ : t.nodes j = some b) :
    t.settled i a = t.settled j b ∧ (commitsFor i t.flight = [] → commitsFor j t.flight = [] → a.kvdb = b.kvdb) := by
  have start : Lively config (Network.start config votes) ∧ Together i j (Network.start config votes) := by
    refine ⟨Lively.start config votes, fun a b atI atJ => ?_⟩
    have first : (Network.start config votes).nodes i = some (config.create i (votes i)) := if_pos bounds.1
    have second : (Network.start config votes).nodes j = some (config.create j (votes j)) := if_pos bounds.2
    rw [first] at atI
    rw [second] at atJ
    cases atI
    cases atJ
    rfl
  have reached : Lively config t ∧ Together i j t := by
    refine run.invariant (fun s => Lively config s ∧ Together i j s) (fun s event t before step => ?_) start
    exact ⟨before.1.clusterNext step.1, before.2.step before.1 bounds step.1 step.2⟩
  have same := reached.2 a b atI atJ
  refine ⟨same, fun first second => ?_⟩
  rw [Network.settled, Network.settled, first, second] at same
  exact same

theorem followers_converge_set :
    let set := "*4\r\n$3\r\nSET\r\n$1\r\nk\r\n$1\r\na\r\n$1\r\nb\r\n".toList
    let commit := "COMMIT SET a b ".toList
    let events := [.client 0 set fun _ => true, .election (.deliver 2 commit fun _ => true),
      .election (.deliver 1 commit fun _ => true)]
    ∃ t a b, Run (fun s event t => clusterNext trio s event = some t ∧ Alike 1 2 s event) (Network.start trio fun _ => 0)
      events t ∧ t.nodes 1 = some a ∧ t.nodes 2 = some b ∧ a.kvdb = b.kvdb ∧ a.kvdb "a".toList = some "b ".toList := by
  intro set commit events
  have result : (execute (fun s event => if Alike 1 2 s event then clusterNext trio s event else none)
      (Network.start trio fun _ => 0) events).any (fun t => (commitsFor 1 t.flight).isEmpty && (commitsFor 2 t.flight).isEmpty &&
        (t.nodes 1).any (fun a => decide (a.kvdb "a".toList = some "b ".toList)) && (t.nodes 2).isSome) = true := by
    decide +kernel
  obtain ⟨t, reached, facts⟩ := (Option.any_eq_true _ _).mp result
  simp only [Bool.and_eq_true, List.isEmpty_iff] at facts
  obtain ⟨a, atOne, stored⟩ := (Option.any_eq_true _ _).mp facts.1.2
  obtain ⟨b, atTwo⟩ := Option.isSome_iff_exists.mp facts.2
  have run := run_of_checked reached
  have same := followers_converge trio (fun _ => 0) 1 2 (by decide) events t run a b atOne atTwo
  exact ⟨t, a, b, run, atOne, atTwo, same.2 facts.1.1.1 facts.1.1.2, of_decide_eq_true stored⟩

end CloudLab.Raft
