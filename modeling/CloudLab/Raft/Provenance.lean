import CloudLab.Raft.Electable
import CloudLab.Raft.Lifetime
import CloudLab.Raft.Replication
import CloudLab.TwoPC.Framing

/-! Where the entries of the stores come from, whatever the nodes, the network and the clients do, and however
much of a text a node reads before it acts on it. -/

namespace CloudLab.Raft
open Text TwoPC

def MAX_BUF_SIZE : Nat := 1024

/-- The loop is the one of the other program, with a larger buffer. -/
def getMessage (data : Str) (recvs : List Recv) : Option (Int × Str × List Recv) := recvLoop MAX_BUF_SIZE data recvs

def received (recvs : List Recv) : Str :=
  recvs.flatMap fun
    | .bytes buf => buf
    | .closed => []
    | .error => []

def Network.cut (s : Network) (i : Nat) (data read : Str) : Network :=
  { s with flight := (i, read) :: s.flight.erase (i, data) }

/-- A step in which a text comes in pieces: whatever `getMessage` returns, what it has read is handled. -/
def readNext (config : Config) (s : Network) : ClusterEvent × List Recv → Option Network
  | (.election (.deliver i data reachable), recvs) => do
      let read ← getMessage [] recvs
      if s.flight.contains (i, data) && (received recvs).isPrefixOf data then
        next config (s.cut i data read.2.1) (.deliver i read.2.1 reachable)
      else none
  | (.election event, _) => next config s event
  | (.client i request reachable, recvs) => do
      let read ← getMessage [] recvs
      if (received recvs).isPrefixOf request then clusterNext config s (.client i read.2.1 reachable) else none

def clientText : ClusterEvent → Option Str
  | .election _ => none
  | .client _ request _ => some request

/-- What a node can take for a commit: the beginning of a client's text, or of the commit that a leader has made
of the beginning of one. -/
inductive Commits (requests : List Str) : Str → Prop
  | client {request read : Str} : request ∈ requests → read <+: request → '$' ∉ read → Commits requests read
  | leader {request read data rest : Str} : request ∈ requests → read <+: request →
      commitInfo (payload read) = some data → rest <+: data → Commits requests rest

/-- An entry that one text has in it: as a SET that a leader executes, or a commit that another node does. -/
inductive Written (requests : List Str) : Str → Str → Prop
  | executed {request read key : Str} {rest : List Str} : request ∈ requests → read <+: request →
      payload read = SET :: key :: rest → Written requests key (spaced rest)
  | committed {data : Str} : Commits requests data → SET ∈ (words data).take 2 →
      Written requests (((words data).drop 2).headD []) (spaced ((words data).drop 3))

/-- What nodes send in the place of a client. A leader that takes a commit for a request, because of a dollar
sign in it, makes another commit of it. -/
inductive Passed (requests : List Str) : Str → Prop
  | commit {request read data rest : Str} : request ∈ requests → read <+: request →
      commitInfo (payload read) = some data → rest <+: data → Passed requests rest
  | again {data rest : Str} : data <+: "COMMIT COMMIT ".toList ++ rest → Passed requests data

def Plain (data : Str) : Prop := '$' ∉ data ∧ occurs COMMIT data = false

/-- What the nodes hold and what is under way goes back to the clients' texts. -/
structure Sourced (requests : List Str) (s : Network) : Prop where
  stores : ∀ i node, s.nodes i = some node → ∀ key value, node.kvdb key = some value → Written requests key value
  flight : ∀ message ∈ s.flight, Plain message.2 ∨ Passed requests message.2

section texts
variable {requests : List Str} {request data key value : Str} {node after : Node} {reachable : Nat → Bool}
  {sent : List Sent} {kvdb : Kvdb}

theorem recvLoop_begins {limit : Nat} {recvs rest : List Recv} {flag : Int} {read : Str}
    (returned : recvLoop limit data recvs = some (flag, read, rest)) : read <+: data ++ received recvs := by
  induction recvs generalizing data with
  | nil => cases returned
  | cons recv recvs ih =>
    cases recv with
    | error =>
      cases returned
      exact List.prefix_append _ _
    | closed =>
      cases returned
      exact List.prefix_append _ _
    | bytes buf =>
      have split : data ++ received (.bytes buf :: recvs) = data ++ buf ++ received recvs := by
        rw [List.append_assoc]
        rfl
      rw [split]
      rw [recvLoop] at returned
      split at returned
      · exact ih returned
      · cases returned
        exact List.prefix_append _ _

theorem Commits.mono {more : List Str} (commits : Commits requests data) (all : requests ⊆ more) : Commits more data := by
  cases commits with
  | client member read mark => exact .client (all member) read mark
  | leader member read made rest => exact .leader (all member) read made rest

theorem Written.mono {more : List Str} (written : Written requests key value) (all : requests ⊆ more) :
    Written more key value := by
  cases written with
  | executed member read tokens => exact .executed (all member) read tokens
  | committed commits set => exact .committed (commits.mono all) set

theorem Passed.mono {more : List Str} (passed : Passed requests data) (all : requests ⊆ more) : Passed more data := by
  cases passed with
  | commit member read made rest => exact .commit (all member) read made rest
  | again begins => exact .again begins

theorem Passed.shorter {read : Str} (passed : Passed requests data) (begins : read <+: data) : Passed requests read := by
  cases passed with
  | commit member first made rest => exact .commit member first made (begins.trans rest)
  | again rest => exact .again (begins.trans rest)

theorem Plain.shorter {read : Str} (plain : Plain data) (begins : read <+: data) : Plain read := by
  obtain ⟨more, rfl⟩ := begins
  constructor
  · exact fun member => plain.1 (List.mem_append_left more member)
  · by_contra present
    have whole := occurs_left more (Bool.not_eq_false _ |>.mp present)
    exact Bool.noConfusion (plain.2.symm.trans whole)

theorem cons_of_first {tokens : List Str} {token : Str} (first : tokens[0]? = some token) :
    ∃ rest, tokens = token :: rest := by
  rw [← List.head?_eq_getElem?] at first
  exact List.head?_eq_some_iff.mp first

theorem foldl_erase_some {keys : List Str}
    (found : keys.foldl (fun kvdb key => Function.update kvdb key none) kvdb key = some value) :
    kvdb key = some value := by
  rw [foldl_erase] at found
  split at found
  · cases found
  · exact found

theorem handleCommitRequest_some (found : handleCommitRequest kvdb data key = some value) :
    kvdb key = some value ∨ SET ∈ (words data).take 2 ∧ key = ((words data).drop 2).headD [] ∧
      value = spaced ((words data).drop 3) := by
  rw [handleCommitRequest] at found
  split at found
  · next set =>
    by_cases same : key = ((words data).drop 2).headD []
    · rw [same, Function.update_self, Option.some.injEq] at found
      rw [List.tail_drop] at found
      refine Or.inr ⟨?_, same, found.symm⟩
      cases tokens : words data with
      | nil =>
        rw [tokens] at set
        exact absurd set (by decide)
      | cons first rest =>
        rw [tokens] at set
        cases rest with
        | nil =>
          have set : first = SET := set
          simp [set]
        | cons second rest =>
          have set : second = SET := set
          simp [set]
    · rw [Function.update_of_ne same] at found
      exact Or.inl found
  · exact Or.inl (foldl_erase_some found)

theorem Commit_some {parse_msg : List Str} {committed : Kvdb × Str} (ran : Commit kvdb parse_msg = some committed)
    (found : committed.1 key = some value) :
    kvdb key = some value ∨ ∃ rest, parse_msg = SET :: key :: rest ∧ value = spaced rest := by
  obtain ⟨command, first, ran⟩ := Option.bind_eq_some_iff.mp ran
  split at ran
  · next set =>
    obtain ⟨k, second, same⟩ := Option.bind_eq_some_iff.mp ran
    cases same
    have found : Function.update kvdb k (some (spaced (parse_msg.drop 2))) key = some value := found
    by_cases here : key = k
    · rw [here, Function.update_self, Option.some.injEq] at found
      obtain ⟨tokens, rfl⟩ := cons_of_first first
      obtain ⟨rest, rfl⟩ := cons_of_first second
      exact Or.inr ⟨rest, by rw [set, here], found.symm⟩
    · rw [Function.update_of_ne here] at found
      exact Or.inl found
  · split at ran
    · cases ran
      rw [foldl_deleteCounted] at found
      exact Or.inl (foldl_erase_some found)
    · cases ran
      exact Or.inl found

theorem parse_payload (data : Str) : (parseClinetMessage data).2 = payload data := by
  by_cases empty : data = []
  · subst empty
    rfl
  · simp only [parseClinetMessage, if_neg empty]

theorem handleClientRequest_some (handled : handleClientRequest node reachable request = some (after, sent))
    (found : after.kvdb key = some value) :
    node.kvdb key = some value ∨ ∃ rest, payload request = SET :: key :: rest ∧ value = spaced rest := by
  cases handleClientRequest_cases handled with
  | redirected => exact Or.inl found
  | read => exact Or.inl found
  | executed sent committed _ _ ran =>
    rw [parse_payload] at ran
    exact Commit_some ran found

theorem mem_sendToOthers {j : Nat} {message : Str} (member : Sent.toNode j data ∈ sendToOthers node reachable message) :
    data = message := by
  obtain ⟨_, _, same⟩ := List.mem_map.mp member
  cases same
  rfl

theorem handleClientRequest_commits {j : Nat} (handled : handleClientRequest node reachable request = some (after, sent))
    (member : Sent.toNode j data ∈ sent) : commitInfo (payload request) = some data := by
  have replies : Sent.toNode j data ∉ rejection request := by
    rw [rejection]
    split <;> simp
  cases handleClientRequest_cases handled with
  | redirected => simp at member
  | read => simp [replies] at member
  | executed forwarded committed _ sends _ =>
    have inside : Sent.toNode j data ∈ forwarded := by simpa [replies] using member
    rw [parse_payload] at sends
    obtain ⟨message, made, same⟩ := Option.bind_eq_some_iff.mp sends
    cases same
    rw [mem_sendToOthers inside]
    exact made

theorem commitInfo_begins {parse_msg : List Str} (made : commitInfo parse_msg = some data) :
    ∃ rest, data = "COMMIT ".toList ++ rest := by
  obtain ⟨command, _, same⟩ := Option.bind_eq_some_iff.mp made
  cases same
  exact ⟨_, rfl⟩

theorem Passed.begins (passed : Passed requests data) : ∃ rest, data <+: "COMMIT ".toList ++ rest := by
  cases passed with
  | commit _ _ made rest =>
    obtain ⟨more, rfl⟩ := commitInfo_begins made
    exact ⟨more, rest⟩
  | @again _ rest begins => exact ⟨"COMMIT ".toList ++ rest, begins⟩

theorem Passed.marked (passed : Passed requests data) (mark : '$' ∈ data) :
    ∃ tokens, payload data = COMMIT :: tokens := by
  obtain ⟨rest, begins⟩ := passed.begins
  have long : "COMMIT ".toList <+: data := by
    rcases List.prefix_or_prefix_of_prefix begins (List.prefix_append "COMMIT ".toList rest) with short | long
    · exact absurd (short.subset mark) (by decide)
    · exact long
  obtain ⟨more, rfl⟩ := long
  have split : "COMMIT ".toList ++ more = COMMIT ++ ' ' :: more := rfl
  have blank : isspace ' ' = true := by decide
  refine ⟨payload more, ?_⟩
  rw [split, payload, words_token_space (Token.of_all (by decide) (by decide)) blank, List.filter_cons_of_pos (by decide)]
  rfl

theorem again_not_set {rest : Str} (begins : data <+: "COMMIT COMMIT ".toList ++ rest) : SET ∉ (words data).take 2 := by
  rcases List.prefix_or_prefix_of_prefix begins (List.prefix_append "COMMIT COMMIT ".toList rest) with short | long
  · have all : ∀ n ≤ 14, SET ∉ (words ("COMMIT COMMIT ".toList.take n)).take 2 := by decide
    rw [List.prefix_iff_eq_take.mp short]
    exact all _ short.length_le
  · obtain ⟨more, rfl⟩ := long
    have blank : isspace ' ' = true := by decide
    have token : Token COMMIT := Token.of_all (by decide) (by decide)
    have split : "COMMIT COMMIT ".toList ++ more = COMMIT ++ ' ' :: (COMMIT ++ ' ' :: more) := rfl
    rw [split, words_token_space token blank, words_token_space token blank]
    change SET ∉ [COMMIT, COMMIT]
    decide

/-! What a node makes of each kind of text. -/

theorem HandleSockfd_plain (plain : Plain data) (handled : HandleSockfd node reachable data = some (after, sent)) :
    after.kvdb = node.kvdb ∧ ∀ j message, Sent.toNode j message ∈ sent → message = AgreeVote := by
  have quiet : ∀ j message, Sent.toNode j message ∈ ([] : List Sent) → message = AgreeVote := fun _ _ none =>
    absurd none List.not_mem_nil
  rw [HandleSockfd, if_neg plain.1, plain.2, if_neg Bool.false_ne_true] at handled
  split at handled
  · cases handled
    exact ⟨rfl, quiet⟩
  split at handled
  · obtain ⟨nodeid, _, granted⟩ := Option.bind_eq_some_iff.mp handled
    rw [handleRequestVote] at granted
    split at granted
    · cases granted
      refine ⟨rfl, fun j message member => ?_⟩
      split at member
      · obtain ⟨-, same⟩ := Sent.toNode.inj (List.mem_singleton.mp member)
        exact same
      · exact quiet j message member
    · cases granted
  split at handled
  · obtain ⟨counted, voted, same⟩ := Option.map_eq_some_iff.mp handled
    cases same
    refine ⟨?_, quiet⟩
    rcases handleRecvVote_same voted with kept | leads
    · rw [kept]
    · rw [leads]
  · cases handled
    exact ⟨rfl, quiet⟩

theorem plain_agreeVote : Plain AgreeVote := by
  constructor <;> decide

theorem plain_heartBeat : Plain HeartBeat := by
  constructor <;> decide

theorem plain_requestVote (k : Nat) : Plain (RequestVote k) :=
  ⟨(requestVote_marks k).1, (requestVote_marks k).2.1⟩

def Keeps (requests : List Str) (node after : Node) (sent : List Sent) : Prop :=
  (∀ key value, after.kvdb key = some value → node.kvdb key = some value ∨ Written requests key value) ∧
    ∀ j message, Sent.toNode j message ∈ sent → Plain message ∨ Passed requests message

theorem Keeps.plainly (same : after.kvdb = node.kvdb) {message : Str} (plain : Plain message)
    (sends : ∀ j data, Sent.toNode j data ∈ sent → data = message) : Keeps requests node after sent := by
  constructor
  · exact fun key value found => Or.inl (same ▸ found)
  · intro j data member
    rw [sends j data member]
    exact Or.inl plain

theorem Keeps.plain (plain : Plain data) (handled : HandleSockfd node reachable data = some (after, sent)) :
    Keeps requests node after sent :=
  Keeps.plainly (HandleSockfd_plain plain handled).1 plain_agreeVote (HandleSockfd_plain plain handled).2

theorem Keeps.client {read : Str} (member : request ∈ requests) (begins : read <+: request)
    (handled : HandleSockfd node reachable read = some (after, sent)) : Keeps requests node after sent := by
  by_cases mark : '$' ∈ read
  · rw [HandleSockfd, if_pos mark] at handled
    constructor
    · intro key value found
      rcases handleClientRequest_some handled found with old | ⟨rest, tokens, rfl⟩
      · exact Or.inl old
      · exact Or.inr (.executed member begins tokens)
    · intro j data sends
      exact Or.inr (.commit member begins (handleClientRequest_commits handled sends) (List.prefix_refl data))
  · by_cases commit : occurs COMMIT read = true
    · rw [HandleSockfd, if_neg mark, if_pos commit] at handled
      cases handled
      refine ⟨fun key value found => ?_, fun j message none => absurd none List.not_mem_nil⟩
      rcases handleCommitRequest_some found with old | ⟨set, rfl, rfl⟩
      · exact Or.inl old
      · exact Or.inr (.committed (.client member begins mark) set)
    · exact Keeps.plain ⟨mark, Bool.not_eq_true _ ▸ commit⟩ handled

theorem Keeps.passed (passed : Passed requests data) (handled : HandleSockfd node reachable data = some (after, sent)) :
    Keeps requests node after sent := by
  by_cases mark : '$' ∈ data
  · obtain ⟨tokens, parsed⟩ := passed.marked mark
    rw [HandleSockfd, if_pos mark] at handled
    constructor
    · intro key value found
      rcases handleClientRequest_some handled found with old | ⟨rest, tokens, _⟩
      · exact Or.inl old
      · rw [parsed] at tokens
        exact absurd (List.cons.inj tokens).1 (by decide)
    · intro j message sends
      have made := handleClientRequest_commits handled sends
      rw [parsed] at made
      cases made
      have split : "COMMIT ".toList ++ spaced (COMMIT :: (COMMIT :: tokens).drop 2) =
          "COMMIT COMMIT ".toList ++ spaced ((COMMIT :: tokens).drop 2) := by
        rw [spaced_cons]
        rfl
      exact Or.inr (.again ⟨[], by rw [List.append_nil, split]⟩)
  · by_cases commit : occurs COMMIT data = true
    · rw [HandleSockfd, if_neg mark, if_pos commit] at handled
      cases handled
      refine ⟨fun key value found => ?_, fun j message none => absurd none List.not_mem_nil⟩
      rcases handleCommitRequest_some found with old | ⟨set, rfl, rfl⟩
      · exact Or.inl old
      · cases passed with
        | commit member read made rest => exact Or.inr (.committed (.leader member read made rest) set)
        | again begins => exact absurd set (again_not_set begins)
    · exact Keeps.plain ⟨mark, Bool.not_eq_true _ ▸ commit⟩ handled

end texts

section network
variable {requests more : List Str} {config : Config} {s t : Network} {i : Nat} {node after : Node} {sent : List Sent}

theorem Sourced.mono (sourced : Sourced requests s) (all : requests ⊆ more) : Sourced more s := by
  constructor
  · intro i node here key value found
    exact (sourced.stores i node here key value found).mono all
  · intro message member
    exact (sourced.flight message member).imp_right fun passed => passed.mono all

theorem Sourced.start (config : Config) (votes : Nat → Int) : Sourced [] (Network.start config votes) := by
  constructor
  · intro i node here key value found
    change (if i < config.numNodes then some (config.create i (votes i)) else none) = some node at here
    split at here
    · cases here
      cases found
    · cases here
  · exact fun _ member => absurd member List.not_mem_nil

theorem Sourced.place (sourced : Sourced requests s) (here : s.nodes i = some node) (keeps : Keeps requests node after sent) :
    Sourced requests (s.place i after sent) := by
  constructor
  · intro j other there key value found
    rw [Network.place_nodes] at there
    by_cases same : j = i
    · rw [same, Function.update_self, Option.some.injEq] at there
      rw [← there] at found
      exact (keeps.1 key value found).elim (sourced.stores i node here key value) id
    · rw [Function.update_of_ne same] at there
      exact sourced.stores j other there key value found
  · intro message member
    rcases List.mem_append.mp member with early | late
    · exact sourced.flight message early
    · exact keeps.2 message.1 message.2 (Network.mem_posted.mp late)

theorem Sourced.crash (sourced : Sourced requests s) (i : Nat) : Sourced requests (s.crash i) := by
  constructor
  · intro j other here
    rw [Network.crash_nodes] at here
    by_cases same : j = i
    · rw [same, Function.update_self] at here
      cases here
    · rw [Function.update_of_ne same] at here
      exact sourced.stores j other here
  · exact fun message member => sourced.flight message (List.mem_filter.mp member).1

theorem Sourced.take (sourced : Sourced requests s) (message : Nat × Str) : Sourced requests (s.take message) :=
  ⟨sourced.stores, fun other member => sourced.flight other (List.mem_of_mem_erase member)⟩

theorem Sourced.cut (sourced : Sourced requests s) {data read : Str} (inFlight : (i, data) ∈ s.flight)
    (begins : read <+: data) : Sourced requests (s.cut i data read) := by
  refine ⟨sourced.stores, fun message member => ?_⟩
  rcases List.mem_cons.mp member with rfl | other
  · rcases sourced.flight _ inFlight with plain | passed
    · exact Or.inl (plain.shorter begins)
    · exact Or.inr (passed.shorter begins)
  · exact sourced.flight message (List.mem_of_mem_erase other)

theorem Sourced.restart (sourced : Sourced requests s) (votes : Int) :
    Sourced requests { s with nodes := Function.update s.nodes i (some (config.create i votes)) } := by
  refine ⟨fun j other here key value found => ?_, sourced.flight⟩
  change Function.update s.nodes i (some (config.create i votes)) j = some other at here
  by_cases same : j = i
  · rw [same, Function.update_self, Option.some.injEq] at here
    rw [← here] at found
    cases found
  · rw [Function.update_of_ne same] at here
    exact sourced.stores j other here key value found

theorem Sourced.step (sourced : Sourced requests s) {event : Event} (taken : next config s event = some t) :
    Sourced requests t := by
  cases next_branch taken with
  | stopped => exact (sourced.take _).crash _
  | handled inFlight here outcome =>
    refine (sourced.take _).place here ?_
    rcases sourced.flight _ inFlight with plain | passed
    · exact Keeps.plain plain outcome
    · exact Keeps.passed passed outcome
  | lose => exact sourced.take _
  | heartbeat here => exact sourced.place here (Keeps.plainly rfl plain_heartBeat fun _ _ => mem_sendToOthers)
  | @timer i node here =>
    have kept : (electionRound node).kvdb = node.kvdb := by
      rw [electionRound]
      split <;> rfl
    exact sourced.place here (Keeps.plainly kept plain_heartBeat fun _ _ none => absurd none List.not_mem_nil)
  | timeout here => exact sourced.place here (Keeps.plainly rfl (plain_requestVote _) fun _ _ => mem_sendToOthers)
  | crash => exact sourced.crash _
  | restart => exact sourced.restart _

theorem getMessage_begins {recvs : List Recv} {data : Str} {read : Int × Str × List Recv}
    (returned : getMessage [] recvs = some read) (comes : (received recvs).isPrefixOf data = true) : read.2.1 <+: data :=
  (recvLoop_begins returned).trans (List.isPrefixOf_iff_prefix.mp comes)

theorem Sourced.client (sourced : Sourced requests s) {request read : Str} {reachable : Nat → Bool}
    (member : request ∈ requests) (begins : read <+: request)
    (taken : clusterNext config s (.client i read reachable) = some t) : Sourced requests t := by
  obtain ⟨node, here, result⟩ := Option.bind_eq_some_iff.mp taken
  cases outcome : HandleSockfd node (s.accepting reachable) read with
  | none =>
    rw [outcome] at result
    cases result
    exact sourced.crash i
  | some handled =>
    rw [outcome] at result
    cases result
    exact sourced.place here (Keeps.client member begins outcome)

theorem Sourced.readStep (sourced : Sourced requests s) {event : ClusterEvent} {recvs : List Recv}
    (taken : readNext config s (event, recvs) = some t) : Sourced (requests ++ (clientText event).toList) t := by
  cases event with
  | client i request reachable =>
    have known : request ∈ requests ++ (clientText (.client i request reachable)).toList :=
      List.mem_append_right _ (List.mem_singleton_self request)
    obtain ⟨read, returned, taken⟩ := Option.bind_eq_some_iff.mp taken
    split at taken
    · next comes =>
      exact (sourced.mono (List.subset_append_left _ _)).client known (getMessage_begins returned comes) taken
    · cases taken
  | election event =>
    change Sourced (requests ++ []) t
    rw [List.append_nil]
    cases event with
    | deliver i data reachable =>
      obtain ⟨read, returned, taken⟩ := Option.bind_eq_some_iff.mp taken
      split at taken
      · next guard =>
        obtain ⟨inFlight, comes⟩ := Bool.and_eq_true_iff.mp guard
        exact (sourced.cut (List.contains_iff_mem.mp inFlight) (getMessage_begins returned comes)).step taken
      · cases taken
    | _ =>
      simp only [readNext] at taken
      exact sourced.step taken

theorem Sourced.run {votes : Nat → Int} {events : List (ClusterEvent × List Recv)}
    (run : Run (fun s event t => readNext config s event = some t) (Network.start config votes) events t) :
    Sourced (events.filterMap fun event => clientText event.1) t := by
  induction run with
  | refl => exact Sourced.start config votes
  | @tail _ _ _ event _ last ih =>
    have after := ih.readStep last
    have single : [event].filterMap (fun event => clientText event.1) = (clientText event.1).toList := by
      rw [List.filterMap_cons]
      cases clientText event.1 <;> rfl
    rw [List.filterMap_append, single]
    exact after

/-- In every run, with texts that come in any pieces and are acted on before they are complete, each entry of each
store is one that the beginning of a single client's text has in it: no entry is made up, and none is mixed from
two texts. -/
theorem stored_was_requested (config : Config) (votes : Nat → Int) (events : List (ClusterEvent × List Recv)) (t : Network)
    (run : Run (fun s event t => readNext config s event = some t) (Network.start config votes) events t) :
    ∀ i node, t.nodes i = some node → ∀ key value, node.kvdb key = some value →
      Written (events.filterMap fun event => clientText event.1) key value :=
  (Sourced.run run).stores

/-- Node 0 leads and executes a SET of two tokens. Node 1 reads the commit up to the middle of the second, and stores
the beginning of it under the first. -/
theorem stored_was_requested_torn :
    let set := "*4\r\n$3\r\nSET\r\n$1\r\nk\r\n$5\r\nCloud\r\n$9\r\nComputing\r\n".toList
    let events := [(.client 0 set fun _ => true, [.bytes set]),
      (.election (.deliver 1 "COMMIT SET Cloud Computing ".toList fun _ => true), [.bytes "COMMIT SET Cloud Comp".toList])]
    ∃ t node, Run (fun s event t => readNext trio s event = some t) (Network.start trio fun _ => 0) events t ∧
      t.nodes 1 = some node ∧ node.kvdb "Cloud".toList = some "Comp ".toList ∧
      Written [set] "Cloud".toList "Comp ".toList := by
  intro set events
  have result : (execute (readNext trio) (Network.start trio fun _ => 0) events).any (fun t =>
      (t.nodes 1).any fun node => decide (node.kvdb "Cloud".toList = some "Comp ".toList)) = true := by
    decide +kernel
  obtain ⟨t, reached, found⟩ := (Option.any_eq_true _ _).mp result
  obtain ⟨node, here, stored⟩ := (Option.any_eq_true _ _).mp found
  have stored := of_decide_eq_true stored
  have run := run_of_execute reached
  exact ⟨t, node, run, here, stored, stored_was_requested trio _ events t run 1 node here _ _ stored⟩

end network

end CloudLab.Raft
