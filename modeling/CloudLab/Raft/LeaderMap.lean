import CloudLab.Raft.Lifetime
import CloudLab.Raft.Rejected

/-! The leader alone refines a map from keys to token lists. The value it stores is a text
with one blank after each token: the blanks count the elements of an answer, the words are
the elements. -/

namespace CloudLab.Raft
open Text

/-- A token of a client request: not empty, without blanks, and not the mark of a count. -/
structure Word where
  text : Str
  token : Token text
  unmarked : text.head? ≠ some '*' ∧ text.head? ≠ some '$'

/-- The requests of a client: SET with at least one value token, GET, DEL with at least one key. -/
inductive Request where
  | set (key value : Word) (values : List Word)
  | get (key : Word)
  | del (key : Word) (keys : List Word)

namespace Request

def strings : Request → List Str
  | set key value values => SET :: key.text :: value.text :: values.map Word.text
  | get key => [GET, key.text]
  | del key keys => DEL :: key.text :: keys.map Word.text

def encode (request : Request) : Str := TwoPC.respArray request.strings

end Request

/-! The sequential map. -/

abbrev TokenMap := Str → Option (List Str)

def present (map : TokenMap) (keys : List Str) : Nat :=
  (keys.toFinset.filter fun key => (map key).isSome).card

def TokenMap.serve (map : TokenMap) : Request → TokenMap × Str
  | .set key value values =>
      (Function.update map key.text (some (value.text :: values.map Word.text)), "+OK\r\n".toList)
  | .get key =>
      (map, match map key.text with
        | some tokens => TwoPC.respArray tokens
        | none => "*1\r\n$3\r\nnil\r\n".toList)
  | .del key keys =>
      let listed := key.text :: keys.map Word.text
      (fun k => if k ∈ listed then none else map k,
        ':' :: decimal (present map listed) ++ "\r\n".toList)

def TokenMap.replies : TokenMap → List Request → List (List Str)
  | _, [] => []
  | map, request :: requests =>
      let served := map.serve request
      [served.2] :: TokenMap.replies served.1 requests

/-- The node on a sequence of requests, with the nodes in reach at each: the answers it gives
to each client. -/
def serveAll (node : Node) : List (Request × (Nat → Bool)) → Option (Node × List (List Str))
  | [] => some (node, [])
  | (request, reachable) :: events => do
      let handled ← handleClientRequest node reachable request.encode
      let later ← serveAll handled.1 events
      some (later.1, answers handled.2 :: later.2)

def contents (kvdb : Kvdb) : TokenMap := fun key => (kvdb key).map words

/-- Every stored value is a list of tokens, each followed by one blank. -/
def Stored (kvdb : Kvdb) : Prop :=
  ∀ key value, kvdb key = some value → ∃ tokens, (∀ token ∈ tokens, Token token) ∧ value = spaced tokens

/-! The invariant of the stored values. -/

theorem Stored.update {kvdb : Kvdb} (stored : Stored kvdb) (key : Str) {tokens : List Str}
    (valid : ∀ token ∈ tokens, Token token) :
    Stored (Function.update kvdb key (some (spaced tokens))) := by
  intro k value found
  by_cases same : k = key
  · subst same
    rw [Function.update_self, Option.some.injEq] at found
    exact ⟨tokens, valid, found.symm⟩
  · rw [Function.update_of_ne same] at found
    exact stored k value found

theorem Stored.erase {kvdb : Kvdb} (stored : Stored kvdb) (keys : List Str) :
    Stored (keys.foldl (fun kvdb key => Function.update kvdb key none) kvdb) := by
  intro k value found
  rw [foldl_erase] at found
  split at found
  · cases found
  · exact stored k value found

theorem Stored.handleCommitRequest {kvdb : Kvdb} (stored : Stored kvdb) (data : Str) :
    Stored (handleCommitRequest kvdb data) := by
  unfold Raft.handleCommitRequest
  dsimp only
  split
  · apply stored.update
    intro token member
    exact token_of_mem_words data token (List.mem_of_mem_drop (List.mem_of_mem_tail member))
  · exact stored.erase _

theorem Stored.commit {kvdb : Kvdb} (stored : Stored kvdb) {parse_msg : List Str}
    (valid : ∀ token ∈ parse_msg, Token token) {committed : Kvdb × Str}
    (result : Commit kvdb parse_msg = some committed) : Stored committed.1 := by
  simp only [Commit, Option.bind_eq_bind, Option.bind_eq_some_iff] at result
  obtain ⟨command, _, branch⟩ := result
  by_cases set : command = SET
  · rw [if_pos set, Option.bind_eq_some_iff] at branch
    obtain ⟨key, _, same⟩ := branch
    cases same
    apply stored.update
    intro token member
    exact valid token (List.mem_of_mem_drop member)
  · rw [if_neg set] at branch
    by_cases del : command = DEL
    · rw [if_pos del] at branch
      cases branch
      rw [foldl_deleteCounted]
      exact stored.erase _
    · rw [if_neg del] at branch
      cases branch
      exact stored

theorem parsed_token {request token : Str} (member : token ∈ (parseClinetMessage request).2) :
    Token token := by
  by_cases empty : request = []
  · rw [parseClinetMessage, if_pos empty] at member
    cases member
  · rw [parseClinetMessage, if_neg empty] at member
    exact payload_token member

theorem Stored.handleClientRequest {node after : Node} {reachable : Nat → Bool} {request : Str}
    {sent : List Sent} (stored : Stored node.kvdb)
    (result : handleClientRequest node reachable request = some (after, sent)) : Stored after.kvdb := by
  cases handleClientRequest_cases result with
  | redirected => exact stored
  | read => exact stored
  | executed _ committed _ _ committing => exact stored.commit (fun token member => parsed_token member) committing

theorem Stored.HandleSockfd {node : Node} {reachable : Nat → Bool} {data : Str}
    {handled : Node × List Sent} (stored : Stored node.kvdb)
    (result : HandleSockfd node reachable data = some handled) : Stored handled.1.kvdb := by
  rw [HandleSockfd_dispatch] at result
  cases choice : dispatch data with
  | handleClientRequest =>
    rw [choice] at result
    exact stored.handleClientRequest result
  | handleCommitRequest =>
    rw [choice] at result
    cases result
    exact stored.handleCommitRequest data
  | handleHeartBeat =>
    rw [choice] at result
    cases result
    exact stored
  | handleRequestVote nodeid =>
    rw [choice] at result
    obtain ⟨id, _, granted⟩ := Option.bind_eq_some_iff.mp result
    rw [handleRequestVote_same granted]
    exact stored
  | handleRecvVote =>
    rw [choice] at result
    obtain ⟨after, counted, same⟩ := Option.map_eq_some_iff.mp result
    cases same
    rcases handleRecvVote_same counted with same | same
    · rw [same]
      exact stored
    · rw [same]
      exact stored
  | ignored =>
    rw [choice] at result
    cases result
    exact stored

theorem Reached.stored {config : Config} {i : Nat} {node : Node} (reached : Reached config i node) :
    Stored node.kvdb := by
  induction reached with
  | create => exact fun _ _ found => nomatch found
  | handle _ result ih => exact ih.HandleSockfd result
  | timer _ ih =>
    unfold electionRound
    split <;> exact ih
  | timeout _ _ ih => exact ih

/-! The parser reads an encoded request back. -/

theorem words_crlf {text : Str} (token : Token text) (rest : Str) :
    words (text ++ TwoPC.crlf ++ rest) = text :: words rest := by
  have split : text ++ TwoPC.crlf ++ rest = text ++ '\r' :: '\n' :: rest := by
    simp [TwoPC.crlf]
  rw [split, words_token_space token (by decide), words_space (by decide)]

theorem token_marked (mark : Char) (plain : isspace mark = false) (n : Int) :
    Token (mark :: decimal n) := by
  refine ⟨by simp, ?_⟩
  intro c member
  rcases List.mem_cons.mp member with rfl | digit
  · exact plain
  · exact (token_decimal n).2 c digit

theorem words_bulks {elements : List Str} (tokens : ∀ element ∈ elements, Token element) :
    words (elements.flatMap TwoPC.bulk) =
      elements.flatMap fun element => ['$' :: decimal element.length, element] := by
  induction elements with
  | nil => rfl
  | cons element elements ih =>
    have rest := ih (fun other member => tokens other (List.mem_cons_of_mem _ member))
    have split : TwoPC.bulk element ++ elements.flatMap TwoPC.bulk =
        ('$' :: decimal element.length) ++ TwoPC.crlf ++
          (element ++ TwoPC.crlf ++ elements.flatMap TwoPC.bulk) := by
      simp [TwoPC.bulk]
    rw [List.flatMap_cons, split, words_crlf (token_marked '$' (by decide) _),
      words_crlf (tokens element (by simp)), rest]
    rfl

theorem payload_respArray {elements : List Str} (tokens : ∀ element ∈ elements, Token element)
    (unmarked : ∀ element ∈ elements, element.head? ≠ some '*' ∧ element.head? ≠ some '$') :
    payload (TwoPC.respArray elements) = elements := by
  have split : TwoPC.respArray elements =
      ('*' :: decimal elements.length) ++ TwoPC.crlf ++ elements.flatMap TwoPC.bulk := by
    simp [TwoPC.respArray]
  rw [payload, split, words_crlf (token_marked '*' (by decide) _), words_bulks tokens]
  simp only [List.filter_cons, List.head?_cons, ne_eq, not_true_eq_false, false_and,
    decide_false, Bool.false_eq_true, if_false]
  clear split tokens
  induction elements with
  | nil => rfl
  | cons element elements ih =>
    have kept := unmarked element (by simp)
    have rest := ih (fun other member => unmarked other (List.mem_cons_of_mem _ member))
    rw [List.flatMap_cons, List.filter_append, rest]
    simp [kept]

theorem Request.strings_token (request : Request) : ∀ element ∈ request.strings,
    Token element ∧ element.head? ≠ some '*' ∧ element.head? ≠ some '$' := by
  have command : ∀ name ∈ [SET, GET, DEL],
      Token name ∧ name.head? ≠ some '*' ∧ name.head? ≠ some '$' := by
    intro name member
    simp only [List.mem_cons, List.not_mem_nil, or_false] at member
    rcases member with rfl | rfl | rfl
    · exact ⟨Token.of_all (by decide) (by decide), by decide, by decide⟩
    · exact ⟨Token.of_all (by decide) (by decide), by decide, by decide⟩
    · exact ⟨Token.of_all (by decide) (by decide), by decide, by decide⟩
  have word : ∀ word : Word,
      Token word.text ∧ word.text.head? ≠ some '*' ∧ word.text.head? ≠ some '$' :=
    fun word => ⟨word.token, word.unmarked⟩
  intro element member
  cases request with
  | set key value values =>
    simp only [strings, List.mem_cons, List.mem_map] at member
    rcases member with rfl | rfl | rfl | ⟨other, _, rfl⟩
    · exact command SET (by simp)
    · exact word key
    · exact word value
    · exact word other
  | get key =>
    simp only [strings, List.mem_cons, List.not_mem_nil, or_false] at member
    rcases member with rfl | rfl
    · exact command GET (by simp)
    · exact word key
  | del key keys =>
    simp only [strings, List.mem_cons, List.mem_map] at member
    rcases member with rfl | rfl | ⟨other, _, rfl⟩
    · exact command DEL (by simp)
    · exact word key
    · exact word other

theorem Request.parse_encode (request : Request) :
    parseClinetMessage request.encode = (true, request.strings) := by
  have read : payload request.encode = request.strings :=
    payload_respArray (fun element member => (request.strings_token element member).1)
      (fun element member => (request.strings_token element member).2)
  have filled : request.encode ≠ [] := by
    unfold encode TwoPC.respArray
    simp
  rw [parseClinetMessage, if_neg filled, read]
  cases request <;> simp [strings]

/-! Each request against the stored texts. -/

theorem count_spaced {tokens : List Str} (valid : ∀ token ∈ tokens, Token token) :
    (spaced tokens).count ' ' = tokens.length := by
  induction tokens with
  | nil => rfl
  | cons token tokens ih =>
    have rest := ih (fun other member => valid other (List.mem_cons_of_mem _ member))
    have none : token.count ' ' = 0 := by
      apply List.count_eq_zero.mpr
      intro member
      have blank := (valid token (by simp)).2 ' ' member
      cases blank
    rw [spaced_cons, List.count_append, none, List.count_cons_self, rest, List.length_cons]
    omega

theorem getAnswer_spaced {kvdb : Kvdb} {key : Str} {tokens : List Str}
    (valid : ∀ token ∈ tokens, Token token) (found : kvdb key = some (spaced tokens)) :
    getAnswer kvdb key = TwoPC.respArray tokens := by
  have loop : getAnswer kvdb key =
      tokens.foldl (fun message s => message ++ TwoPC.bulk s)
        ('*' :: decimal tokens.length ++ TwoPC.crlf) := by
    unfold getAnswer
    rw [found]
    simp only [count_spaced valid, words_spaced valid]
    rfl
  rw [loop, List.foldl_append_eq_append]
  rfl

theorem foldl_deleteCounted_count (keys : List Str) (kvdb : Kvdb) (count : Nat) :
    (keys.foldl deleteCounted (kvdb, count)).2 =
      count + (keys.toFinset.filter fun key => (kvdb key).isSome).card := by
  induction keys generalizing kvdb count with
  | nil => simp
  | cons key keys ih =>
    cases held : kvdb key with
    | none =>
      have step : deleteCounted (kvdb, count) key = (kvdb, count) := by
        simp [deleteCounted, held]
      have same : (key :: keys).toFinset.filter (fun key => (kvdb key).isSome) =
          keys.toFinset.filter fun key => (kvdb key).isSome := by
        rw [List.toFinset_cons, Finset.filter_insert, held]
        simp
      rw [List.foldl_cons, step, ih, same]
    | some value =>
      have step : deleteCounted (kvdb, count) key = (Function.update kvdb key none, count + 1) := by
        simp [deleteCounted, held]
      have split : (key :: keys).toFinset.filter (fun key => (kvdb key).isSome) =
          insert key (keys.toFinset.filter fun k => (Function.update kvdb key none k).isSome) := by
        ext k
        by_cases same : k = key
        · subst same
          simp [held]
        · simp [same]
      have fresh : key ∉ keys.toFinset.filter fun k => (Function.update kvdb key none k).isSome := by
        simp
      rw [List.foldl_cons, step, ih, split, Finset.card_insert_of_notMem fresh]
      omega

theorem contents_isSome (kvdb : Kvdb) (key : Str) : (contents kvdb key).isSome = (kvdb key).isSome := by
  unfold contents
  rw [Option.isSome_map]

theorem contents_update {tokens : List Str} (kvdb : Kvdb) (key : Str)
    (valid : ∀ token ∈ tokens, Token token) :
    contents (Function.update kvdb key (some (spaced tokens))) =
      Function.update (contents kvdb) key (some tokens) := by
  funext k
  by_cases same : k = key
  · subst same
    simp [contents, words_spaced valid]
  · simp [contents, same]

theorem contents_erase (kvdb : Kvdb) (keys : List Str) :
    contents (keys.foldl (fun kvdb key => Function.update kvdb key none) kvdb) =
      fun k => if k ∈ keys then none else contents kvdb k := by
  funext k
  unfold contents
  rw [foldl_erase]
  split <;> rfl

/-- One request at a leader: the client is answered once, with the map's reply, and the
stored texts mean the map's new contents. -/
theorem handleClientRequest_serves {node : Node} (leads : node.currentState = .Leader)
    (stored : Stored node.kvdb) (request : Request) (reachable : Nat → Bool) :
    ∃ after sent, handleClientRequest node reachable request.encode = some (after, sent) ∧
      after.currentState = .Leader ∧ Stored after.kvdb ∧
      answers sent = [((contents node.kvdb).serve request).2] ∧
      contents after.kvdb = ((contents node.kvdb).serve request).1 := by
  have tokens : ∀ element ∈ request.strings, Token element :=
    fun element member => (request.strings_token element member).1
  rw [handleClientRequest, if_neg (fun other => other leads)]
  simp only [request.parse_encode, if_true, List.nil_append]
  cases request with
  | get key =>
    refine ⟨node, [.reply (getAnswer node.kvdb key.text)], by simp [Request.strings], leads, stored, ?_, rfl⟩
    change [getAnswer node.kvdb key.text] = _
    cases held : node.kvdb key.text with
    | none =>
      simp only [TokenMap.serve, contents, held, Option.map_none, getAnswer]
    | some value =>
      obtain ⟨values, valid, same⟩ := stored key.text value held
      rw [same] at held
      simp only [TokenMap.serve, contents, held, Option.map_some, words_spaced valid,
        getAnswer_spaced valid held]
  | set key value values =>
    have valid : ∀ token ∈ value.text :: values.map Word.text, Token token := by
      intro token member
      exact tokens token (List.mem_cons_of_mem _ (List.mem_cons_of_mem _ member))
    let stores := Function.update node.kvdb key.text (some (spaced (value.text :: values.map Word.text)))
    refine ⟨{ node with kvdb := stores },
      sendToOthers node reachable
        ("COMMIT ".toList ++ spaced (SET :: value.text :: values.map Word.text)) ++
          [.reply getClientOK], rfl, leads, stored.update key.text valid, ?_,
      contents_update node.kvdb key.text valid⟩
    rw [answers_append, answers_sendToOthers, List.nil_append]
    rfl
  | del key keys =>
    let listed := key.text :: keys.map Word.text
    refine ⟨{ node with kvdb := (listed.foldl deleteCounted (node.kvdb, 0)).1 },
      sendToOthers node reachable
        ("COMMIT ".toList ++ spaced (DEL :: keys.map Word.text)) ++
          [.reply (':' :: decimal (listed.foldl deleteCounted (node.kvdb, 0)).2 ++ "\r\n".toList)],
      rfl, leads, ?_, ?_, ?_⟩
    · change Stored (listed.foldl deleteCounted (node.kvdb, 0)).1
      rw [foldl_deleteCounted]
      exact stored.erase listed
    · have counted : (listed.foldl deleteCounted (node.kvdb, 0)).2 = present (contents node.kvdb) listed := by
        rw [foldl_deleteCounted_count, Nat.zero_add, present]
        simp only [contents_isSome]
      rw [answers_append, answers_sendToOthers, List.nil_append, counted]
      rfl
    · change contents (listed.foldl deleteCounted (node.kvdb, 0)).1 = _
      rw [foldl_deleteCounted, contents_erase]
      rfl

theorem serveAll_replies (events : List (Request × (Nat → Bool))) {node : Node}
    (leads : node.currentState = .Leader) (stored : Stored node.kvdb) :
    ∃ after, serveAll node events =
      some (after, TokenMap.replies (contents node.kvdb) (events.map Prod.fst)) ∧
        after.currentState = .Leader := by
  induction events generalizing node with
  | nil => exact ⟨node, rfl, leads⟩
  | cons event events ih =>
    obtain ⟨request, reachable⟩ := event
    obtain ⟨middle, sent, handled, leading, kept, answered, means⟩ :=
      handleClientRequest_serves leads stored request reachable
    obtain ⟨after, later, final⟩ := ih leading kept
    refine ⟨after, ?_, final⟩
    rw [serveAll, handled]
    simp only [Option.bind_eq_bind, Option.bind_some, later, answered, means, List.map_cons,
      TokenMap.replies]

/-- From any state a leader can reach, and whatever nodes its commits reach, a sequence of
encoded requests is answered as one map from keys to token lists would answer it. -/
theorem leader_refines_map (config : Config) (i : Nat) (node : Node) (reached : Reached config i node)
    (leads : node.currentState = .Leader) (events : List (Request × (Nat → Bool))) :
    ∃ after, serveAll node events =
      some (after, TokenMap.replies (contents node.kvdb) (events.map Prod.fst)) ∧
        after.currentState = .Leader :=
  serveAll_replies events leads reached.stored

theorem leader_refines_map_run :
    let node := trio.create 0 0
    let k : Word := ⟨"k".toList, Token.of_all (by decide) (by decide), by decide⟩
    let v : Word := ⟨"v".toList, Token.of_all (by decide) (by decide), by decide⟩
    let requests : List Request := [.set k v [], .get k, .del k [k], .get k]
    (∃ after, serveAll node (requests.map fun request => (request, fun _ => false)) =
      some (after, TokenMap.replies (contents node.kvdb) requests) ∧ after.currentState = .Leader) ∧
    TokenMap.replies (contents node.kvdb) requests =
      [["+OK\r\n".toList], ["*1\r\n$1\r\nv\r\n".toList], [":1\r\n".toList],
        ["*1\r\n$3\r\nnil\r\n".toList]] := by
  intro node k v requests
  constructor
  · exact leader_refines_map trio 0 node (.create 0) rfl
      (requests.map fun request => (request, fun _ => false))
  · decide

end CloudLab.Raft
