import CloudLab.Http.Answer

/-! Which handler a request comes to, and with what. The method is looked for as a word anywhere in the
text, twice, and the headers too. -/

namespace CloudLab.Http

open CloudLab Text

def fieldName (field : Str) : Str := (field.takeWhile (· ≠ ':')).map Char.toLower

def fieldValue (field : Str) : Str :=
  (((field.dropWhile (· ≠ ':')).tail.dropWhile isspace).reverse.dropWhile isspace).reverse

/-- A request as its client writes it: a line of three tokens, header fields, an empty line, and a body of
the length that a Content-Length announces, or none. -/
structure ClientRequest where
  method : Str
  path : Str
  version : Str
  fields : List Str
  body : Str
  tokens : Token method ∧ Token path ∧ Token version
  lines : ∀ field ∈ fields, ':' ∈ field ∧ '\r' ∉ field ∧ '\n' ∉ field
  plain : '\x00' ∉ method ++ path ++ version ∧ ∀ field ∈ fields, '\x00' ∉ field
  framed : (∀ field ∈ fields, fieldName field = "content-length".toList → stoi (fieldValue field) = some body.length) ∧
    (body = [] ∨ ∃ field ∈ fields, fieldName field = "content-length".toList)

namespace ClientRequest

def header (r : ClientRequest) (name : Str) : Option Str := (r.fields.find? fun field => fieldName field = name).map fieldValue

def head (r : ClientRequest) : Str :=
  r.method ++ ' ' :: (r.path ++ ' ' :: (r.version ++ r.fields.flatMap fun field => "\r\n".toList ++ field))

def text (r : ClientRequest) : Str := r.head ++ ("\r\n\r\n".toList ++ r.body)

def posted (r : ClientRequest) : http_request :=
  ⟨some r.method, some r.path, r.header "content-type".toList,
    some ⟨(r.head ++ "\r\n\r\n".toList).length, r.body.length⟩⟩

end ClientRequest

/-- The headers whose place in the text `http_request_parse` goes on from. -/
def headersUsed (text : Str) : List Str :=
  if (strstr "GET".toList text).isSome then [] else ["content-type".toList, "content-length".toList]

def contentOf (readbuffer : Str) (request : http_request) : Option Str :=
  match request.content with
  | some r => r.copy readbuffer
  | none => if request.path = some "/api/echo".toList ∨ request.path = some "/api/upload".toList then none else some []

def responses (disk : Disk) (readbuffer : Str) : Option (List Response) :=
  (server readbuffer).bind fun
    | .get requests => requests.mapM (get_response disk)
    | .post request => do
        let content ← contentOf readbuffer request
        let response ← post_response disk request content
        some [response]

/-- What is asked of a GET: `get_method` answers it, and nothing else. -/
def GetHandled (disk : Disk) (r : ClientRequest) (readbuffer : Str) : Prop :=
  server readbuffer = some (.get [⟨some r.method, some r.path, none, none⟩]) ∧
    ∃ response, responses disk readbuffer = some [response]

/-- Of a POST: `post_method` answers it, with the type and the content that are its own, and without a look
at a header that it does not have. -/
def PostHandled (disk : Disk) (r : ClientRequest) (readbuffer : Str) : Prop :=
  server readbuffer = some (.post r.posted) ∧ (∃ response, responses disk readbuffer = some [response]) ∧
  ∀ text, cstring readbuffer = some text → ∀ name ∈ headersUsed text, (r.header name).isSome = true

/-- Of any other method: one response, with status 501. -/
def NotImplemented (disk : Disk) (readbuffer : Str) : Prop :=
  ∃ response, responses disk readbuffer = some [response] ∧ response.status_code = 501

def Handles (disk : Disk) (r : ClientRequest) (readbuffer : Str) : Prop :=
  if r.method = "GET".toList then GetHandled disk r readbuffer
  else if r.method = "POST".toList then PostHandled disk r readbuffer
  else NotImplemented disk readbuffer

/-- POST does not occur, and the empty line after the headers is the last one. -/
structure Single (r : ClientRequest) (text : Str) : Prop where
  post : occurs "POST".toList text = false
  last : occurs "\r\n\r\n".toList (text.drop (r.head ++ "\r\n\r\n".toList).length) = false

/-- GET does not occur, and the first places that look like the two headers have what the request's
own have. -/
structure OwnHeaders (r : ClientRequest) (text : Str) : Prop where
  get : occurs "GET".toList text = false
  content_type : ∃ value p, r.header "content-type".toList = some value ∧ First "Content-Type: ".toList text p ∧
    (words (text.drop (p + "Content-Type: ".length))).head? = some value
  content_length : (r.header "content-length".toList).isSome = true ∧ ∃ p, First "Content-Length: ".toList text p ∧
    scanInt (text.drop (p + "Content-Length: ".length)) = some (r.body.length : Int)

/-- GET occurs before the empty line, and the path is that of a file whose name has 501 in it. -/
structure Impersonates (disk : Disk) (r : ClientRequest) : Prop where
  get : occurs "GET".toList r.head = true
  api : occurs "api".toList r.path = false
  exists_ : disk ("./static".toList ++ r.path) ≠ none
  status : get_status_of_the_file ("./static".toList ++ r.path) = 501

theorem first_empty_line {line : Str} {fields : List Str} (first : '\r' ∉ line)
    (others : ∀ field ∈ fields, field ≠ [] ∧ '\r' ∉ field) (rest : Str) :
    First "\r\n\r\n".toList ((line ++ fields.flatMap fun field => "\r\n".toList ++ field) ++ ("\r\n\r\n".toList ++ rest))
      (line ++ fields.flatMap fun field => "\r\n".toList ++ field).length := by
  induction fields generalizing line with
  | nil =>
    rw [List.flatMap_nil, List.append_nil]
    exact (First.zero (List.prefix_append _ _)).skip first
  | cons field fields ih =>
    obtain ⟨⟨nonempty, plain⟩, later⟩ := List.forall_mem_cons.mp others
    obtain ⟨c, cs, rfl⟩ := List.exists_cons_of_ne_nil nonempty
    have notBreak : c ≠ '\r' := fun same => plain (by simp [same])
    have next := ih plain later
    -- neither the line break before the field nor its second byte begins an empty line
    have second : ¬ "\r\n\r\n".toList <+: '\n' :: ((c :: cs ++ fields.flatMap fun field => "\r\n".toList ++ field) ++
        ("\r\n\r\n".toList ++ rest)) := fun here => absurd (List.cons_prefix_cons.mp here).1 (by decide)
    have broken : ¬ "\r\n\r\n".toList <+: '\r' :: '\n' :: ((c :: cs ++ fields.flatMap fun field => "\r\n".toList ++ field) ++
        ("\r\n\r\n".toList ++ rest)) := fun here =>
      notBreak (List.cons_prefix_cons.mp (List.cons_prefix_cons.mp (List.cons_prefix_cons.mp here).2).2).1.symm
    have found := First.skip first ((next.succ second).succ broken)
    have split : (line ++ ((c :: cs) :: fields).flatMap fun field => "\r\n".toList ++ field) =
        line ++ '\r' :: '\n' :: (c :: cs ++ fields.flatMap fun field => "\r\n".toList ++ field) := rfl
    rw [split, List.append_assoc, List.length_append]
    exact found

namespace ClientRequest

variable (r : ClientRequest)

theorem cr_not_mem_line : '\r' ∉ r.method ++ ' ' :: (r.path ++ ' ' :: r.version) := by
  have blank : isspace '\r' = true := by decide
  have absent {token : Str} (valid : Token token) : '\r' ∉ token := fun member => by
    rw [valid.2 _ member] at blank
    cases blank
  simp [absent r.tokens.1, absent r.tokens.2.1, absent r.tokens.2.2]

theorem ended (rest : Str) : First "\r\n\r\n".toList (r.head ++ ("\r\n\r\n".toList ++ rest)) r.head.length := by
  have found := first_empty_line r.cr_not_mem_line
    (fun field member => ⟨fun empty => by simpa [empty] using (r.lines field member).1, (r.lines field member).2.1⟩) rest
  have same : (r.method ++ ' ' :: (r.path ++ ' ' :: r.version)) ++ (r.fields.flatMap fun field => "\r\n".toList ++ field) = r.head := by
    simp [head]
  rwa [same] at found

theorem nul_not_mem : '\x00' ∉ r.head := by
  have plain := r.plain.1
  simp only [List.mem_append, not_or] at plain
  have fields : '\x00' ∉ r.fields.flatMap fun field => "\r\n".toList ++ field := by
    intro member
    obtain ⟨field, inside, here⟩ := List.mem_flatMap.mp member
    rcases List.mem_append.mp here with break_ | named
    · exact absurd break_ (by decide)
    · exact r.plain.2 field inside named
  simp only [head, List.mem_append, List.mem_cons, not_or]
  exact ⟨plain.1.1, by decide, plain.1.2, by decide, plain.2, fields⟩

theorem string {tail text : Str} (string : cstring (r.text ++ tail) = some text) :
    ∃ rest, text = r.head ++ ("\r\n\r\n".toList ++ rest) := by
  have split : r.text ++ tail = (r.head ++ "\r\n\r\n".toList) ++ (r.body ++ tail) := by simp [ClientRequest.text]
  have plain : '\x00' ∉ r.head ++ "\r\n\r\n".toList := by
    rw [List.mem_append, not_or]
    exact ⟨r.nul_not_mem, by decide⟩
  rw [split] at string
  exact ⟨_, (cstring_begins plain string).trans (List.append_assoc ..)⟩

theorem words_head (rest : Str) : ∃ others, words (r.head ++ rest) = r.method :: r.path :: others := by
  have blank : isspace ' ' = true := by decide
  refine ⟨words ((r.version ++ r.fields.flatMap fun field => "\r\n".toList ++ field) ++ rest), ?_⟩
  rw [head, List.append_assoc, List.cons_append, List.append_assoc, List.cons_append, words_token_space r.tokens.1 blank,
    words_token_space r.tokens.2.1 blank]

theorem parse_head (get : occurs "GET".toList r.head = true) :
    http_request_parse (r.head ++ ['\x00']) = some ⟨some r.method, some r.path, none, none⟩ := by
  obtain ⟨others, named⟩ := r.words_head []
  rw [List.append_nil] at named
  rw [parse_get (cstring_append r.nul_not_mem []) get, named]
  rfl

theorem parse_head_none (get : ¬ occurs "GET".toList r.head = true) : http_request_parse (r.head ++ ['\x00']) = none := by
  have ended := (r.ended []).take (List.cons_ne_nil _ _)
  rw [List.take_left] at ended
  exact (parse_piece r.nul_not_mem ended).2 get

end ClientRequest

theorem mapM_eq_singleton {α β : Type} {f : α → Option β} {l : List α} {b : β} :
    l.mapM f = some [b] ↔ ∃ a, l = [a] ∧ f a = some b := by
  constructor
  · intro result
    cases l with
    | nil => cases result
    | cons a l =>
      rw [List.mapM_cons] at result
      obtain ⟨first, here, result⟩ := Option.bind_eq_some_iff.mp result
      obtain ⟨others, later, same⟩ := Option.bind_eq_some_iff.mp result
      cases same
      cases l with
      | nil => exact ⟨a, rfl, here⟩
      | cons a' l =>
        rw [List.mapM_cons] at later
        obtain ⟨_, _, later⟩ := Option.bind_eq_some_iff.mp later
        obtain ⟨_, _, same⟩ := Option.bind_eq_some_iff.mp later
        cases same
  · rintro ⟨a, rfl, here⟩
    rw [List.mapM_cons, here]
    rfl

theorem echo_back_501 {disk : Disk} {path : Str} {status : Nat} :
    (∃ response, echo_back disk path status = some response ∧ response.status_code = 501) ↔ status = 501 := by
  unfold echo_back
  split
  · next object =>
    refine iff_of_false ?_ (by rw [object]; decide)
    rintro ⟨response, answered, sent⟩
    obtain ⟨_, _, same⟩ := Option.bind_eq_some_iff.mp answered
    cases same
    cases sent
  · exact ⟨fun ⟨_, answered, sent⟩ => by cases answered; exact sent, fun sent => ⟨_, rfl, sent⟩⟩

theorem turn_to_api_status {path file : Str} {status : Nat} (turned : turn_to_api path = some (file, status)) : status ≠ 501 := by
  rcases turn_to_api_cases turned with ⟨_, rfl⟩ | ⟨_, rfl⟩ | ⟨_, _, _, _, ⟨_, rfl⟩ | ⟨_, rfl⟩⟩ <;> decide

theorem sends_501 {disk : Disk} {path : Str} :
    (∃ response, sends disk path = some response ∧ response.status_code = 501) ↔
      occurs "api".toList path = false ∧ disk ("./static".toList ++ path) ≠ none ∧
        get_status_of_the_file ("./static".toList ++ path) = 501 := by
  by_cases api : occurs "api".toList path = true
  · refine iff_of_false ?_ fun all => Bool.noConfusion (api.symm.trans all.1)
    rintro ⟨response, answered, sent⟩
    rw [sends, route, get_method, strstr_isSome, if_pos api] at answered
    obtain ⟨⟨file, status⟩, turned, echoed⟩ := Option.bind_eq_some_iff.mp answered
    exact turn_to_api_status turned (echo_back_501.mp ⟨response, echoed, sent⟩)
  have plain : occurs "api".toList path = false := Bool.not_eq_true _ |>.mp api
  rw [sends, route, get_method_plain disk plain]
  split_ifs with front absent
  · -- the front page is sent with status 200
    refine echo_back_501.trans (iff_of_false (by decide) ?_)
    rintro ⟨_, _, status⟩
    rw [front] at status
    exact absurd status (by decide)
  · exact echo_back_501.trans (iff_of_false (by decide) fun all => all.2.1 absent)
  · exact echo_back_501.trans ⟨fun status => ⟨plain, absent, status⟩, fun all => all.2.2⟩

theorem get_response_501 {disk : Disk} {request : http_request} {path : Str} (named : request.path = some path) :
    (∃ response, get_response disk request = some response ∧ response.status_code = 501) ↔
      (request.Held ∧ PathFits path) ∧ occurs "api".toList path = false ∧ disk ("./static".toList ++ path) ≠ none ∧
        get_status_of_the_file ("./static".toList ++ path) = 501 := by
  by_cases fits : request.Held ∧ PathFits path
  · rw [get_response_fits named fits.1 fits.2, sends_501]
    exact (and_iff_right fits).symm
  · rw [get_response_overflows named fits]
    exact iff_of_false nofun fun all => fits all.1

theorem post_response_status {disk : Disk} {request : http_request} {content : Str} {response : Response}
    (answered : post_response disk request content = some response) : response.status_code ≠ 501 := by
  by_cases held : request.Held
  · obtain ⟨path, named, _⟩ := Option.bind_eq_some_iff.mp answered
    by_cases accepted : Accepted path content
    · rw [post_response_accepted named held accepted] at answered
      obtain ⟨_, _, rfl⟩ := Option.map_eq_some_iff.mp answered
      exact (by decide : 200 ≠ 501)
    · rw [post_response_refused named held accepted] at answered
      exact fun sent => absurd (echo_back_501.mp ⟨response, answered, sent⟩) (by decide)
  · rw [post_response_overflows held] at answered
    cases answered

theorem notImplemented_iff (disk : Disk) (readbuffer : Str) : NotImplemented disk readbuffer ↔
    ∃ request, server readbuffer = some (.get [request]) ∧
      ∃ response, get_response disk request = some response ∧ response.status_code = 501 := by
  constructor
  · rintro ⟨response, answered, status⟩
    obtain ⟨handled, served, answered⟩ := Option.bind_eq_some_iff.mp answered
    cases handled with
    | post request =>
      obtain ⟨content, _, answered⟩ := Option.bind_eq_some_iff.mp answered
      obtain ⟨sent, answered, same⟩ := Option.bind_eq_some_iff.mp answered
      cases same
      exact absurd status (post_response_status answered)
    | get requests =>
      obtain ⟨request, same, sent⟩ := mapM_eq_singleton.mp answered
      subst same
      exact ⟨request, served, response, sent, status⟩
  · rintro ⟨request, served, response, answered, status⟩
    refine ⟨response, ?_, status⟩
    rw [responses, served]
    exact mapM_eq_singleton.mpr ⟨request, rfl, answered⟩

theorem responses_get {disk : Disk} {readbuffer : Str} {request : http_request}
    (served : server readbuffer = some (.get [request])) :
    (∃ response, responses disk readbuffer = some [response]) ↔ ∃ response, get_response disk request = some response := by
  rw [responses, served, Option.bind_some]
  constructor
  · rintro ⟨response, answered⟩
    obtain ⟨_, same, sent⟩ := mapM_eq_singleton.mp answered
    cases same
    exact ⟨response, sent⟩
  · exact fun ⟨response, sent⟩ => ⟨response, mapM_eq_singleton.mpr ⟨request, rfl, sent⟩⟩

theorem OwnHeaders.typed {r : ClientRequest} {text : Str} (own : OwnHeaders r text) :
    (r.header "content-type".toList).isSome = true := by
  obtain ⟨_, _, found, _⟩ := own.content_type
  rw [found]
  rfl

namespace ClientRequest

variable (r : ClientRequest)

theorem copy_body (tail : Str) : Region.copy (r.text ++ tail) ⟨(r.head ++ "\r\n\r\n".toList).length, r.body.length⟩ =
    some (r.body.takeWhile (· ≠ '\x00')) := by
  have split : r.text ++ tail = (r.head ++ "\r\n\r\n".toList) ++ (r.body ++ tail) := by
    rw [ClientRequest.text]
    simp only [List.append_assoc]
  have inside : ((r.head ++ "\r\n\r\n".toList).length : Int) + r.body.length ≤
      ((r.head ++ "\r\n\r\n".toList) ++ (r.body ++ tail)).length := by
    simp only [List.length_append]
    omega
  rw [split, Region.copy, if_pos ⟨Int.natCast_nonneg _, inside⟩, List.drop_left, Int.toNat_natCast, List.take_left]

theorem head_held_iff : http_request.Held ⟨some r.method, some r.path, none, none⟩ ↔
    r.method.length ≤ 19 ∧ r.path.length ≤ 19 := by
  rw [http_request.held_iff]
  simp [Within]

theorem posted_held_iff (method : r.method = "POST".toList) :
    r.posted.Held ↔ r.path.length ≤ 19 ∧ Within 49 (r.header "content-type".toList) := by
  have small : r.method.length ≤ 9 := by
    rw [method]
    decide
  rw [http_request.held_iff]
  simp [posted, Within, small]

theorem responses_posted {disk : Disk} {tail : Str} (served : server (r.text ++ tail) = some (.post r.posted)) :
    responses disk (r.text ++ tail) =
      (post_response disk r.posted (r.body.takeWhile (· ≠ '\x00'))).map fun response => [response] := by
  have content : contentOf (r.text ++ tail) r.posted = some (r.body.takeWhile (· ≠ '\x00')) := r.copy_body tail
  rw [responses, served, Option.bind_some]
  dsimp only
  rw [content, Option.bind_eq_bind, Option.bind_some]
  cases post_response disk r.posted (r.body.takeWhile (· ≠ '\x00')) <;> rfl

end ClientRequest

theorem responses_post {disk : Disk} {r : ClientRequest} {tail : Str}
    (served : server (r.text ++ tail) = some (.post r.posted)) (typed : (r.header "content-type".toList).isSome = true) :
    (∃ response, responses disk (r.text ++ tail) = some [response]) ↔ r.posted.Held := by
  have path : r.posted.path = some r.path := rfl
  rw [r.responses_posted served, ← @post_response_isSome_iff disk _ _ _ path typed]
  constructor
  · rintro ⟨response, answered⟩
    obtain ⟨sent, found, _⟩ := Option.map_eq_some_iff.mp answered
    exact ⟨sent, found⟩
  · rintro ⟨response, answered⟩
    exact ⟨response, Option.map_eq_some_iff.mpr ⟨response, answered, rfl⟩⟩

section handled

variable {disk : Disk} {r : ClientRequest} {tail text : Str} (string : cstring (r.text ++ tail) = some text)

include string

theorem request_arr_head : ∃ others, request_arr text.length text = r.head :: others ∧
    (others = [] ↔ occurs "\r\n\r\n".toList (text.drop (r.head ++ "\r\n\r\n".toList).length) = false) := by
  obtain ⟨rest, rfl⟩ := r.string string
  obtain ⟨fuel, enough⟩ : ∃ fuel, (r.head ++ ("\r\n\r\n".toList ++ rest)).length = fuel + 2 := by
    refine ⟨r.head.length + rest.length + 2, ?_⟩
    simp
    omega
  have found : strstr "\r\n\r\n".toList (r.head ++ ("\r\n\r\n".toList ++ rest)) = some r.head.length :=
    strstr_eq_some_iff.mpr (r.ended rest)
  have after : (r.head ++ ("\r\n\r\n".toList ++ rest)).drop (r.head ++ "\r\n\r\n".toList).length = rest := by
    rw [← List.append_assoc]
    exact List.drop_left
  have next : (r.head ++ ("\r\n\r\n".toList ++ rest)).drop (r.head.length + 4) = rest := by
    have size : (r.head ++ "\r\n\r\n".toList).length = r.head.length + 4 := List.length_append
    rw [← size, after]
  rw [enough, after]
  refine ⟨request_arr (fuel + 1) rest, ?_, ?_⟩
  · rw [request_arr, found]
    dsimp only
    rw [List.take_left, next]
  · rw [request_arr]
    cases line : strstr "\r\n\r\n".toList rest with
    | none =>
      refine iff_of_true rfl ?_
      rw [← strstr_isSome, line]
      rfl
    | some _ =>
      refine iff_of_false (List.cons_ne_nil _ _) ?_
      rw [← strstr_isSome, line]
      exact Bool.noConfusion

theorem single_iff : Single r text ↔
    occurs "POST".toList text = false ∧ request_arr text.length text = [r.head] := by
  obtain ⟨others, pieces, last⟩ := request_arr_head string
  rw [pieces, List.cons_eq_cons, last]
  constructor
  · exact fun single => ⟨single.post, rfl, single.last⟩
  · exact fun ⟨post, _, last⟩ => ⟨post, last⟩

theorem server_head (post : occurs "POST".toList text = false) (request : http_request) :
    server (r.text ++ tail) = some (.get [request]) ↔
      request_arr text.length text = [r.head] ∧ http_request_parse (r.head ++ ['\x00']) = some request := by
  obtain ⟨others, pieces, _⟩ := request_arr_head string
  rw [server_get string (by rw [post]; exact Bool.false_ne_true)]
  constructor
  · intro served
    split at served
    · obtain ⟨requests, parsed, same⟩ := Option.map_eq_some_iff.mp served
      cases same
      obtain ⟨piece, single, parsed⟩ := mapM_eq_singleton.mp parsed
      rw [pieces] at single
      cases single
      exact ⟨pieces, parsed⟩
    · cases served
  · rintro ⟨single, parsed⟩
    have few : (request_arr text.length text).length ≤ 10 := by
      rw [single]
      exact Nat.le_of_ble_eq_true rfl
    rw [if_pos few, single]
    exact Option.map_eq_some_iff.mpr ⟨[request], mapM_eq_singleton.mpr ⟨_, rfl, parsed⟩, rfl⟩

theorem get_handled_iff (method : r.method = "GET".toList) :
    GetHandled disk r (r.text ++ tail) ↔ Single r text ∧ r.path.length ≤ 19 ∧ PathFits r.path := by
  rw [single_iff string]
  obtain ⟨rest, whole⟩ := r.string string
  by_cases post : occurs "POST".toList text = true
  · -- it goes to `post_method`
    refine iff_of_false ?_ fun ⟨⟨absent, _⟩, _⟩ => Bool.noConfusion (post.symm.trans absent)
    rintro ⟨handled, _⟩
    rw [server_post string post] at handled
    obtain ⟨_, _, same⟩ := Option.map_eq_some_iff.mp handled
    cases same
  · have absent : occurs "POST".toList text = false := Bool.not_eq_true _ |>.mp post
    have get : occurs "GET".toList r.head = true := by
      rw [ClientRequest.head, method]
      exact occurs_append [] _ _
    have parsed := r.parse_head get
    have small : r.method.length ≤ 19 := by
      rw [method]
      decide
    have fits : http_request.Held ⟨some r.method, some r.path, none, none⟩ ∧ PathFits r.path ↔
        r.path.length ≤ 19 ∧ PathFits r.path := by
      rw [r.head_held_iff, and_iff_right small]
    have served := server_head string absent ⟨some r.method, some r.path, none, none⟩
    rw [GetHandled, ← fits, ← @get_response_isSome_iff disk _ _ rfl]
    constructor
    · rintro ⟨handled, answered⟩
      exact ⟨⟨absent, (served.mp handled).1⟩, (responses_get handled).mp answered⟩
    · rintro ⟨⟨_, single⟩, answered⟩
      have handled := served.mpr ⟨single, parsed⟩
      exact ⟨handled, (responses_get handled).mpr answered⟩

theorem posted_iff (method : r.method = "POST".toList) :
    server (r.text ++ tail) = some (.post r.posted) ∧ (∀ name ∈ headersUsed text, (r.header name).isSome = true) ↔
      OwnHeaders r text := by
  obtain ⟨rest, whole⟩ := r.string string
  have post : occurs "POST".toList text = true := by
    rw [whole, ClientRequest.head, method, List.append_assoc]
    exact occurs_append [] _ _
  rw [server_post string post]
  by_cases get : occurs "GET".toList text = true
  · -- no header is looked for, and there is no content
    refine iff_of_false ?_ fun own => Bool.noConfusion (get.symm.trans own.get)
    rintro ⟨handled, _⟩
    rw [parse_get string get] at handled
    exact nomatch (http_request.mk.inj (Handled.post.inj (Option.some.inj handled))).2.2.2
  have absent : occurs "GET".toList text = false := Bool.not_eq_true _ |>.mp get
  have used : headersUsed text = ["content-type".toList, "content-length".toList] := by
    rw [headersUsed, strstr_isSome, if_neg get]
  obtain ⟨others, named⟩ := r.words_head ("\r\n\r\n".toList ++ rest)
  rw [← whole] at named
  have ended : First "\r\n\r\n".toList text r.head.length := by
    rw [whole]
    exact r.ended rest
  have size : (r.head ++ "\r\n\r\n".toList).length = r.head.length + 4 := List.length_append
  rw [used]
  constructor
  · rintro ⟨handled, present⟩
    obtain ⟨_, parsed, same⟩ := Option.map_eq_some_iff.mp handled
    obtain rfl := Handled.post.inj same
    obtain ⟨t, p, q, v, type, length_, value, _, same⟩ := (parse_headers_iff string get _).mp parsed
    obtain ⟨_, _, own, region⟩ := http_request.mk.inj same
    obtain ⟨_, announced⟩ := Region.mk.inj (Option.some.inj region)
    obtain ⟨own_type, found⟩ := Option.isSome_iff_exists.mp (present _ (List.mem_cons_self ..))
    refine ⟨absent, ⟨own_type, t, found, type, ?_⟩, present _ (List.mem_cons_of_mem _ (List.mem_cons_self ..)), p, length_, ?_⟩
    · rw [← own, found]
    · rw [value, announced]
  · rintro ⟨_, ⟨own_type, t, found, type, value⟩, present, p, length_, announced⟩
    constructor
    · refine Option.map_eq_some_iff.mpr ⟨_, (parse_headers_iff string get _).mpr ?_, rfl⟩
      refine ⟨t, p, r.head.length, r.body.length, type, length_, announced, ended, ?_⟩
      rw [ClientRequest.posted, named, value, found, size]
      rfl
    · intro name member
      rcases List.mem_cons.mp member with rfl | member
      · rw [found]
        rfl
      · rwa [List.mem_singleton.mp member]

/-- A POST is handled as one when it is parsed as one and its strings fit. -/
theorem post_handled_iff (method : r.method = "POST".toList) : PostHandled disk r (r.text ++ tail) ↔
    OwnHeaders r text ∧ r.path.length ≤ 19 ∧ Within 49 (r.header "content-type".toList) := by
  rw [← posted_iff string method]
  have present : (∀ text', cstring (r.text ++ tail) = some text' → ∀ name ∈ headersUsed text', (r.header name).isSome = true) ↔
      ∀ name ∈ headersUsed text, (r.header name).isSome = true := by
    simp only [string, Option.some.injEq, forall_eq']
  unfold PostHandled
  rw [present]
  constructor
  · rintro ⟨handled, answered, headers⟩
    have typed := ((posted_iff string method).mp ⟨handled, headers⟩).typed
    exact ⟨⟨handled, headers⟩, (r.posted_held_iff method).mp ((responses_post handled typed).mp answered)⟩
  · rintro ⟨⟨handled, headers⟩, fits⟩
    have typed := ((posted_iff string method).mp ⟨handled, headers⟩).typed
    exact ⟨handled, (responses_post handled typed).mpr ((r.posted_held_iff method).mpr fits), headers⟩

theorem not_implemented_iff (disk : Disk) : NotImplemented disk (r.text ++ tail) ↔
    Single r text ∧ Impersonates disk r ∧ r.method.length ≤ 19 ∧ r.path.length ≤ 11 := by
  rw [single_iff string, notImplemented_iff]
  by_cases post : occurs "POST".toList text = true
  · refine iff_of_false ?_ fun ⟨⟨absent, _⟩, _⟩ => Bool.noConfusion (post.symm.trans absent)
    rintro ⟨request, served, _⟩
    rw [server_post string post] at served
    obtain ⟨_, _, same⟩ := Option.map_eq_some_iff.mp served
    cases same
  have absent : occurs "POST".toList text = false := Bool.not_eq_true _ |>.mp post
  simp only [server_head string absent]
  constructor
  · rintro ⟨request, ⟨single, parsed⟩, answered⟩
    by_cases get : occurs "GET".toList r.head = true
    · rw [r.parse_head get] at parsed
      cases parsed
      obtain ⟨⟨held, fits⟩, api, found, status⟩ := (get_response_501 rfl).mp answered
      have short : r.path.length ≤ 11 := fits.resolve_left fun present => Bool.noConfusion (present.symm.trans api)
      exact ⟨⟨absent, single⟩, ⟨get, api, found, status⟩, (r.head_held_iff.mp held).1, short⟩
    · rw [r.parse_head_none get] at parsed
      cases parsed
  · rintro ⟨⟨_, single⟩, ⟨get, api, found, status⟩, small, short⟩
    have held : http_request.Held ⟨some r.method, some r.path, none, none⟩ := r.head_held_iff.mpr ⟨small, by omega⟩
    exact ⟨_, ⟨single, r.parse_head get⟩, (get_response_501 rfl).mpr ⟨⟨held, Or.inr short⟩, api, found, status⟩⟩

end handled

/-- A request that one `read` has delivered, with whatever the heap held behind it, is handled as its
method asks exactly when none of the searches finds something else in that text, and its method, its path and its type
fit their buffers; of the other methods none is known, and a 501 comes about by the name of a file. -/
theorem handled_iff (disk : Disk) (r : ClientRequest) (tail : Str) : Handles disk r (r.text ++ tail) ↔
    ∃ text, cstring (r.text ++ tail) = some text ∧
      if r.method = "GET".toList then Single r text ∧ r.path.length ≤ 19 ∧ PathFits r.path
      else if r.method = "POST".toList then
        OwnHeaders r text ∧ r.path.length ≤ 19 ∧ Within 49 (r.header "content-type".toList)
      else Single r text ∧ Impersonates disk r ∧ r.method.length ≤ 19 ∧ r.path.length ≤ 11 := by
  cases string : cstring (r.text ++ tail) with
  | none =>
    have overrun : server (r.text ++ tail) = none := by
      simp only [server, string, Option.bind_eq_bind, Option.bind_none]
    refine iff_of_false ?_ (by rintro ⟨_, ⟨⟩, _⟩)
    unfold Handles
    split_ifs
    · rw [GetHandled, overrun]
      rintro ⟨⟨⟩, _⟩
    · rw [PostHandled, overrun]
      rintro ⟨⟨⟩, _⟩
    · rw [notImplemented_iff, overrun]
      rintro ⟨_, ⟨⟩, _⟩
  | some text =>
    simp only [Option.some.injEq, exists_eq_left']
    unfold Handles
    split_ifs with get post
    · exact get_handled_iff string get
    · exact post_handled_iff string post
    · exact not_implemented_iff string disk

def getOfPost : ClientRequest where
  method := "GET".toList
  path := "/POST".toList
  version := "HTTP/1.1".toList
  fields := []
  body := []
  tokens := ⟨.of_all (by decide) (by decide), .of_all (by decide) (by decide), .of_all (by decide) (by decide)⟩
  lines := by decide
  plain := by decide
  framed := by decide

def postOfGet : ClientRequest where
  method := "POST".toList
  path := "/api/echo".toList
  version := "HTTP/1.1".toList
  fields := ["Content-Type: text".toList, "Content-Length: 13".toList]
  body := "id=1&name=GET".toList
  tokens := ⟨.of_all (by decide) (by decide), .of_all (by decide) (by decide), .of_all (by decide) (by decide)⟩
  lines := by decide
  plain := by decide
  framed := by decide +kernel

def delete : ClientRequest where
  method := "DELETE".toList
  path := "/".toList
  version := "HTTP/1.1".toList
  fields := []
  body := []
  tokens := ⟨.of_all (by decide) (by decide), .of_all (by decide) (by decide), .of_all (by decide) (by decide)⟩
  lines := by decide
  plain := by decide
  framed := by decide

/-- A GET comes to `post_method`, which is handed a POST without its content; a DELETE is not answered. -/
theorem method_not_alone :
    (server (getOfPost.text ++ ['\x00']) = some (.post ⟨some "GET".toList, some "/POST".toList, none, none⟩) ∧
      ∀ disk, ¬ Handles disk getOfPost (getOfPost.text ++ ['\x00'])) ∧
    (server (postOfGet.text ++ ['\x00']) = some (.post ⟨some "POST".toList, some "/api/echo".toList, none, none⟩) ∧
      ∀ disk, ¬ Handles disk postOfGet (postOfGet.text ++ ['\x00'])) ∧
    server (delete.text ++ ['\x00']) = none ∧ ∀ disk, ¬ Handles disk delete (delete.text ++ ['\x00']) := by
  have first : server (getOfPost.text ++ ['\x00']) = some (.post ⟨some "GET".toList, some "/POST".toList, none, none⟩) := by
    decide +kernel
  have second : server (postOfGet.text ++ ['\x00']) =
      some (.post ⟨some "POST".toList, some "/api/echo".toList, none, none⟩) := by decide +kernel
  have third : server (delete.text ++ ['\x00']) = none := by decide +kernel
  refine ⟨⟨first, fun disk => ?_⟩, ⟨second, fun disk => ?_⟩, third, fun disk => ?_⟩
  · rw [Handles, if_pos (show getOfPost.method = "GET".toList from rfl), GetHandled, first]
    rintro ⟨⟨⟩, _⟩
  · rw [Handles, if_neg (by decide), if_pos (show postOfGet.method = "POST".toList from rfl), PostHandled, second]
    rintro ⟨handled, _⟩
    exact nomatch (http_request.mk.inj (Handled.post.inj (Option.some.inj handled))).2.2.2
  · rw [Handles, if_neg (by decide), if_neg (by decide), notImplemented_iff, third]
    exact nofun

end CloudLab.Http
