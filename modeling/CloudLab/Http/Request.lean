import CloudLab.Library.CString

/-! The request parser of the web server and what it does with the bytes of one `read`: the
buffer holds the bytes received, and behind them whatever the heap held before. -/

namespace CloudLab.Http

open CloudLab Text

def N : Nat := 8192

/-- The bytes that `memcpy` reads: where they start in the buffer, and the length asked for. -/
structure Region where
  start : Nat
  length : Int
  deriving DecidableEq

/-- A member that is `none` has not been written. -/
structure http_request where
  method : Option Str
  path : Option Str
  content_type : Option Str
  content : Option Region
  deriving DecidableEq

/-- Where a header that must be there starts; `sscanf` on the null pointer is undefined, and so
is an offset from it. -/
def http_request_parse (read_buffer : Str) : Option http_request := do
  let text ← cstring read_buffer
  let method := (words text)[0]?
  let path := (words text)[1]?
  if (strstr "GET".toList text).isSome then
    some { method := method, path := path, content_type := none, content := none }
  else do
    let content_type ← strstr "Content-Type: ".toList text
    let content_l ← strstr "Content-Length: ".toList text
    let cont_l ← scanInt (text.drop (content_l + "Content-Length: ".length))
    let content ← strstr "\r\n\r\n".toList text
    some { method := method, path := path,
           content_type := (words (text.drop (content_type + "Content-Type: ".length))).head?,
           content := some { start := content + 4, length := cont_l } }

/-- The pieces of the buffer before each empty line; every turn of the loop passes one. -/
def request_arr : Nat → Str → List Str
  | 0, _ => []
  | fuel + 1, start_str =>
      match strstr "\r\n\r\n".toList start_str with
      | none => []
      | some len => start_str.take len :: request_arr fuel (start_str.drop (len + 4))

inductive Handled
  /-- The request that `post_method` answers. -/
  | post (request : http_request)
  /-- The requests that `get_method` answers, one after the other. -/
  | get (requests : List http_request)
  deriving DecidableEq

/-- `server`, from the buffer as `read` leaves it; `request_arr` has room for 10 requests. -/
def server (readbuffer : Str) : Option Handled := do
  let text ← cstring readbuffer
  if (strstr "POST".toList text).isSome then do
    let request ← http_request_parse readbuffer
    some (.post request)
  else if (request_arr text.length text).length ≤ 10 then do
    let requests ← (request_arr text.length text).mapM fun request => http_request_parse (request ++ ['\x00'])
    some (.get requests)
  else none

/-- The string that is in `content` after the copy, which a NUL follows. A negative length is a huge `size_t` to
`memcpy`. -/
def Region.copy (readbuffer : Str) (r : Region) : Option Str :=
  if 0 ≤ r.length ∧ r.start + r.length ≤ readbuffer.length then
    some (((readbuffer.drop r.start).take r.length.toNat).takeWhile (· ≠ '\x00'))
  else none

def idNameHere (s : Str) : Bool :=
  let id := s.drop "id=".length
  let rest := id.dropWhile Char.isDigit
  let name := rest.drop "&name=".length
  "id=".toList.isPrefixOf s && id.head?.any Char.isDigit &&
    "&name=".toList.isPrefixOf rest && name.head?.any Char.isAlphanum

def idName : Str → Bool
  | [] => false
  | c :: cs => idNameHere (c :: cs) || idName cs

/-- What `post_method` sends as the body, where `content` is the string in the request's
member of that name; none when it answers with an error page. -/
def post_method (request : http_request) (content : Str) : Option Str :=
  if request.path = some "/api/echo".toList then
    if idName content then some content else none
  else if request.path = some "/api/upload".toList then some content
  else none

/-! Which bytes a request's content is made of. -/

def Region.Inside (received : Str) (r : Region) : Prop := 0 ≤ r.length ∧ r.start + r.length ≤ received.length

/-- The parser comes to an end, a request that `post_method` answers has its content copied,
and what is copied comes from the bytes received; `tail` is the rest of the buffer. -/
def BodyReceived (received tail : Str) : Prop :=
  match server (received ++ tail) with
  | none => False
  | some (.post request) => ∃ r, request.content = some r ∧ r.Inside received
  | some (.get requests) => ∀ request ∈ requests, ∀ r, request.content = some r → r.Inside received

/-- What stands in the buffer before its first NUL announces no more than what was received:
either it is a POST whose first Content-Length is neither negative nor beyond the last byte
received, counted from its first empty line, or it has no POST, and GET in each of at most
ten pieces. -/
inductive Announced (received tail : Str) : Prop
  | post {text : Str} (string : cstring (received ++ tail) = some text)
      (post : occurs "POST".toList text) (get : ¬ occurs "GET".toList text)
      (content_type : occurs "Content-Type: ".toList text) {p q : Nat} {v : Int}
      (content_length : First "Content-Length: ".toList text p)
      (value : scanInt (text.drop (p + "Content-Length: ".length)) = some v)
      (empty_line : First "\r\n\r\n".toList text q)
      (low : 0 ≤ v) (high : q + 4 + v ≤ received.length)
  | get {text : Str} (string : cstring (received ++ tail) = some text) (post : ¬ occurs "POST".toList text)
      (few : (request_arr text.length text).length ≤ 10)
      (get : ∀ request ∈ request_arr text.length text, occurs "GET".toList request)

theorem parse_get {read_buffer text : Str} (string : cstring read_buffer = some text)
    (get : occurs "GET".toList text = true) :
    http_request_parse read_buffer = some ⟨(words text)[0]?, (words text)[1]?, none, none⟩ := by
  have present : (strstr "GET".toList text).isSome = true := by rw [strstr_isSome, get]
  simp only [http_request_parse, string, Option.bind_eq_bind, Option.bind_some, if_pos present]

theorem parse_headers_iff {read_buffer text : Str} (string : cstring read_buffer = some text)
    (get : ¬ occurs "GET".toList text = true) (request : http_request) :
    http_request_parse read_buffer = some request ↔
      ∃ t p q v, First "Content-Type: ".toList text t ∧ First "Content-Length: ".toList text p ∧
        scanInt (text.drop (p + "Content-Length: ".length)) = some v ∧ First "\r\n\r\n".toList text q ∧
        request = ⟨(words text)[0]?, (words text)[1]?, (words (text.drop (t + "Content-Type: ".length))).head?, some ⟨q + 4, v⟩⟩ := by
  have absent : ¬ (strstr "GET".toList text).isSome = true := by rwa [strstr_isSome]
  simp only [http_request_parse, string, Option.bind_eq_bind, Option.bind_some, if_neg absent]
  constructor
  · intro parsed
    obtain ⟨t, type, parsed⟩ := Option.bind_eq_some_iff.mp parsed
    obtain ⟨p, length_, parsed⟩ := Option.bind_eq_some_iff.mp parsed
    obtain ⟨v, value, parsed⟩ := Option.bind_eq_some_iff.mp parsed
    obtain ⟨q, line, parsed⟩ := Option.bind_eq_some_iff.mp parsed
    exact ⟨t, p, q, v, strstr_first type, strstr_first length_, value, strstr_first line, (Option.some.inj parsed).symm⟩
  · rintro ⟨t, p, q, v, type, length_, value, line, rfl⟩
    rw [← strstr_eq_some_iff] at type length_ line
    simp only [type, length_, value, line, Option.bind_some]

theorem parse_content_iff {read_buffer text : Str} (string : cstring read_buffer = some text)
    (get : ¬ occurs "GET".toList text = true) (r : Region) :
    (∃ request, http_request_parse read_buffer = some request ∧ request.content = some r) ↔
      occurs "Content-Type: ".toList text = true ∧ ∃ p q, First "Content-Length: ".toList text p ∧
        scanInt (text.drop (p + "Content-Length: ".length)) = some r.length ∧
        First "\r\n\r\n".toList text q ∧ r.start = q + 4 := by
  simp only [parse_headers_iff string get]
  constructor
  · rintro ⟨_, ⟨t, p, q, v, type, length_, value, line, rfl⟩, content⟩
    cases content
    exact ⟨occurs_at type.here, p, q, length_, value, line, rfl⟩
  · rintro ⟨type, p, q, length_, value, line, start⟩
    obtain ⟨t, found⟩ := strstr_some type
    obtain ⟨r_start, r_length⟩ := r
    cases start
    exact ⟨_, ⟨t, p, q, _, strstr_first found, length_, value, line, rfl⟩, rfl⟩

theorem request_arr_piece {fuel : Nat} {text : Str} (plain : '\x00' ∉ text) :
    ∀ request ∈ request_arr fuel text, '\x00' ∉ request ∧ occurs "\r\n\r\n".toList request = false := by
  induction fuel generalizing text with
  | zero => exact fun request member => nomatch member
  | succ fuel ih =>
    unfold request_arr
    cases found : strstr "\r\n\r\n".toList text with
    | none => exact fun request member => nomatch member
    | some len =>
      intro request member
      rcases List.mem_cons.mp member with rfl | later
      · exact ⟨fun nul => plain (List.mem_of_mem_take nul), (strstr_first found).take (by decide)⟩
      · exact ih (fun nul => plain (List.mem_of_mem_drop nul)) request later

theorem parse_piece {request : Str} (plain : '\x00' ∉ request)
    (line : occurs "\r\n\r\n".toList request = false) :
    (occurs "GET".toList request = true →
      ∃ parsed, http_request_parse (request ++ ['\x00']) = some parsed ∧ parsed.content = none) ∧
    (¬ occurs "GET".toList request = true → http_request_parse (request ++ ['\x00']) = none) := by
  have string : cstring (request ++ ['\x00']) = some request := cstring_append plain []
  constructor
  · intro get
    exact ⟨_, parse_get string get, rfl⟩
  · intro get
    have absent : ¬ (strstr "GET".toList request).isSome = true := by rwa [strstr_isSome]
    simp only [http_request_parse, string, Option.bind_eq_bind, Option.bind_some, if_neg absent,
      strstr_none line, Option.bind_none, Option.bind_fun_none]

theorem parse_pieces {pieces : List Str}
    (each : ∀ request ∈ pieces, '\x00' ∉ request ∧ occurs "\r\n\r\n".toList request = false)
    (get : ∀ request ∈ pieces, occurs "GET".toList request = true) :
    ∃ requests, pieces.mapM (fun request => http_request_parse (request ++ ['\x00'])) = some requests := by
  induction pieces with
  | nil => exact ⟨[], rfl⟩
  | cons piece pieces ih =>
    obtain ⟨plain, line⟩ := each piece (by simp)
    obtain ⟨parsed, first, _⟩ := (parse_piece plain line).1 (get piece (by simp))
    obtain ⟨requests, others⟩ := ih (fun request member => each request (List.mem_cons_of_mem _ member))
      (fun request member => get request (List.mem_cons_of_mem _ member))
    exact ⟨parsed :: requests, by rw [List.mapM_cons, first, others]; rfl⟩

theorem pieces_parsed {pieces : List Str} {requests : List http_request}
    (each : ∀ request ∈ pieces, '\x00' ∉ request ∧ occurs "\r\n\r\n".toList request = false)
    (parsed : pieces.mapM (fun request => http_request_parse (request ++ ['\x00'])) = some requests) :
    (∀ request ∈ pieces, occurs "GET".toList request = true) ∧ ∀ request ∈ requests, request.content = none := by
  induction pieces generalizing requests with
  | nil =>
    cases parsed
    exact ⟨fun request member => (nomatch member), fun request member => (nomatch member)⟩
  | cons piece pieces ih =>
    obtain ⟨plain, line⟩ := each piece (by simp)
    rw [List.mapM_cons] at parsed
    obtain ⟨first, here, parsed⟩ := Option.bind_eq_some_iff.mp parsed
    obtain ⟨others, later, parsed⟩ := Option.bind_eq_some_iff.mp parsed
    cases parsed
    obtain ⟨gets, contents⟩ := ih (fun request member => each request (List.mem_cons_of_mem _ member)) later
    have get : occurs "GET".toList piece = true := by
      by_contra absent
      rw [(parse_piece plain line).2 absent] at here
      cases here
    obtain ⟨parsed, same, content⟩ := (parse_piece plain line).1 get
    rw [here] at same
    cases same
    constructor
    · exact List.forall_mem_cons.mpr ⟨get, gets⟩
    · exact List.forall_mem_cons.mpr ⟨content, contents⟩

section handled

variable {received tail text : Str} (string : cstring (received ++ tail) = some text)

include string

theorem server_post (post : occurs "POST".toList text = true) :
    server (received ++ tail) = (http_request_parse (received ++ tail)).map .post := by
  have present : (strstr "POST".toList text).isSome = true := by rw [strstr_isSome, post]
  simp only [server, string, Option.bind_eq_bind, Option.bind_some, if_pos present]
  cases http_request_parse (received ++ tail) <;> rfl

theorem server_get (post : ¬ occurs "POST".toList text = true) : server (received ++ tail) =
    if (request_arr text.length text).length ≤ 10 then
      ((request_arr text.length text).mapM fun request => http_request_parse (request ++ ['\x00'])).map .get
    else none := by
  have absent : ¬ (strstr "POST".toList text).isSome = true := by rwa [strstr_isSome]
  simp only [server, string, Option.bind_eq_bind, Option.bind_some, if_neg absent]
  congr 1
  cases (request_arr text.length text).mapM fun request => http_request_parse (request ++ ['\x00']) <;> rfl

theorem post_received_iff (post : occurs "POST".toList text = true) :
    BodyReceived received tail ↔ Announced received tail := by
  unfold BodyReceived
  rw [server_post string post]
  by_cases get : occurs "GET".toList text = true
  · rw [parse_get string get]
    constructor
    · rintro ⟨r, content, _⟩
      cases content
    · intro announced
      cases announced with
      | post string' _ noGet =>
        rw [string] at string'
        cases string'
        exact absurd get noGet
      | get string' noPost =>
        rw [string] at string'
        cases string'
        exact absurd post noPost
  · have content := parse_content_iff string get
    constructor
    · intro inside
      cases parsed : http_request_parse (received ++ tail) with
      | none =>
        rw [parsed] at inside
        exact inside.elim
      | some request =>
        rw [parsed] at inside
        obtain ⟨r, written, low, high⟩ := inside
        obtain ⟨type, p, q, length_, value, line, start⟩ := (content r).mp ⟨request, parsed, written⟩
        rw [start] at high
        exact Announced.post string post get type length_ value line low (by omega)
    · intro announced
      cases announced with
      | get string' noPost =>
        rw [string] at string'
        cases string'
        exact absurd post noPost
      | @post _ string' _ _ type p q v length_ value line low high =>
        rw [string] at string'
        cases string'
        obtain ⟨request, parsed, written⟩ := (content ⟨q + 4, v⟩).mpr ⟨type, p, q, length_, value, line, rfl⟩
        rw [parsed]
        exact ⟨_, written, low, by show ((q + 4 : Nat) : Int) + v ≤ _; omega⟩

theorem get_received_iff (post : ¬ occurs "POST".toList text = true) :
    BodyReceived received tail ↔ Announced received tail := by
  have each : ∀ request ∈ request_arr text.length text,
      '\x00' ∉ request ∧ occurs "\r\n\r\n".toList request = false := request_arr_piece (nul_not_mem string)
  unfold BodyReceived
  rw [server_get string post]
  constructor
  · intro inside
    by_cases few : (request_arr text.length text).length ≤ 10
    · rw [if_pos few] at inside
      cases parsed : (request_arr text.length text).mapM fun request => http_request_parse (request ++ ['\x00']) with
      | none =>
        rw [parsed] at inside
        exact inside.elim
      | some requests => exact Announced.get string post few (pieces_parsed each parsed).1
    · rw [if_neg few] at inside
      exact inside.elim
  · intro announced
    cases announced with
    | post string' post' =>
      rw [string] at string'
      cases string'
      exact absurd post' post
    | get string' _ few get =>
      rw [string] at string'
      cases string'
      obtain ⟨requests, parsed⟩ := parse_pieces each get
      rw [if_pos few, parsed]
      intro request member r written
      rw [(pieces_parsed each parsed).2 request member] at written
      cases written

end handled

/-- The content comes from the bytes received exactly when the request announces no more than
was received. -/
theorem body_received_iff (received tail : Str) : BodyReceived received tail ↔ Announced received tail := by
  cases string : cstring (received ++ tail) with
  | some text =>
    by_cases post : occurs "POST".toList text = true
    · exact post_received_iff string post
    · exact get_received_iff string post
  | none =>
    -- no NUL ends the buffer, and the searches run past it
    have overrun : server (received ++ tail) = none := by
      simp only [server, string, Option.bind_eq_bind, Option.bind_none]
    unfold BodyReceived
    rw [overrun]
    constructor
    · exact False.elim
    · intro announced
      cases announced with
      | post string' => rw [string] at string'; cases string'
      | get string' => rw [string] at string'; cases string'

structure Headed (received : Str) : Prop where
  size : received.length ≤ N
  content_type : occurs "Content-Type: ".toList received
  content_length : ∃ n : Int, occurs ("Content-Length: ".toList ++ decimal n) received
  empty_line : occurs "\r\n\r\n".toList received

def announcesNine : Str :=
  "POST /api/upload HTTP/1.1\r\nContent-Type: text\r\nContent-Length: 9\r\n\r\nabc".toList

def leftover : Str := "secret".toList ++ List.replicate (N + 1 - announcesNine.length - 6) '\x00'

/-- What the heap held before is sent to the client. -/
theorem body_leaks : Headed announcesNine ∧ announcesNine.length + leftover.length = N + 1 ∧
    (∃ request r, server (announcesNine ++ leftover) = some (.post request) ∧ request.content = some r ∧
      (r.copy (announcesNine ++ leftover)).bind (post_method request) = some "abcsecret".toList) ∧
    ¬ BodyReceived announcesNine leftover := by
  have served : server (announcesNine ++ leftover) = some (.post
      ⟨some "POST".toList, some "/api/upload".toList, some "text".toList, some ⟨68, 9⟩⟩) := by decide +kernel
  refine ⟨⟨by decide, by decide, ⟨9, by decide⟩, by decide⟩, by decide +kernel, ⟨_, _, served, rfl, by decide +kernel⟩, ?_⟩
  unfold BodyReceived
  rw [served]
  rintro ⟨r, content, inside⟩
  cases content
  revert inside
  unfold Region.Inside
  decide

end CloudLab.Http
