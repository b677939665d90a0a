import CloudLab.Library.Codec
import CloudLab.Library.Wire
import CloudLab.Http.Length
import CloudLab.Http.Method
import CloudLab.Http.Pipelined

/-! The other end of the connection: a client that reads a status line, header fields up to the empty line and
as many bytes as Content-Length says, and what it makes of the server's answers. -/

namespace CloudLab.Http

open CloudLab Text

def fieldOf (name : Str) (fields : List Str) : Option Str :=
  (fields.find? fun field => fieldName field = name).map fieldValue

def readResponse (s : Str) : Option (Response × Str) := do
  let head ← takeHead s.length s
  let line ← head.1.head?
  let status ← (words line)[1]?
  let status_code ← stoi status
  let content_type ← fieldOf "content-type".toList head.1.tail
  let content_length ← fieldOf "content-length".toList head.1.tail
  let length ← stoi content_length
  if 0 ≤ length ∧ length ≤ head.2.length then
    some (⟨status_code.toNat, content_type, content_length, head.2.take length.toNat⟩, head.2.drop length.toNat)
  else none

def Reads (rs : List Response) : Prop := takeValues readResponse rs.length (rs.flatMap Response.text) = some (rs, [])

/-- What every response of the server has: a status of three digits, a type without blanks, and for the length some
number that an `int` holds. -/
structure Printable (r : Response) : Prop where
  status : r.status_code < 1000
  content_type : Token r.content_type
  content_length : ∃ n : Int, r.content_length = decimal n ∧ -2 ^ 31 ≤ n ∧ n < 2 ^ 31

/-! The client on one response. -/

theorem takeWhile_until {c : Char} {name : Str} (plain : c ∉ name) (rest : Str) :
    (name ++ c :: rest).takeWhile (· ≠ c) = name ∧ (name ++ c :: rest).dropWhile (· ≠ c) = c :: rest := by
  have all : ∀ d ∈ name, decide (d ≠ c) = true := fun d member => decide_eq_true fun same => plain (same ▸ member)
  constructor
  · rw [List.takeWhile_append_of_pos all]
    simp
  · rw [List.dropWhile_append_of_pos all]
    simp

theorem dropWhile_token {s : Str} (token : Token s) : s.dropWhile isspace = s := by
  obtain ⟨c, cs, rfl⟩ := List.exists_cons_of_ne_nil token.1
  have first := token.2 c List.mem_cons_self
  simp [first]

theorem field_parts {name value : Str} (plain : ':' ∉ name) (token : Token value) :
    fieldName (name ++ ": ".toList ++ value) = name.map Char.toLower ∧ fieldValue (name ++ ": ".toList ++ value) = value := by
  have split : name ++ ": ".toList ++ value = name ++ ':' :: ' ' :: value := by simp
  obtain ⟨before, after⟩ := takeWhile_until plain (' ' :: value)
  have reversed : Token value.reverse :=
    ⟨fun empty => token.1 (List.reverse_eq_nil_iff.mp empty), fun c member => token.2 c (List.mem_reverse.mp member)⟩
  have blank : (' ' :: value).dropWhile isspace = value := by
    rw [List.dropWhile_cons_of_pos (by decide)]
    exact dropWhile_token token
  constructor
  · rw [split, fieldName, before]
  · rw [split, fieldValue, after, List.tail_cons, blank, dropWhile_token reversed, List.reverse_reverse]

theorem cr_not_mem_token {s : Str} (token : Token s) : '\r' ∉ s := fun member => by
  have blank := token.2 _ member
  revert blank
  decide

theorem token_decimal (n : Int) : Token (decimal n) := by
  refine ⟨decimal_ne_nil n, fun c member => ?_⟩
  rcases mem_decimal member with rfl | digit
  · decide
  · exact digit_not_isspace digit

theorem cr_not_mem_message (status_code : Nat) : '\r' ∉ http_get_response_message status_code := by
  unfold http_get_response_message
  split <;> decide

def headOf (r : Response) : List Str :=
  ["HTTP/1.1 ".toList ++ decimal r.status_code ++ ' ' :: http_get_response_message r.status_code,
    "Content-Type".toList ++ ": ".toList ++ r.content_type, "Content-Length".toList ++ ": ".toList ++ r.content_length]

theorem text_headOf (r : Response) :
    r.text = ((headOf r).flatMap fun line => line ++ "\r\n".toList) ++ ("\r\n".toList ++ r.body) := by
  unfold Response.text headOf http_start_response http_send_header http_end_headers
  generalize "\r\n".toList = line_break
  generalize "HTTP/1.1 ".toList = version
  simp only [List.flatMap_cons, List.flatMap_nil, List.append_nil, List.append_assoc, List.cons_append]

theorem status_word (status_code : Nat) (message : Str) :
    (words ("HTTP/1.1 ".toList ++ decimal status_code ++ ' ' :: message))[1]? = some (decimal status_code) := by
  have split : "HTTP/1.1 ".toList ++ decimal status_code ++ ' ' :: message =
      "HTTP/1.1".toList ++ ' ' :: (decimal status_code ++ ' ' :: message) := by
    rw [List.append_assoc]
    rfl
  rw [split, words_token_space (Token.of_all (by decide) (by decide)) (by decide),
    words_token_space (token_decimal status_code) (by decide)]
  rfl

theorem fieldOf_cons (name field : Str) (fields : List Str) :
    fieldOf name (field :: fields) = if fieldName field = name then some (fieldValue field) else fieldOf name fields := by
  unfold fieldOf
  by_cases same : fieldName field = name
  · rw [if_pos same, List.find?_cons, decide_eq_true same]
    rfl
  · rw [if_neg same, List.find?_cons, decide_eq_false same]

theorem fieldOf_first {field name value : Str} (parts : fieldName field = name ∧ fieldValue field = value)
    (fields : List Str) : fieldOf name (field :: fields) = some value := by
  rw [fieldOf_cons, if_pos parts.1, parts.2]

theorem fieldOf_second {first field other name value : Str} (before : fieldName first = other) (different : other ≠ name)
    (parts : fieldName field = name ∧ fieldValue field = value) (fields : List Str) :
    fieldOf name (first :: field :: fields) = some value := by
  have passed : fieldName first ≠ name := by
    rw [before]
    exact different
  rw [fieldOf_cons, if_neg passed, fieldOf_first parts]

theorem type_parts {value : Str} (token : Token value) :
    fieldName ("Content-Type".toList ++ ": ".toList ++ value) = "content-type".toList ∧
      fieldValue ("Content-Type".toList ++ ": ".toList ++ value) = value := by
  have lower : "Content-Type".toList.map Char.toLower = "content-type".toList := by decide
  rw [← lower]
  exact field_parts (by decide) token

theorem length_parts {value : Str} (token : Token value) :
    fieldName ("Content-Length".toList ++ ": ".toList ++ value) = "content-length".toList ∧
      fieldValue ("Content-Length".toList ++ ": ".toList ++ value) = value := by
  have lower : "Content-Length".toList.map Char.toLower = "content-length".toList := by decide
  rw [← lower]
  exact field_parts (by decide) token

theorem readResponse_text {r : Response} (printable : Printable r) (rest : Str) :
    readResponse (r.text ++ rest) = (stoi r.content_length).bind fun length =>
      if 0 ≤ length ∧ length ≤ (r.body ++ rest).length then
        some ({ r with body := (r.body ++ rest).take length.toNat }, (r.body ++ rest).drop length.toNat)
      else none := by
  obtain ⟨n, announced, _⟩ := printable.content_length
  have number : Token r.content_length := announced ▸ token_decimal n
  have each : ∀ line ∈ headOf r, line ≠ [] ∧ '\r' ∉ line := by
    intro line member
    rcases List.mem_cons.mp member with rfl | member
    · have code := cr_not_mem_token (token_decimal r.status_code)
      have message := cr_not_mem_message r.status_code
      simp [code, message]
    rcases List.mem_cons.mp member with rfl | member
    · have type := cr_not_mem_token printable.content_type
      simp [type]
    · obtain rfl := List.mem_singleton.mp member
      have plain := cr_not_mem_token number
      simp [plain]
  have split : r.text ++ rest =
      ((headOf r).flatMap fun line => line ++ "\r\n".toList) ++ ("\r\n".toList ++ (r.body ++ rest)) := by
    rw [text_headOf]
    simp only [List.append_assoc]
  have enough : (headOf r).length < (r.text ++ rest).length := by
    rw [split]
    simp [headOf]
  have head : takeHead (r.text ++ rest).length (r.text ++ rest) = some (headOf r, r.body ++ rest) := by
    have found := takeHead_lines each enough (r.body ++ rest)
    rwa [← split] at found
  have status : stoi (decimal r.status_code) = some (r.status_code : Int) := by
    have small := printable.status
    exact stoi_decimal (by omega) (by omega)
  have type := type_parts printable.content_type
  have first := fieldOf_first type ["Content-Length".toList ++ ": ".toList ++ r.content_length]
  have second := fieldOf_second type.1 (by decide) (length_parts number) []
  simp only [readResponse, head, headOf, Option.bind_eq_bind, Option.bind_some, List.head?_cons, status_word, status,
    List.tail_cons, first, second, Int.toNat_natCast]

theorem Printable.exact_iff {r : Response} (printable : Printable r) :
    r.Exact ↔ stoi r.content_length = some (r.body.length : Int) := by
  obtain ⟨n, announced, low, high⟩ := printable.content_length
  rw [Response.Exact, announced, stoi_decimal low high, Option.some.injEq]
  exact ⟨fun same => decimal_injective same, fun same => congrArg decimal same⟩

def responseCodec : Codec Response Char where
  Valid r := Printable r ∧ r.Exact
  encode := Response.text
  decode := readResponse
  encode_ne_nil := by
    intro r _ empty
    rw [text_headOf] at empty
    exact absurd (List.append_eq_nil_iff.mp (List.append_eq_nil_iff.mp empty).2).1 (by decide)
  decode_encode := by
    intro r rest valid
    have fits : (0 : Int) ≤ r.body.length ∧ (r.body.length : Int) ≤ (r.body ++ rest).length := by
      rw [List.length_append]
      omega
    rw [readResponse_text valid.1, valid.1.exact_iff.mp valid.2, Option.bind_some, if_pos fits, Int.toNat_natCast,
      List.take_left, List.drop_left]

theorem readResponse_exact {r : Response} (printable : Printable r) {rest left : Str}
    (found : readResponse (r.text ++ rest) = some (r, left)) : r.Exact := by
  rw [readResponse_text printable] at found
  obtain ⟨length, announced, found⟩ := Option.bind_eq_some_iff.mp found
  split at found
  · next fits =>
    have body := congrArg (fun value => value.1.body.length) (Option.some.inj found)
    simp only [List.length_take] at body
    rw [printable.exact_iff, announced, Option.some.injEq]
    omega
  · cases found

/-- The client reads what the server answers exactly when each response announces the length of its body. -/
theorem reads_iff {rs : List Response} (printable : ∀ r ∈ rs, Printable r) : Reads rs ↔ ∀ r ∈ rs, r.Exact := by
  constructor
  · intro reads
    unfold Reads at reads
    induction rs with
    | nil => exact fun r member => absurd member List.not_mem_nil
    | cons r rs ih =>
      obtain ⟨first, others⟩ := List.forall_mem_cons.mp printable
      rw [List.length_cons, List.flatMap_cons, takeValues] at reads
      obtain ⟨⟨response, left⟩, taken, reads⟩ := Option.bind_eq_some_iff.mp reads
      obtain ⟨⟨more, last⟩, later, same⟩ := Option.map_eq_some_iff.mp reads
      cases same
      have exact_ := readResponse_exact first taken
      have again := responseCodec.decode_encode (more.flatMap Response.text) ⟨first, exact_⟩
      change readResponse (response.text ++ more.flatMap Response.text) = _ at again
      rw [taken] at again
      cases again
      exact List.forall_mem_cons.mpr ⟨exact_, ih others later⟩
  · intro each
    have found := responseCodec.takeValues_encode (fun r member => ⟨printable r member, each r member⟩) []
    rwa [List.append_nil] at found

theorem take_toDigits {size : Nat} (positive : 0 < size) (n : Nat) :
    ∃ m, (Nat.toDigits 10 n).take size = Nat.toDigits 10 m ∧ (0 < n → 0 < m) := by
  induction n using Nat.strong_induction_on with
  | _ n ih =>
    by_cases short : (Nat.toDigits 10 n).length ≤ size
    · exact ⟨n, List.take_of_length_le short, id⟩
    · have long : 10 ≤ n := by
        by_contra small
        rw [Nat.toDigits_of_lt_base (by omega)] at short
        exact short positive
      have digits := Nat.toDigits_of_base_le (by decide) long
      obtain ⟨m, same, kept⟩ := ih (n / 10) (Nat.div_lt_self (by omega) (by decide))
      rw [digits, List.length_append, List.length_singleton] at short
      refine ⟨m, ?_, fun _ => kept (Nat.div_pos long (by decide))⟩
      rw [digits, List.take_append_of_le_length (by omega), same]

theorem lengthText_decimal (length : Int) : ∃ n : Int, lengthText length = decimal n ∧ -2 ^ 31 ≤ n ∧ n < 2 ^ 31 := by
  unfold lengthText snprintf decimal
  split
  · next negative =>
    obtain ⟨m, same, kept⟩ := @take_toDigits 8 (by decide) length.natAbs
    have positive := kept (by omega)
    have small : m < 10 ^ 8 := by
      have size := congrArg List.length same
      rw [List.length_take] at size
      exact (Nat.length_toDigits_le_iff (by decide) (by decide)).mp (by omega)
    refine ⟨-m, ?_, by omega, by omega⟩
    rw [if_pos (by omega), Int.natAbs_neg, Int.natAbs_natCast, ← same]
    rfl
  · obtain ⟨m, same, _⟩ := @take_toDigits 9 (by decide) length.natAbs
    have small : m < 10 ^ 9 := by
      have size := congrArg List.length same
      rw [List.length_take] at size
      exact (Nat.length_toDigits_le_iff (by decide) (by decide)).mp (by omega)
    refine ⟨m, ?_, by omega, by omega⟩
    rw [if_neg (by omega), Int.natAbs_natCast, ← same]

theorem mime_type_token (file_name : Str) : Token (http_get_mime_type file_name) := by
  have known : ∀ type ∈ ["text/plain".toList, "text/html".toList, "image/jpeg".toList, "image/png".toList,
      "text/css".toList, "text/javascript".toList, "application/pdf".toList, "application/json".toList], Token type :=
    fun type member => Token.of_all (by revert type; decide) (by revert type; decide)
  apply known
  unfold http_get_mime_type
  split
  · exact List.mem_cons_self
  · split_ifs <;> decide

theorem echo_back_printable {disk : Disk} {path : Str} {status : Nat} {r : Response} (small : status < 1000)
    (answered : echo_back disk path status = some r) : Printable r := by
  unfold echo_back at answered
  split at answered
  · obtain ⟨object, _, same⟩ := Option.bind_eq_some_iff.mp answered
    cases same
    exact ⟨(by decide : 200 < 1000), mime_type_token "data.json".toList, lengthText_decimal _⟩
  · cases answered
    exact ⟨small, mime_type_token path, lengthText_decimal _⟩

theorem route_status {disk : Disk} {path file : Str} {status : Nat} (routed : route disk path = some (file, status)) :
    status < 1000 := by
  have numbered : ∀ file, get_status_of_the_file file < 1000 := by
    intro file
    unfold get_status_of_the_file
    split_ifs <;> decide
  unfold route at routed
  split at routed
  · rcases turn_to_api_cases routed with ⟨_, rfl⟩ | ⟨_, rfl⟩ | ⟨_, _, _, _, ⟨_, rfl⟩ | ⟨_, rfl⟩⟩ <;> decide
  · next called =>
    cases routed
    simp only [get_method] at called
    split_ifs at called
    all_goals cases called
    · decide
    · decide
    · exact numbered _

theorem get_response_printable {disk : Disk} {request : http_request} {r : Response}
    (answered : get_response disk request = some r) : Printable r := by
  obtain ⟨_, _, _, _, status, _, routed, echoed⟩ := (get_response_iff r).mp answered
  exact echo_back_printable (route_status routed) echoed

/-! Both ends together. -/

/-- What is sent for the path is sent whole: its strings fit, and the file has the size of the buffer at most. -/
def Whole (disk : Disk) (path : Str) : Prop := path.length ≤ 19 ∧ PathFits path ∧ Short disk (page disk path)

theorem GetRequest.held_iff (request : GetRequest) : request.parsed.Held ↔ request.path.length ≤ 19 := by
  rw [http_request.held_iff]
  simp [GetRequest.parsed, Within]

theorem GetRequest.whole_iff (disk : Disk) (request : GetRequest) :
    (∃ r, get_response disk request.parsed = some r ∧ r.Exact) ↔ Whole disk request.path := by
  have named (path : Str) : request.parsed.path = some path ↔ request.path = path := Option.some_inj
  rw [get_response_exact_iff, request.held_iff]
  simp only [named, exists_eq_left', Whole]

section pipelined

variable {disk : Disk} {requests : List GetRequest} {rs : List Response}

theorem server_received (few : requests.length ≤ 10) (post : occurs "POST".toList (received requests) = false) (rest : Str) :
    server (received requests ++ '\x00' :: rest) = some (.get (requests.map GetRequest.parsed)) := by
  have string := cstring_append (received_plain requests) rest
  have pieces : request_arr (received requests).length (received requests) = requests.map GetRequest.line :=
    request_arr_received requests (length_le_received requests)
  rw [server_get string (by rw [post]; exact Bool.false_ne_true), pieces, List.length_map, if_pos few, parse_lines]
  rfl

theorem responses_received (few : requests.length ≤ 10) (post : occurs "POST".toList (received requests) = false)
    (rest : Str) : responses disk (received requests ++ '\x00' :: rest) =
      requests.mapM fun request => get_response disk request.parsed := by
  rw [responses, server_received few post rest, Option.bind_some]
  dsimp only
  rw [List.mapM_map]
  rfl

theorem answered_all_iff : (∃ rs, (requests.mapM fun request => get_response disk request.parsed) = some rs ∧
    ∀ r ∈ rs, r.Exact) ↔ ∀ request ∈ requests, Whole disk request.path := by
  induction requests with
  | nil => exact iff_of_true ⟨[], rfl, List.forall_mem_nil _⟩ (List.forall_mem_nil _)
  | cons request requests ih =>
    rw [List.forall_mem_cons, ← ih, ← request.whole_iff]
    constructor
    · rintro ⟨rs, answered, exact_⟩
      rw [List.mapM_cons] at answered
      obtain ⟨r, first, answered⟩ := Option.bind_eq_some_iff.mp answered
      obtain ⟨others, later, same⟩ := Option.bind_eq_some_iff.mp answered
      cases same
      rw [List.forall_mem_cons] at exact_
      exact ⟨⟨r, first, exact_.1⟩, others, later, exact_.2⟩
    · rintro ⟨⟨r, first, announced⟩, rs, later, exact_⟩
      refine ⟨r :: rs, ?_, List.forall_mem_cons.mpr ⟨announced, exact_⟩⟩
      rw [List.mapM_cons, first, later]
      rfl

theorem answered_printable (answered : (requests.mapM fun request => get_response disk request.parsed) = some rs) :
    ∀ r ∈ rs, Printable r := by
  induction requests generalizing rs with
  | nil =>
    cases answered
    exact List.forall_mem_nil _
  | cons request requests ih =>
    rw [List.mapM_cons] at answered
    obtain ⟨r, first, answered⟩ := Option.bind_eq_some_iff.mp answered
    obtain ⟨others, later, same⟩ := Option.bind_eq_some_iff.mp answered
    cases same
    exact List.forall_mem_cons.mpr ⟨get_response_printable first, ih later⟩

end pipelined

/-- Up to ten requests of one `read`, with a NUL behind them: each is answered for its own path, in order, and the
client reads just these responses from the connection exactly when what is sent for each path is sent whole. -/
theorem pipelined_read_back (disk : Disk) (requests : List GetRequest) (rest : Str) (few : requests.length ≤ 10)
    (post : occurs "POST".toList (received requests) = false) :
    responses disk (received requests ++ '\x00' :: rest) =
      (requests.mapM fun request => get_response disk request.parsed) ∧
    ((∃ rs, responses disk (received requests ++ '\x00' :: rest) = some rs ∧ Reads rs) ↔
      ∀ request ∈ requests, Whole disk request.path) := by
  have each := @responses_received disk requests few post rest
  refine ⟨each, ?_⟩
  rw [each, ← answered_all_iff]
  constructor
  · rintro ⟨rs, answered, reads⟩
    exact ⟨rs, answered, (reads_iff (answered_printable answered)).mp reads⟩
  · rintro ⟨rs, answered, exact_⟩
    exact ⟨rs, answered, (reads_iff (answered_printable answered)).mpr exact_⟩

theorem pipelined_read_back_two :
    let page : Response := ⟨200, "text/html".toList, "3".toList, "xxx".toList⟩
    responses (frontPageOf 3) (received [frontPage, frontPage] ++ ['\x00']) = some [page, page] ∧ Reads [page, page] := by
  intro response
  have here : frontPageOf 3 (page (frontPageOf 3) frontPage.path) = some (.file "xxx".toList) := by decide +kernel
  have whole : Whole (frontPageOf 3) frontPage.path := by
    refine ⟨by decide, Or.inr (by decide), fun content found => ?_⟩
    rw [here] at found
    cases found
    exact Or.inl (by decide)
  have both := pipelined_read_back (frontPageOf 3) [frontPage, frontPage] [] (by decide) (by decide)
  have answered : responses (frontPageOf 3) (received [frontPage, frontPage] ++ ['\x00']) = some [response, response] := by
    decide +kernel
  obtain ⟨rs, same, reads⟩ := both.2.mpr (List.forall_mem_cons.mpr ⟨whole, List.forall_mem_singleton.mpr whole⟩)
  rw [answered] at same
  cases same
  exact ⟨answered, reads⟩

end CloudLab.Http
