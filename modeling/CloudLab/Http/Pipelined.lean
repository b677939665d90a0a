import CloudLab.Http.Request

/-! GET requests that one `read` delivers together. The buffer is not terminated where the bytes
received end, so a search that finds nothing goes on into what the heap held before. -/

namespace CloudLab.Http

open CloudLab Text

structure GetRequest where
  path : Str
  rest : Str
  token : Token path
  separate : ∀ c, rest.head? = some c → isspace c = true
  plain : '\x00' ∉ path ++ rest
  ended : First "\r\n\r\n".toList ("GET ".toList ++ path ++ rest ++ "\r\n\r\n".toList) ("GET ".toList ++ path ++ rest).length

namespace GetRequest

def line (r : GetRequest) : Str := "GET ".toList ++ r.path ++ r.rest

def text (r : GetRequest) : Str := r.line ++ "\r\n\r\n".toList

def parsed (r : GetRequest) : http_request := ⟨some "GET".toList, some r.path, none, none⟩

end GetRequest

def received (requests : List GetRequest) : Str := requests.flatMap GetRequest.text

/-- What the searches take for the string, should it run to the end of the buffer. -/
def textOf (readbuffer : Str) : Str := readbuffer.takeWhile (· ≠ '\x00')

/-- How much of the buffer `http_request_parse` looks at: `sscanf` takes the length of its string before anything else,
and `memcpy` reads all that it copies. -/
def parseExamines (text : Str) : Nat :=
  match (http_request_parse (text ++ ['\x00'])).bind http_request.content with
  | some r => max (text.length + 1) (r.start + r.length.toNat)
  | none => text.length + 1

/-- And how much the thread looks at, which searches for POST first: a search that finds something need not look behind
it, and one that finds nothing looks at the NUL. -/
def examines (readbuffer : Str) : Nat :=
  match strstr "POST".toList (textOf readbuffer) with
  | some post => max (post + 4) (parseExamines (textOf readbuffer))
  | none => (textOf readbuffer).length + 1

def serve (readbuffer : Str) : Option Handled := server (textOf readbuffer ++ ['\x00'])

/-- The requests that a response is written for, one each; none where `post_method` would send the
content of a request that has none. -/
def Handled.answered : Handled → Option (List http_request)
  | .get requests => some requests
  | .post request =>
      if request.content = none ∧ (request.path = some "/api/echo".toList ∨ request.path = some "/api/upload".toList) then none
      else some [request]

/-- Each request gets one response, in order, and nothing behind the bytes received is examined. -/
structure Answered (requests : List GetRequest) (tail : Str) : Prop where
  one_for_one : (serve (received requests ++ tail)).bind Handled.answered = some (requests.map GetRequest.parsed)
  within : examines (received requests ++ tail) ≤ (received requests).length

namespace GetRequest

theorem nul_not_mem (r : GetRequest) : '\x00' ∉ r.text := by
  have plain := r.plain
  simp only [List.mem_append, not_or] at plain
  simp [text, line, plain]

end GetRequest

section received

variable (requests : List GetRequest) (tail : Str)

theorem received_plain : '\x00' ∉ received requests := by
  intro member
  obtain ⟨r, _, inside⟩ := List.mem_flatMap.mp member
  exact r.nul_not_mem inside

theorem textOf_received : textOf (received requests ++ tail) = received requests ++ textOf tail := by
  apply List.takeWhile_append_of_pos
  intro c member
  exact decide_eq_true fun same => received_plain requests (same ▸ member)

end received

theorem length_lt_examines (readbuffer : Str) : (textOf readbuffer).length < examines readbuffer := by
  unfold examines parseExamines
  split
  · split
    · omega
    · omega
  · omega

/-- No list of requests is answered one for one from the bytes received alone: they have no NUL. -/
theorem pipelined_never_answered (requests : List GetRequest) (tail : Str) : ¬ Answered requests tail := by
  intro answered
  have further := length_lt_examines (received requests ++ tail)
  rw [textOf_received, List.length_append] at further
  have within := answered.within
  omega

/-! What the loop over the empty lines does where the bytes received are a string. -/

theorem request_arr_received (requests : List GetRequest) {fuel : Nat} (enough : requests.length ≤ fuel) :
    request_arr fuel (received requests) = requests.map GetRequest.line := by
  induction requests generalizing fuel with
  | nil =>
    cases fuel with
    | zero => rfl
    | succ fuel => rfl
  | cons first others ih =>
    cases fuel with
    | zero => exact absurd enough (by simp)
    | succ fuel =>
      have found : strstr "\r\n\r\n".toList (first.text ++ received others) = some first.line.length :=
        strstr_eq_some_iff.mpr (first.ended.append (received others))
      have split : first.text ++ received others = first.line ++ ("\r\n\r\n".toList ++ received others) := by
        simp [GetRequest.text]
      change request_arr (fuel + 1) (first.text ++ received others) = _
      rw [request_arr, found]
      dsimp only
      rw [split, List.take_left' rfl, ← List.drop_drop, List.drop_left' rfl,
        List.drop_left' (show "\r\n\r\n".toList.length = 4 from rfl), ih (Nat.le_of_succ_le_succ enough)]
      rfl

theorem length_le_received (requests : List GetRequest) : requests.length ≤ (received requests).length := by
  induction requests with
  | nil => exact Nat.zero_le _
  | cons first others ih =>
    have nonempty : 4 ≤ first.text.length := by simp [GetRequest.text]
    change _ ≤ (first.text ++ received others).length
    rw [List.length_append, List.length_cons]
    omega

theorem GetRequest.parse_line (r : GetRequest) : http_request_parse (r.line ++ ['\x00']) = some r.parsed := by
  have plain : '\x00' ∉ r.line := fun member => r.nul_not_mem (List.mem_append_left _ member)
  have split : r.line = "GET".toList ++ ' ' :: (r.path ++ r.rest) := by simp [GetRequest.line]
  have get : occurs "GET".toList r.line = true := by
    rw [split]
    exact occurs_append [] "GET".toList _
  have path : (words (r.path ++ r.rest))[0]? = some r.path := by
    cases rest : r.rest with
    | nil =>
      rw [List.append_nil, words_token r.token]
      rfl
    | cons c after =>
      rw [words_token_space r.token (r.separate c (by rw [rest]; rfl))]
      rfl
  rw [parse_get (cstring_append plain []) get, split, words_token_space (Token.of_all (by decide) (by decide)) (by decide),
    List.getElem?_cons_succ, path]
  rfl

theorem parse_lines (requests : List GetRequest) :
    ((requests.map GetRequest.line).mapM fun request => http_request_parse (request ++ ['\x00'])) =
      some (requests.map GetRequest.parsed) := by
  induction requests with
  | nil => rfl
  | cons first others ih =>
    rw [List.map_cons, List.mapM_cons, first.parse_line, ih]
    rfl

def frontPage : GetRequest where
  path := "/".toList
  rest := " HTTP/1.1".toList
  token := Token.of_all (by decide) (by decide)
  separate := fun c first => by cases first; rfl
  plain := by decide
  ended := strstr_eq_some_iff.mp (by decide)

/-- In a heap of zeros one request is answered only after a look behind it, and eleven requests
do not fit in `request_arr`. -/
theorem pipelined_not_answered :
    ((received [frontPage]).length ≤ N ∧ ¬ Answered [frontPage] (List.replicate (N + 1 - 18) '\x00')) ∧
      (received (List.replicate 11 frontPage)).length ≤ N ∧
        serve (received (List.replicate 11 frontPage) ++ List.replicate (N + 1 - 198) '\x00') = none := by
  have further := length_lt_examines (received [frontPage] ++ List.replicate (N + 1 - 18) '\x00')
  rw [textOf_received, List.length_append] at further
  exact ⟨⟨by decide, fun answered => absurd answered.within (by omega)⟩, by decide +kernel, by decide +kernel⟩

end CloudLab.Http
