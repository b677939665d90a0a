import CloudLab.Http.Request
import CloudLab.Http.Static

/-! The responses that the server writes: which file or object a request is answered with, and the
head that is put before it. -/

namespace CloudLab.Http

open CloudLab Text

def http_get_response_message (status_code : Nat) : Str :=
  match status_code with
  | 100 => "Continue".toList
  | 200 => "OK".toList
  | 301 => "Moved Permanently".toList
  | 302 => "Found".toList
  | 304 => "Not Modified".toList
  | 400 => "Bad Request".toList
  | 401 => "Unauthorized".toList
  | 403 => "Forbidden".toList
  | 404 => "Not Found".toList
  | 405 => "Method Not Allowed".toList
  | _ => "Internal Server Error".toList

def http_get_mime_type (file_name : Str) : Str :=
  match strrchr '.' file_name with
  | none => "text/plain".toList
  | some file_extension =>
      if file_extension = ".html".toList ∨ file_extension = ".htm".toList then "text/html".toList
      else if file_extension = ".jpg".toList ∨ file_extension = ".jpeg".toList then "image/jpeg".toList
      else if file_extension = ".png".toList then "image/png".toList
      else if file_extension = ".css".toList then "text/css".toList
      else if file_extension = ".js".toList then "text/javascript".toList
      else if file_extension = ".pdf".toList then "application/pdf".toList
      else if file_extension = ".json".toList then "application/json".toList
      else "text/plain".toList

def http_start_response (status_code : Nat) : Str :=
  "HTTP/1.1 ".toList ++ decimal status_code ++ ' ' :: http_get_response_message status_code ++ "\r\n".toList

def http_send_header (key value : Str) : Str := key ++ ": ".toList ++ value ++ "\r\n".toList

def http_end_headers : Str := "\r\n".toList

structure Response where
  status_code : Nat
  content_type : Str
  content_length : Str
  body : Str
  deriving DecidableEq

def Response.text (r : Response) : Str :=
  http_start_response r.status_code ++ http_send_header "Content-Type".toList r.content_type ++
    http_send_header "Content-Length".toList r.content_length ++ http_end_headers ++ r.body

/-- The decimal of a length, as far as the ten bytes allocated for it go. -/
def lengthText (length : Int) : Str := snprintf 10 (decimal length)

def jsonobj : List Str :=
  ["[\x7b\"id\":1,\"name\":\"Foo\"\x7d]".toList, "[\x7b\"id\":2,\"name\":\"Bar\"\x7d]".toList,
    "[\x7b\"id\":3,\"name\":\"Foo\"\x7d]".toList, "[\x7b\"id\":4,\"name\":\"Bar\"\x7d]".toList]

def id_map_name : List Str := ["Foo".toList, "Bar".toList, "Foo".toList, "Bar".toList]

/-- An array indexed with an `int`; undefined outside its bounds. -/
def at? {α : Type} (array : List α) (index : Int) : Option α := if 0 ≤ index then array[index.toNat]? else none

/-- The bytes are counted one by one in an `off_t`, and the count returned as an `int`. What cannot
be opened or read has none. -/
def get_file_length (disk : Disk) (path : Str) : Int :=
  match disk path with
  | some (.file content) => toInt content.length
  | some .directory | none => 0

/-- For status 201 the path is the id of an object, for any other it names a file. -/
def echo_back (disk : Disk) (path : Str) (status : Nat) : Option Response :=
  if status = 201 then do
    let id := atoi path
    let object ← at? jsonobj (id - 1)
    some { status_code := 200, content_type := http_get_mime_type "data.json".toList,
           content_length := lengthText object.length, body := object }
  else
    some { status_code := status, content_type := http_get_mime_type path,
           content_length := lengthText (get_file_length disk path), body := (echo_back_body disk path).getD [] }

def searchHere (s : Str) : Option (Str × Str) :=
  let id := s.drop "?id=".length
  let rest := id.dropWhile Char.isDigit
  let name := rest.drop "&name=".length
  let groups := (id.takeWhile Char.isDigit, name.takeWhile Char.isAlphanum)
  if "?id=".toList.isPrefixOf s ∧ groups.1 ≠ [] ∧ "&name=".toList.isPrefixOf rest ∧ groups.2 ≠ [] then some groups else none

def regexec : Str → Option (Str × Str)
  | [] => none
  | c :: cs => (searchHere (c :: cs)).or (regexec cs)

/-- What `turn_to_api` calls `echo_back` with: the path that it has stored in the request, and the
status. -/
def turn_to_api (path : Str) : Option (Str × Nat) :=
  if path = "/api/check".toList then some ("./data/data.txt".toList, 200)
  else if path = "/api/list".toList then some ("./data/data.json".toList, 200)
  else if (strstr "search?".toList path).isSome then
    match regexec path with
    | none => some ("./static/404.html".toList, 404)
    | some (s_id, name) =>
        let id := atoi s_id
        if 4 < id then some ("./data/not_found.json".toList, 404)
        else do
          -- the names are looked at below 1 too
          let known ← at? id_map_name (id - 1)
          if name ≠ known then some ("./data/not_found.json".toList, 404) else some (s_id, 201)
  else some ("./static/404.html".toList, 404)

theorem turn_to_api_cases {path file : Str} {status : Nat} (turned : turn_to_api path = some (file, status)) :
    (file = "./data/data.txt".toList ∨ file = "./data/data.json".toList) ∧ status = 200 ∨
      file = "./static/404.html".toList ∧ status = 404 ∨
        ∃ s_id name, occurs "search?".toList path = true ∧ regexec path = some (s_id, name) ∧
          (file = "./data/not_found.json".toList ∧ status = 404 ∨ file = s_id ∧ status = 201) := by
  unfold turn_to_api at turned
  split_ifs at turned with check list search
  · cases turned
    exact Or.inl ⟨Or.inl rfl, rfl⟩
  · cases turned
    exact Or.inl ⟨Or.inr rfl, rfl⟩
  · cases found : regexec path with
    | none =>
      rw [found] at turned
      cases turned
      exact Or.inr (Or.inl ⟨rfl, rfl⟩)
    | some groups =>
      rw [found] at turned
      rw [strstr_isSome] at search
      refine Or.inr (Or.inr ⟨groups.1, groups.2, search, rfl, ?_⟩)
      dsimp only at turned
      split_ifs at turned with above
      · cases turned
        exact Or.inl ⟨rfl, rfl⟩
      · obtain ⟨known, _, turned⟩ := Option.bind_eq_some_iff.mp turned
        split_ifs at turned with other
        · cases turned
          exact Or.inl ⟨rfl, rfl⟩
        · cases turned
          exact Or.inr ⟨rfl, rfl⟩
  · cases turned
    exact Or.inr (Or.inl ⟨rfl, rfl⟩)

def route (disk : Disk) (path : Str) : Option (Str × Nat) :=
  match get_method disk path with
  | .turn_to_api path => turn_to_api path
  | .echo_back path status => some (path, status)

end CloudLab.Http
