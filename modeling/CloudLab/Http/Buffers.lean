import CloudLab.Http.Response

/-! The strings that the request handlers store in buffers of a fixed size. -/

namespace CloudLab.Http

open CloudLab Text

inductive Buffer
  | method_of_get
  | method
  | path
  | content_type
  /-- The local array of `get_method`, and that of `echo_back`. -/
  | directory
  deriving DecidableEq

def Buffer.size : Buffer → Nat
  | .method_of_get => 20
  | .method => 10
  | .path => 20
  | .content_type => 50
  | .directory => 50

/-- A string that `sscanf`, `strcpy` or `strcat` leaves in a buffer. -/
structure Store where
  buffer : Buffer
  string : Str
  deriving DecidableEq

def Store.Fits (s : Store) : Prop := s.string.length + 1 ≤ s.buffer.size

instance (s : Store) : Decidable s.Fits := inferInstanceAs (Decidable (_ ≤ _))

def stored (buffer : Buffer) (word : Option Str) : List Store := word.toList.map (Store.mk buffer)

def http_request_parse_stores (text : Str) : List Store :=
  if (strstr "GET".toList text).isSome then stored .method_of_get (words text)[0]? ++ stored .path (words text)[1]?
  else
    stored .method (words text)[0]? ++ stored .path (words text)[1]? ++
      match strstr "Content-Type: ".toList text with
      | none => []
      | some content_type => stored .content_type (words (text.drop (content_type + "Content-Type: ".length))).head?

def echo_back_stores (path : Str) : List Store := [⟨.directory, path⟩]

def turn_to_api_stores (path : Str) : List Store :=
  match turn_to_api path with
  | none => []
  | some (path, _) => ⟨.path, path⟩ :: echo_back_stores path

def get_method_stores (disk : Disk) (path : Str) : List Store :=
  if (strstr "api".toList path).isSome then turn_to_api_stores path
  else
    let directory := "./static".toList ++ path
    let page (file : Str) : List Store := [⟨.directory, file⟩, ⟨.path, file⟩] ++ echo_back_stores file
    [⟨.directory, directory⟩, ⟨.path, directory⟩] ++
      if directory = "./static/".toList then page "./static/index.html".toList
      else if disk directory = none then page "./static/404.html".toList
      else echo_back_stores directory

def post_method_stores (path content : Str) : List Store :=
  let page (file : Str) : List Store := ⟨.path, file⟩ :: echo_back_stores file
  if path = "/api/echo".toList then if idName content then [] else page "./data/error.txt".toList
  else if path = "/api/upload".toList then []
  else page "./static/404.html".toList

/-- What is found in memory from `malloc` that nothing has been written to: as the path of the request that
has so many behind it, and as the content, also where the copy has no result. -/
structure Heap where
  path : Nat → Str
  content : Str
  deriving Inhabited

def Faults (text : Str) : Prop := occurs "Content-Type: ".toList text = false ∨ occurs "Content-Length: ".toList text = false

instance (text : Str) : Decidable (Faults text) := inferInstanceAs (Decidable (_ ∨ _))

/-- Where the parser does not return. `sscanf` always reads its string, so that the program ends at a null pointer
with what it has stored. An offset from a null pointer is read only where the length is positive, and a number
that is no `int` may come out as any: of what follows either nothing is known. -/
def ended (text : Str) : Option (List Store) := if Faults text then some (http_request_parse_stores text) else none

def requests_stores (heap : Heap) (disk : Disk) : List Str → Option (List Store)
  | [] => some []
  | request :: requests =>
      match http_request_parse (request ++ ['\x00']) with
      | none => ended request
      | some parsed => (requests_stores heap disk requests).map fun stores =>
          http_request_parse_stores request ++ get_method_stores disk (parsed.path.getD (heap.path requests.length)) ++ stores

/-- What `server` stores, up to its end; undefined without a NUL in the buffer, and beyond the room of
`request_arr`. -/
def server_stores (heap : Heap) (disk : Disk) (readbuffer : Str) : Option (List Store) := do
  let text ← cstring readbuffer
  if (strstr "POST".toList text).isSome then
    match http_request_parse readbuffer with
    | none => ended text
    | some request => some (http_request_parse_stores text ++
        post_method_stores (request.path.getD (heap.path 0)) ((request.content.bind (Region.copy readbuffer)).getD heap.content))
  else if (request_arr text.length text).length ≤ 10 then requests_stores heap disk (request_arr text.length text)
  else none

/-- Every string fits, whatever the heap held. -/
def Fitting (disk : Disk) (readbuffer : Str) : Prop :=
  ∀ heap, ∃ stores, server_stores heap disk readbuffer = some stores ∧ ∀ store ∈ stores, store.Fits

/-! How long the words of a request may be. -/

def Within (size : Nat) (word : Option Str) : Prop := ∀ w, word = some w → w.length ≤ size

structure WordsFit (text : Str) : Prop where
  method : Within (if occurs "GET".toList text = true then 19 else 9) (words text)[0]?
  path : Within 19 (words text)[1]?
  content_type : occurs "GET".toList text = false → ∀ p, First "Content-Type: ".toList text p →
    Within 49 (words (text.drop (p + "Content-Type: ".length))).head?

def PathFits (path : Str) : Prop := occurs "api".toList path = true ∨ path.length ≤ 11

/-- Up to the first piece without GET, which is the last that is parsed. -/
def reached : List Str → List Str
  | [] => []
  | request :: requests => if occurs "GET".toList request = true then request :: reached requests else [request]

structure RequestFits (request : Str) : Prop where
  strings : WordsFit request
  path : occurs "GET".toList request = true → ∃ path, (words request)[1]? = some path ∧ PathFits path
  faults : occurs "GET".toList request = false → Faults request

structure PostFits (text : Str) : Prop where
  strings : WordsFit text
  parsed : occurs "GET".toList text = false → Faults text ∨ occurs "\r\n\r\n".toList text = true ∧
    ∀ p, First "Content-Length: ".toList text p → (scanInt (text.drop (p + "Content-Length: ".length))).isSome = true

theorem forall_stored_iff (buffer : Buffer) (word : Option Str) :
    (∀ store ∈ stored buffer word, store.Fits) ↔ Within (buffer.size - 1) word := by
  have room : 0 < buffer.size := by cases buffer <;> decide
  cases word with
  | none => exact iff_of_true (fun store member => nomatch member) nofun
  | some w =>
    simp only [stored, Option.toList_some, List.map_cons, List.map_nil, List.forall_mem_singleton, Within, Option.some.injEq,
      forall_eq', Store.Fits]
    omega

theorem parse_stores_fit_iff (text : Str) : (∀ store ∈ http_request_parse_stores text, store.Fits) ↔ WordsFit text := by
  unfold http_request_parse_stores
  rw [strstr_isSome]
  by_cases get : occurs "GET".toList text = true
  · rw [if_pos get, List.forall_mem_append, forall_stored_iff, forall_stored_iff]
    constructor
    · rintro ⟨method, path⟩
      exact ⟨by rwa [if_pos get], path, fun absent => Bool.noConfusion (get.symm.trans absent)⟩
    · rintro ⟨method, path, _⟩
      rw [if_pos get] at method
      exact ⟨method, path⟩
  · have absent : occurs "GET".toList text = false := Bool.not_eq_true _ |>.mp get
    have type : (∀ store ∈ (match strstr "Content-Type: ".toList text with
          | none => []
          | some content_type => stored .content_type (words (text.drop (content_type + "Content-Type: ".length))).head?),
        store.Fits) ↔ ∀ p, First "Content-Type: ".toList text p → Within 49 (words (text.drop (p + "Content-Type: ".length))).head? := by
      simp only [← strstr_eq_some_iff]
      cases strstr "Content-Type: ".toList text with
      | none => exact iff_of_true (fun store member => nomatch member) nofun
      | some p =>
        simp only [Option.some.injEq, forall_eq']
        exact forall_stored_iff _ _
    rw [if_neg get, List.forall_mem_append, List.forall_mem_append, forall_stored_iff, forall_stored_iff, type]
    constructor
    · rintro ⟨⟨method, path⟩, content_type⟩
      exact ⟨by rwa [if_neg get], path, fun _ => content_type⟩
    · rintro ⟨method, path, content_type⟩
      rw [if_neg get] at method
      exact ⟨⟨method, path⟩, content_type absent⟩

theorem searchHere_parts {s : Str} {groups : Str × Str} (found : searchHere s = some groups) :
    ∃ id rest, s = "?id=".toList ++ (id ++ ("&name=".toList ++ rest)) ∧ id ≠ [] ∧ (∀ c ∈ id, c.isDigit = true) ∧ rest ≠ [] := by
  unfold searchHere at found
  dsimp only at found
  split at found
  · next parts =>
    obtain ⟨first, id, second, name⟩ := parts
    obtain ⟨s, rfl⟩ := List.isPrefixOf_iff_prefix.mp first
    obtain ⟨rest, split⟩ := List.isPrefixOf_iff_prefix.mp second
    have dropped : ("?id=".toList ++ s).drop "?id=".length = s := List.drop_left
    have after : ("&name=".toList ++ rest).drop "&name=".length = rest := List.drop_left
    rw [dropped] at id split name
    rw [← split, after] at name
    refine ⟨s.takeWhile Char.isDigit, rest, ?_, id, fun c member => List.mem_takeWhile_imp member, ?_⟩
    · rw [split, List.takeWhile_append_dropWhile]
    · rintro rfl
      exact name rfl
  · cases found

theorem regexec_parts {s : Str} {groups : Str × Str} (found : regexec s = some groups) :
    ∃ front id rest, s = front ++ ("?id=".toList ++ (id ++ ("&name=".toList ++ rest))) ∧ id ≠ [] ∧
      (∀ c ∈ id, c.isDigit = true) ∧ rest ≠ [] := by
  induction s with
  | nil => cases found
  | cons c cs ih =>
    rcases Option.or_eq_some_iff.mp found with here | ⟨_, later⟩
    · obtain ⟨id, rest, split, parts⟩ := searchHere_parts here
      exact ⟨[], id, rest, split, parts⟩
    · obtain ⟨front, id, rest, split, parts⟩ := ih later
      exact ⟨c :: front, id, rest, by rw [split, List.cons_append], parts⟩

theorem search_places {c : Char} {cs left id rest : Str} (letter : c.isDigit = false) (separators : '=' ∉ c :: cs ∧ '&' ∉ c :: cs)
    (digits : ∀ c ∈ id, c.isDigit = true) (name : occurs (c :: cs) "name".toList = false)
    (present : occurs (c :: cs) (left ++ '=' :: (id ++ ("&name=".toList ++ rest))) = true) :
    occurs (c :: cs) left = true ∨ occurs (c :: cs) rest = true := by
  have number : occurs (c :: cs) id = false := occurs_eq_false fun member => by
    rw [digits c member] at letter
    cases letter
  have split : id ++ ("&name=".toList ++ rest) = (id ++ '&' :: "name".toList) ++ '=' :: rest := by
    rw [List.append_assoc]
    rfl
  rcases occurs_split separators.1 present with before | later
  · exact Or.inl before
  · rw [split] at later
    rcases occurs_split separators.1 later with middle | behind
    · rcases occurs_split separators.2 middle with inNumber | inName
      · exact Bool.noConfusion (inNumber.symm.trans number)
      · exact Bool.noConfusion (inName.symm.trans name)
    · exact Or.inr behind

theorem api_search_length {s : Str} (api : occurs "api".toList s = true) (search : occurs "search?".toList s = true) :
    10 ≤ s.length := by
  obtain ⟨x, y, rfl⟩ := occurs_iff_isInfix.mp search
  have split : x ++ "search?".toList ++ y = x ++ 's' :: ("earch".toList ++ '?' :: y) := by
    rw [List.append_assoc]
    rfl
  have size : (x ++ "search?".toList ++ y).length = x.length + 7 + y.length := by
    rw [List.length_append, List.length_append]
    rfl
  have outside : 3 ≤ x.length ∨ 3 ≤ y.length := by
    rw [split] at api
    rcases occurs_split (by decide) api with before | later
    · exact Or.inl (occurs_length before)
    · rcases occurs_split (by decide) later with inside | behind
      · exact absurd inside (by decide)
      · exact Or.inr (occurs_length behind)
  omega

theorem search_length {path : Str} {groups : Str × Str} (api : occurs "api".toList path = true)
    (search : occurs "search?".toList path = true) (found : regexec path = some groups) : 20 ≤ path.length := by
  obtain ⟨front, id, rest, rfl, number, digits, name⟩ := regexec_parts found
  have split : front ++ ("?id=".toList ++ (id ++ ("&name=".toList ++ rest))) =
      (front ++ '?' :: "id".toList) ++ '=' :: (id ++ ("&name=".toList ++ rest)) := by
    rw [List.append_assoc]
    rfl
  have size : (front ++ ("?id=".toList ++ (id ++ ("&name=".toList ++ rest)))).length =
      front.length + (4 + (id.length + (6 + rest.length))) := by
    simp only [List.length_append]
    rfl
  have some_digit := List.length_pos_iff.mpr number
  have some_letter := List.length_pos_iff.mpr name
  have last : front ++ '?' :: "id".toList = (front ++ ['?']) ++ 'i' :: ['d'] := by
    rw [List.append_assoc]
    rfl
  have front_length : (front ++ ['?']).length = front.length + 1 := List.length_append
  have api_place : occurs "api".toList front = true ∨ occurs "api".toList rest = true := by
    rw [split] at api
    rcases search_places (by decide) (by decide) digits (by decide) api with before | behind
    · rcases occurs_split (by decide) before with here | after
      · exact Or.inl here
      · exact absurd after (by decide)
    · exact Or.inr behind
  have search_place : occurs "search?".toList (front ++ ['?']) = true ∨ occurs "search?".toList rest = true := by
    rw [split] at search
    rcases search_places (by decide) (by decide) digits (by decide) search with before | behind
    · rw [last] at before
      rcases occurs_split (by decide) before with here | after
      · exact Or.inl here
      · exact absurd after (by decide)
    · exact Or.inr behind
  rcases api_place with apiFront | apiRest
  · rcases search_place with searchFront | searchRest
    · have both := api_search_length (occurs_left ['?'] apiFront) searchFront
      omega
    · have inFront : 3 ≤ front.length := occurs_length apiFront
      have inRest : 7 ≤ rest.length := occurs_length searchRest
      omega
  · have inRest : 3 ≤ rest.length := occurs_length apiRest
    rcases search_place with searchFront | searchRest
    · have inFront : 7 ≤ (front ++ ['?']).length := occurs_length searchFront
      omega
    · have both := api_search_length apiRest searchRest
      omega

theorem api_stores_fit {disk : Disk} {path : Str} (api : occurs "api".toList path = true) (short : path.length ≤ 19) :
    ∀ store ∈ get_method_stores disk path, store.Fits := by
  have fits {file : Str} {status : Nat} (turned : turn_to_api path = some (file, status)) : file.length ≤ 19 := by
    rcases turn_to_api_cases turned with ⟨rfl | rfl, _⟩ | ⟨rfl, _⟩ | ⟨_, _, search, found, _⟩
    · decide
    · decide
    · decide
    · have long := search_length api search found
      omega
  unfold get_method_stores turn_to_api_stores
  rw [strstr_isSome, if_pos api]
  cases turned : turn_to_api path with
  | none => exact fun store member => nomatch member
  | some chosen =>
    have small := fits turned
    have inPath : chosen.1.length + 1 ≤ 20 := by omega
    have inDirectory : chosen.1.length + 1 ≤ 50 := by omega
    exact List.forall_mem_cons.mpr ⟨inPath, List.forall_mem_singleton.mpr inDirectory⟩

theorem static_stores_fit_iff {disk : Disk} {path : Str} (plain : occurs "api".toList path = false) :
    (∀ store ∈ get_method_stores disk path, store.Fits) ↔ path.length ≤ 11 := by
  have size : ("./static".toList ++ path).length = 8 + path.length := List.length_append
  unfold get_method_stores
  rw [strstr_isSome, if_neg (by rw [plain]; exact Bool.false_ne_true)]
  dsimp only
  rw [List.forall_mem_append, List.forall_mem_cons, List.forall_mem_singleton]
  constructor
  · rintro ⟨⟨_, fits⟩, _⟩
    have fits : ("./static".toList ++ path).length + 1 ≤ 20 := fits
    omega
  · intro short
    have inPath : ("./static".toList ++ path).length + 1 ≤ 20 := by omega
    have inDirectory : ("./static".toList ++ path).length + 1 ≤ 50 := by omega
    refine ⟨⟨inDirectory, inPath⟩, ?_⟩
    split_ifs
    · unfold Store.Fits
      decide
    · unfold Store.Fits
      decide
    · exact List.forall_mem_singleton.mpr inDirectory

theorem post_method_stores_fit (path content : Str) : ∀ store ∈ post_method_stores path content, store.Fits := by
  unfold post_method_stores Store.Fits
  split_ifs <;> decide

section requests

variable {disk : Disk} {request : Str} {requests : List Str}

theorem get_method_stores_fit_iff {path : Str} (short : path.length ≤ 19) :
    (∀ store ∈ get_method_stores disk path, store.Fits) ↔ PathFits path := by
  by_cases api : occurs "api".toList path = true
  · exact iff_of_true (api_stores_fit api short) (Or.inl api)
  · have plain : occurs "api".toList path = false := Bool.not_eq_true _ |>.mp api
    rw [static_stores_fit_iff plain, PathFits, plain]
    exact (or_iff_right Bool.false_ne_true).symm

theorem path_stores_fit_iff {path : Option Str} (within : Within 19 path) (i : Nat) :
    (∀ heap : Heap, ∀ store ∈ get_method_stores disk (path.getD (heap.path i)), store.Fits) ↔
      ∃ written, path = some written ∧ PathFits written := by
  cases path with
  | none =>
    refine iff_of_false ?_ nofun
    intro fits
    have plain : occurs "api".toList (List.replicate 12 'x') = false := by decide
    have long := (static_stores_fit_iff plain).mp (fits ⟨fun _ => List.replicate 12 'x', []⟩)
    exact absurd long (by decide)
  | some written =>
    simp only [Option.getD_some, Option.some.injEq, exists_eq_left', forall_const]
    exact get_method_stores_fit_iff (within written rfl)

theorem ended_fits_iff (text : Str) :
    (∃ stores, ended text = some stores ∧ ∀ store ∈ stores, store.Fits) ↔ Faults text ∧ WordsFit text := by
  unfold ended
  by_cases faults : Faults text
  · rw [if_pos faults, ← parse_stores_fit_iff]
    simp [faults]
  · rw [if_neg faults]
    simp [faults]

theorem requests_stores_cons (get : occurs "GET".toList request = true) (plain : '\x00' ∉ request) (heap : Heap) :
    (∃ stores, requests_stores heap disk (request :: requests) = some stores ∧ ∀ store ∈ stores, store.Fits) ↔
      WordsFit request ∧
        (∀ store ∈ get_method_stores disk ((words request)[1]?.getD (heap.path requests.length)), store.Fits) ∧
          ∃ stores, requests_stores heap disk requests = some stores ∧ ∀ store ∈ stores, store.Fits := by
  rw [requests_stores, parse_get (cstring_append plain []) get, ← parse_stores_fit_iff]
  constructor
  · rintro ⟨_, run, fits⟩
    obtain ⟨others, later, rfl⟩ := Option.map_eq_some_iff.mp run
    rw [List.forall_mem_append, List.forall_mem_append] at fits
    exact ⟨fits.1.1, fits.1.2, others, later, fits.2⟩
  · rintro ⟨parsed, chosen, others, later, fits⟩
    refine ⟨_, Option.map_eq_some_iff.mpr ⟨others, later, rfl⟩, ?_⟩
    rw [List.forall_mem_append, List.forall_mem_append]
    exact ⟨⟨parsed, chosen⟩, fits⟩

theorem requests_stores_fit_iff (each : ∀ request ∈ requests, '\x00' ∉ request ∧ occurs "\r\n\r\n".toList request = false) :
    (∀ heap, ∃ stores, requests_stores heap disk requests = some stores ∧ ∀ store ∈ stores, store.Fits) ↔
      ∀ request ∈ reached requests, RequestFits request := by
  induction requests with
  | nil => exact iff_of_true (fun _ => ⟨[], rfl, fun store member => nomatch member⟩) fun request member => nomatch member
  | cons request requests ih =>
    obtain ⟨⟨plain, line⟩, others⟩ := List.forall_mem_cons.mp each
    by_cases get : occurs "GET".toList request = true
    · simp only [requests_stores_cons get plain, forall_and, forall_const]
      rw [ih others, reached, if_pos get, List.forall_mem_cons]
      constructor
      · rintro ⟨strings, chosen, later⟩
        exact ⟨⟨strings, fun _ => (path_stores_fit_iff strings.path _).mp chosen,
          fun absent => Bool.noConfusion (get.symm.trans absent)⟩, later⟩
      · rintro ⟨fits, later⟩
        exact ⟨fits.strings, (path_stores_fit_iff fits.strings.path _).mpr (fits.path get), later⟩
    · -- the parser does not come back from this piece
      have absent : occurs "GET".toList request = false := Bool.not_eq_true _ |>.mp get
      simp only [requests_stores, (parse_piece plain line).2 get, forall_const]
      rw [ended_fits_iff, reached, if_neg get, List.forall_mem_singleton]
      exact ⟨fun ⟨faults, strings⟩ => ⟨strings, fun present => absurd present get, fun _ => faults⟩,
        fun fits => ⟨fits.faults absent, fits.strings⟩⟩

end requests

theorem parsed_fits_iff (text path content : Str) :
    (∃ stores, some (http_request_parse_stores text ++ post_method_stores path content) = some stores ∧
      ∀ store ∈ stores, store.Fits) ↔ WordsFit text := by
  simp only [Option.some.injEq, exists_eq_left', List.forall_mem_append]
  rw [parse_stores_fit_iff]
  exact and_iff_left (post_method_stores_fit path content)

section post

variable {readbuffer text : Str} (string : cstring readbuffer = some text)

include string

theorem parse_none_iff (absent : occurs "GET".toList text = false) (faults : ¬ Faults text) :
    http_request_parse readbuffer = none ↔ ¬ (occurs "\r\n\r\n".toList text = true ∧
      ∀ p, First "Content-Length: ".toList text p → (scanInt (text.drop (p + "Content-Length: ".length))).isSome = true) := by
  have get : ¬ occurs "GET".toList text = true := by rw [absent]; exact Bool.false_ne_true
  simp only [Faults, not_or, Bool.not_eq_false] at faults
  obtain ⟨t, type⟩ := strstr_some faults.1
  obtain ⟨p, length_⟩ := strstr_some faults.2
  constructor
  · rintro parsed ⟨line, number⟩
    obtain ⟨q, line⟩ := strstr_some line
    obtain ⟨v, value⟩ := Option.isSome_iff_exists.mp (number p (strstr_first length_))
    have some_ := (parse_headers_iff string get _).mpr
      ⟨t, p, q, v, strstr_first type, strstr_first length_, value, strstr_first line, rfl⟩
    rw [parsed] at some_
    cases some_
  · intro missing
    cases parsed : http_request_parse readbuffer with
    | none => rfl
    | some request =>
      obtain ⟨_, p, q, v, _, length_, value, line, _⟩ := (parse_headers_iff string get request).mp parsed
      refine absurd ⟨occurs_at line.here, fun p' first => ?_⟩ missing
      rw [first.unique length_, value]
      rfl

theorem post_fits_iff : (∀ heap : Heap, ∃ stores,
    (match http_request_parse readbuffer with
      | none => ended text
      | some request => some (http_request_parse_stores text ++ post_method_stores (request.path.getD (heap.path 0))
          ((request.content.bind (Region.copy readbuffer)).getD heap.content))) = some stores ∧
      ∀ store ∈ stores, store.Fits) ↔ PostFits text := by
  by_cases get : occurs "GET".toList text = true
  · rw [parse_get string get]
    simp only [parsed_fits_iff, forall_const]
    exact ⟨fun strings => ⟨strings, fun absent => Bool.noConfusion (get.symm.trans absent)⟩, fun fits => fits.strings⟩
  have absent : occurs "GET".toList text = false := Bool.not_eq_true _ |>.mp get
  by_cases faults : Faults text
  · have parsed : http_request_parse readbuffer = none := by
      by_contra parsed
      obtain ⟨request, parsed⟩ := Option.ne_none_iff_exists'.mp parsed
      obtain ⟨t, p, _, _, type, length_, _⟩ := (parse_headers_iff string get request).mp parsed
      rcases faults with missing | missing
      · exact Bool.noConfusion ((occurs_at type.here).symm.trans missing)
      · exact Bool.noConfusion ((occurs_at length_.here).symm.trans missing)
    simp only [parsed, ended_fits_iff, forall_const]
    exact ⟨fun fits => ⟨fits.2, fun _ => Or.inl faults⟩, fun fits => ⟨faults, fits.strings⟩⟩
  · have back := parse_none_iff string absent faults
    cases parsed : http_request_parse readbuffer with
    | none =>
      simp only [ended_fits_iff, forall_const]
      exact iff_of_false (fun fits => faults fits.1) fun fits => (back.mp parsed) ((fits.parsed absent).resolve_left faults)
    | some request =>
      have found := not_not.mp fun missing => nomatch parsed.symm.trans (back.mpr missing)
      simp only [parsed_fits_iff, forall_const]
      exact ⟨fun strings => ⟨strings, fun _ => Or.inr found⟩, fun fits => fits.strings⟩

end post

/-- Every string fits its buffer exactly when the words of the request fit, and the path of a GET outside the
API leaves room for ./static. -/
theorem fitting_iff (disk : Disk) (readbuffer : Str) : Fitting disk readbuffer ↔
    ∃ text, cstring readbuffer = some text ∧
      if occurs "POST".toList text = true then PostFits text
      else (request_arr text.length text).length ≤ 10 ∧ ∀ request ∈ reached (request_arr text.length text), RequestFits request := by
  unfold Fitting server_stores
  cases string : cstring readbuffer with
  | none => exact iff_of_false (fun fits => nomatch (fits default).choose_spec.1) nofun
  | some text =>
    simp only [Option.bind_eq_bind, Option.bind_some, Option.some.injEq, exists_eq_left', strstr_isSome]
    split_ifs with post few
    · exact post_fits_iff string
    · exact (requests_stores_fit_iff (request_arr_piece (nul_not_mem string))).trans (and_iff_right few).symm
    · exact iff_of_false (fun fits => nomatch (fits default).choose_spec.1) fun fits => few fits.1

def helloWorld : Str := "GET /hello-world.txt HTTP/1.1\r\n\r\n".toList

/-- The path of a page of the repository and the directory before it come to 24 characters, in twenty bytes. -/
theorem hello_world_overflows : helloWorld.length ≤ N ∧
    server_stores default everywhere (helloWorld ++ ['\x00']) = some [⟨.method_of_get, "GET".toList⟩,
      ⟨.path, "/hello-world.txt".toList⟩, ⟨.directory, "./static/hello-world.txt".toList⟩,
      ⟨.path, "./static/hello-world.txt".toList⟩, ⟨.directory, "./static/hello-world.txt".toList⟩] ∧
    ¬ Fitting everywhere (helloWorld ++ ['\x00']) := by
  have run : server_stores default everywhere (helloWorld ++ ['\x00']) = some [⟨.method_of_get, "GET".toList⟩,
      ⟨.path, "/hello-world.txt".toList⟩, ⟨.directory, "./static/hello-world.txt".toList⟩,
      ⟨.path, "./static/hello-world.txt".toList⟩, ⟨.directory, "./static/hello-world.txt".toList⟩] := by decide +kernel
  refine ⟨by decide, run, fun fits => ?_⟩
  obtain ⟨stores, same, all⟩ := fits default
  rw [run] at same
  cases same
  have overflow : Store.Fits ⟨.path, "./static/hello-world.txt".toList⟩ := all _ (by decide)
  revert overflow
  unfold Store.Fits
  decide

end CloudLab.Http
