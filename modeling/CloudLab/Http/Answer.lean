import CloudLab.Http.Buffers

/-! What the handlers answer with the buffers that they have: beyond a string that does not fit its buffer nothing is
known. -/

namespace CloudLab.Http

open CloudLab Text

/-- The strings that `http_request_parse` has stored; only the request of a GET has no content. -/
def http_request.stores (request : http_request) : List Store :=
  stored (if request.content.isNone then .method_of_get else .method) request.method ++ stored .path request.path ++
    stored .content_type request.content_type

def http_request.Held (request : http_request) : Prop := ∀ store ∈ request.stores, store.Fits

instance (request : http_request) : Decidable request.Held :=
  inferInstanceAs (Decidable (∀ store ∈ request.stores, store.Fits))

def sends (disk : Disk) (path : Str) : Option Response :=
  (route disk path).bind fun (file, status) => echo_back disk file status

def get_response (disk : Disk) (request : http_request) : Option Response := do
  let path ← request.path
  if ∀ store ∈ request.stores ++ get_method_stores disk path, store.Fits then sends disk path else none

def error_page (path : Str) : Str :=
  if path = "/api/echo".toList then "./data/error.txt".toList else "./static/404.html".toList

def post_response (disk : Disk) (request : http_request) (content : Str) : Option Response := do
  let path ← request.path
  if ∀ store ∈ request.stores ++ post_method_stores path content, store.Fits then
    match post_method request content with
    | some body =>
        (if path = "/api/echo".toList then request.content_type else some (http_get_mime_type ".json".toList)).map
          fun content_type => { status_code := 200, content_type, content_length := lengthText body.length, body }
    | none => echo_back disk (error_page path) 404
  else none

def page (disk : Disk) (path : Str) : Str :=
  if path = "/api/check".toList then "./data/data.txt".toList
  else if path = "/api/list".toList then "./data/data.json".toList
  else if occurs "api".toList path = true then "./static/404.html".toList
  else if path = "/".toList then "./static/index.html".toList
  else if disk ("./static".toList ++ path) = none then "./static/404.html".toList
  else "./static".toList ++ path

def Accepted (path content : Str) : Prop :=
  path = "/api/upload".toList ∨ path = "/api/echo".toList ∧ idName content = true

theorem http_request.held_iff (request : http_request) : request.Held ↔
    Within (if request.content.isNone then 19 else 9) request.method ∧ Within 19 request.path ∧
      Within 49 request.content_type := by
  have method : (if request.content.isNone then Buffer.method_of_get else Buffer.method).size - 1 =
      if request.content.isNone then 19 else 9 := by
    cases request.content <;> rfl
  unfold http_request.Held http_request.stores
  rw [List.forall_mem_append, List.forall_mem_append, forall_stored_iff, forall_stored_iff, forall_stored_iff, method, and_assoc]
  rfl

theorem turn_to_api_short {path : Str} (api : occurs "api".toList path = true) (short : path.length ≤ 19) :
    ∃ status, status ≠ 201 ∧ turn_to_api path = some (if path = "/api/check".toList then "./data/data.txt".toList
      else if path = "/api/list".toList then "./data/data.json".toList else "./static/404.html".toList, status) := by
  unfold turn_to_api
  split_ifs with check list search
  · exact ⟨200, by decide, rfl⟩
  · exact ⟨200, by decide, rfl⟩
  · rw [strstr_isSome] at search
    cases found : regexec path with
    | none => exact ⟨404, by decide, rfl⟩
    | some groups =>
      have long := search_length api search found
      omega
  · exact ⟨404, by decide, rfl⟩

theorem get_status_ne (path : Str) : get_status_of_the_file path ≠ 201 := by
  unfold get_status_of_the_file
  split_ifs <;> decide

theorem route_page (disk : Disk) {path : Str} (short : path.length ≤ 19) :
    ∃ status, status ≠ 201 ∧ route disk path = some (page disk path, status) := by
  by_cases api : occurs "api".toList path = true
  · obtain ⟨status, other, turned⟩ := turn_to_api_short api short
    refine ⟨status, other, ?_⟩
    rw [route, get_method, strstr_isSome, if_pos api, page, if_pos api]
    exact turned
  · have plain : occurs "api".toList path = false := Bool.not_eq_true _ |>.mp api
    have check : path ≠ "/api/check".toList := by
      rintro rfl
      exact api (by decide)
    have list : path ≠ "/api/list".toList := by
      rintro rfl
      exact api (by decide)
    rw [route, get_method_plain disk plain, page, if_neg check, if_neg list, if_neg api]
    split_ifs
    · exact ⟨200, by decide, rfl⟩
    · exact ⟨404, by decide, rfl⟩
    · exact ⟨_, get_status_ne _, rfl⟩

section get

variable {disk : Disk} {request : http_request}

theorem get_response_fits {path : Str} (named : request.path = some path) (held : request.Held) (fits : PathFits path) :
    get_response disk request = sends disk path := by
  have short : path.length ≤ 19 := (request.held_iff.mp held).2.1 path named
  unfold get_response
  rw [named, Option.bind_eq_bind, Option.bind_some,
    if_pos (List.forall_mem_append.mpr ⟨held, (get_method_stores_fit_iff short).mpr fits⟩)]

theorem get_response_overflows {path : Str} (named : request.path = some path) (long : ¬ (request.Held ∧ PathFits path)) :
    get_response disk request = none := by
  unfold get_response
  rw [named, Option.bind_eq_bind, Option.bind_some, if_neg]
  intro all
  obtain ⟨held, fits⟩ := List.forall_mem_append.mp all
  have short : path.length ≤ 19 := (request.held_iff.mp held).2.1 path named
  exact long ⟨held, (get_method_stores_fit_iff short).mp fits⟩

/-- There is an answer as long as the strings fit, and it is the page of the path. -/
theorem get_response_iff (r : Response) : get_response disk request = some r ↔
    request.Held ∧ ∃ path, request.path = some path ∧ PathFits path ∧
      ∃ status, status ≠ 201 ∧ route disk path = some (page disk path, status) ∧ echo_back disk (page disk path) status = some r := by
  cases named : request.path with
  | none =>
    refine iff_of_false ?_ nofun
    rw [get_response, named]
    exact nofun
  | some path =>
    simp only [Option.some.injEq, exists_eq_left']
    by_cases fits : request.Held ∧ PathFits path
    · obtain ⟨status, other, routed⟩ := route_page disk ((request.held_iff.mp fits.1).2.1 path named)
      rw [get_response_fits named fits.1 fits.2, sends, routed, Option.bind_some]
      constructor
      · exact fun answered => ⟨fits.1, fits.2, status, other, rfl, answered⟩
      · rintro ⟨_, _, _, _, same, answered⟩
        cases same
        exact answered
    · rw [get_response_overflows named fits]
      exact iff_of_false nofun fun ⟨held, path, _⟩ => fits ⟨held, path⟩

theorem get_response_isSome_iff {path : Str} (named : request.path = some path) :
    (∃ r, get_response disk request = some r) ↔ request.Held ∧ PathFits path := by
  constructor
  · rintro ⟨r, answered⟩
    obtain ⟨held, path', named', fits, _⟩ := (get_response_iff r).mp answered
    cases named.symm.trans named'
    exact ⟨held, fits⟩
  · rintro ⟨held, fits⟩
    obtain ⟨status, other, routed⟩ := route_page disk ((request.held_iff.mp held).2.1 path named)
    obtain ⟨r, echoed⟩ : ∃ r, echo_back disk (page disk path) status = some r := ⟨_, if_neg other⟩
    exact ⟨r, (get_response_iff r).mpr ⟨held, path, named, fits, status, other, routed, echoed⟩⟩

end get

theorem post_method_eq {request : http_request} {path : Str} (named : request.path = some path) (content : Str) :
    (Accepted path content → post_method request content = some content) ∧
      (¬ Accepted path content → post_method request content = none) := by
  have different : "/api/echo".toList ≠ "/api/upload".toList := by decide
  have same (name : Str) : request.path = some name ↔ path = name := by rw [named, Option.some.injEq]
  unfold post_method
  by_cases echo : path = "/api/echo".toList
  · rw [if_pos ((same _).mpr echo)]
    by_cases found : idName content = true
    · rw [if_pos found]
      exact ⟨fun _ => rfl, fun refused => absurd (Or.inr ⟨echo, found⟩) refused⟩
    · rw [if_neg found]
      refine ⟨fun accepted => ?_, fun _ => rfl⟩
      rcases accepted with upload | ⟨_, found'⟩
      · exact absurd (echo.symm.trans upload) different
      · exact absurd found' found
  · rw [if_neg (fun other => echo ((same _).mp other))]
    by_cases upload : path = "/api/upload".toList
    · rw [if_pos ((same _).mpr upload)]
      exact ⟨fun _ => rfl, fun refused => absurd (Or.inl upload) refused⟩
    · rw [if_neg (fun other => upload ((same _).mp other))]
      exact ⟨fun accepted => absurd accepted (not_or_intro upload fun both => echo both.1), fun _ => rfl⟩

section post

variable {disk : Disk} {request : http_request} {content path : Str}

theorem post_response_accepted (named : request.path = some path) (held : request.Held) (accepted : Accepted path content) :
    post_response disk request content =
      (if path = "/api/echo".toList then request.content_type else some (http_get_mime_type ".json".toList)).map
        fun content_type => { status_code := 200, content_type, content_length := lengthText content.length, body := content } := by
  unfold post_response
  rw [named, Option.bind_eq_bind, Option.bind_some,
    if_pos (List.forall_mem_append.mpr ⟨held, post_method_stores_fit path content⟩), (post_method_eq named content).1 accepted]

theorem post_response_refused (named : request.path = some path) (held : request.Held) (refused : ¬ Accepted path content) :
    post_response disk request content = echo_back disk (error_page path) 404 := by
  unfold post_response
  rw [named, Option.bind_eq_bind, Option.bind_some,
    if_pos (List.forall_mem_append.mpr ⟨held, post_method_stores_fit path content⟩), (post_method_eq named content).2 refused]

theorem post_response_overflows (long : ¬ request.Held) : post_response disk request content = none := by
  unfold post_response
  cases request.path with
  | none => rfl
  | some path =>
    rw [Option.bind_eq_bind, Option.bind_some, if_neg]
    exact fun all => long (List.forall_mem_append.mp all).1

theorem post_response_isSome_iff (named : request.path = some path) (typed : request.content_type.isSome = true) :
    (∃ r, post_response disk request content = some r) ↔ request.Held := by
  by_cases held : request.Held
  · refine iff_of_true ?_ held
    by_cases accepted : Accepted path content
    · rw [post_response_accepted named held accepted]
      obtain ⟨type, found⟩ := Option.isSome_iff_exists.mp typed
      rw [found]
      split_ifs
      · exact ⟨_, rfl⟩
      · exact ⟨_, rfl⟩
    · exact ⟨_, post_response_refused named held accepted⟩
  · refine iff_of_false ?_ held
    rw [post_response_overflows held]
    exact nofun

end post

end CloudLab.Http
