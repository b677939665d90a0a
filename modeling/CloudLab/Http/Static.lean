import CloudLab.Library.CString
import CloudLab.Library.Paths

/-! How `get_method` chooses the file that `echo_back` sends. The path of the request is put
behind ./static as it is, so that the file may be anywhere. -/

namespace CloudLab.Http

open CloudLab Text Paths

inductive Node
  | file (content : Str)
  | directory
  deriving DecidableEq

/-- The paths that `stat` and `open` find. -/
abbrev Disk := Str → Option Node

/-- The first of these numbers that the path contains. -/
def get_status_of_the_file (path : Str) : Nat :=
  if (strstr "404".toList path).isSome then 404
  else if (strstr "403".toList path).isSome then 403
  else if (strstr "501".toList path).isSome then 501
  else if (strstr "502".toList path).isSome then 502
  else 200

/-- What `get_method` calls: the handler of the API, or `echo_back` with a path and a status. -/
inductive Routed
  | turn_to_api (path : Str)
  | echo_back (path : Str) (status : Nat)
  deriving DecidableEq

def get_method (disk : Disk) (path : Str) : Routed :=
  if (strstr "api".toList path).isSome then .turn_to_api path
  else
    let directory := "./static".toList ++ path
    if directory = "./static/".toList then .echo_back "./static/index.html".toList 200
    else if disk directory = none then .echo_back "./static/404.html".toList 404
    else .echo_back directory (get_status_of_the_file directory)

def reqbuf_size : Nat := 2048

/-- The body that `echo_back` sends unless the status is 201: the beginning of the file. A directory can
be opened and not read. -/
def echo_back_body (disk : Disk) (path : Str) : Option Str :=
  match disk path with
  | some (.file content) => some (content.take reqbuf_size)
  | some .directory | none => none

def Sends (disk : Disk) (path file : Str) : Prop :=
  ∃ status, get_method disk path = .echo_back file status ∧ (echo_back_body disk file).isSome = true

/-- The file stands below ./static, where the server's working directory is `cwd`. -/
def BelowStatic (cwd : List Str) (file : Str) : Prop :=
  ∃ rest, rest ≠ [] ∧ walk cwd (segments file) = cwd ++ ["static".toList] ++ rest

/-- The path leaves as many directories as it climbs, and the names it keeps lead back through
them, into static and further. -/
def Returns (cwd : List Str) (path : Str) : Prop :=
  let path := segments ("./static".toList ++ path)
  ∃ rest, rest ≠ [] ∧ kept path = cwd.drop (cwd.length - climbs path) ++ ["static".toList] ++ rest

theorem belowStatic_iff (cwd : List Str) (path : Str) : BelowStatic cwd ("./static".toList ++ path) ↔ Returns cwd path :=
  walk_below_iff cwd ["static".toList] _

theorem returns_of_level (cwd : List Str) {path : Str} (level : climbs (segments path) = 0) (name : kept (segments path) ≠ []) :
    Returns cwd ('/' :: path) := by
  have split : segments ("./static".toList ++ '/' :: path) = ".".toList :: "static".toList :: segments path := by
    have first := segments_cons (show '/' ∉ ".".toList by decide) ("static".toList ++ '/' :: path)
    rw [segments_cons (show '/' ∉ "static".toList by decide) path] at first
    exact first
  have dot : isDot ".".toList = true := rfl
  have down : isDot "static".toList = false ∧ isUp "static".toList = false := ⟨rfl, rfl⟩
  refine ⟨kept (segments path), name, ?_⟩
  rw [split]
  simp only [kept, climbs, dot, down, level, if_true, if_false, Bool.true_or, Bool.or_self, Bool.false_eq_true,
    Nat.zero_sub, Nat.sub_zero, List.drop_length, List.nil_append, List.singleton_append]

theorem belowStatic_page (cwd : List Str) {file : Str} (page : Str) (named : segments file = [".".toList, "static".toList, page])
    (plain : isDot page = false ∧ isUp page = false) : BelowStatic cwd file := by
  have dot : isDot ".".toList = true := rfl
  have name : isDot "static".toList = false ∧ isUp "static".toList = false := ⟨rfl, rfl⟩
  refine ⟨[page], List.cons_ne_nil _ _, ?_⟩
  simp only [named, walk, List.foldl_cons, List.foldl_nil, enter, dot, name, plain, if_true, Bool.false_eq_true, if_false]

theorem get_method_plain (disk : Disk) {path : Str} (plain : occurs "api".toList path = false) :
    get_method disk path =
      if path = "/".toList then .echo_back "./static/index.html".toList 200
      else if disk ("./static".toList ++ path) = none then .echo_back "./static/404.html".toList 404
      else .echo_back ("./static".toList ++ path) (get_status_of_the_file ("./static".toList ++ path)) := by
  have front : "./static".toList ++ path = "./static/".toList ↔ path = "/".toList := by
    change "./static".toList ++ path = "./static".toList ++ "/".toList ↔ _
    exact List.append_right_inj _
  unfold get_method
  rw [strstr_none plain, if_neg (by decide)]
  dsimp only
  split
  · next is => rw [if_pos (front.mp is)]
  · next other => rw [if_neg fun is => other (front.mpr is)]

/-- The file that is sent stands below ./static exactly when the path is "/", names no file, or
returns to ./static. -/
theorem static_below_iff {disk : Disk} {cwd : List Str} {path : Str} (plain : occurs "api".toList path = false) :
    (∀ file, Sends disk path file → BelowStatic cwd file) ↔
      path = "/".toList ∨ (∀ content, disk ("./static".toList ++ path) ≠ some (.file content)) ∨ Returns cwd path := by
  have routed := get_method_plain disk plain
  by_cases front : path = "/".toList
  · rw [if_pos front] at routed
    refine iff_of_true ?_ (Or.inl front)
    rintro file ⟨status, chosen, _⟩
    rw [routed] at chosen
    cases chosen
    exact belowStatic_page cwd "index.html".toList (by decide) (by decide)
  rw [if_neg front] at routed
  cases found : disk ("./static".toList ++ path) with
  | none =>
    rw [if_pos found] at routed
    refine iff_of_true ?_ (Or.inr (Or.inl fun content => nofun))
    rintro file ⟨status, chosen, _⟩
    rw [routed] at chosen
    cases chosen
    exact belowStatic_page cwd "404.html".toList (by decide) (by decide)
  | some node =>
    rw [if_neg (by rw [found]; exact nofun)] at routed
    cases node with
    | directory =>
      refine iff_of_true ?_ (Or.inr (Or.inl fun content => nofun))
      rintro file ⟨status, chosen, sent⟩
      rw [routed] at chosen
      cases chosen
      rw [echo_back_body, found] at sent
      cases sent
    | file content =>
      have sends : Sends disk path ("./static".toList ++ path) := ⟨_, routed, by rw [echo_back_body, found]; rfl⟩
      rw [← belowStatic_iff]
      constructor
      · exact fun below => Or.inr (Or.inr (below _ sends))
      · rintro (is | unread | returns) file ⟨status, chosen, _⟩
        · exact absurd is front
        · exact absurd rfl (unread content)
        · rw [routed] at chosen
          cases chosen
          exact returns

def everywhere : Disk := fun _ => some (.file "int main".toList)

theorem static_below_iff_back : Sends everywhere "/test/../styles.css".toList "./static/test/../styles.css".toList ∧
    ∀ file, Sends everywhere "/test/../styles.css".toList file → BelowStatic ["lab2".toList] file := by
  have level : climbs (segments "test/../styles.css".toList) = 0 := by decide
  have returns : Returns ["lab2".toList] "/test/../styles.css".toList := returns_of_level ["lab2".toList] level (by decide)
  exact ⟨⟨200, by decide, by decide⟩, (static_below_iff (by decide)).mpr (Or.inr (Or.inr returns))⟩

/-- The server's own source is sent. -/
theorem static_not_below : occurs "api".toList "/../main.c".toList = false ∧
    Sends everywhere "/../main.c".toList "./static/../main.c".toList ∧
      ¬ BelowStatic ["lab2".toList] "./static/../main.c".toList := by
  refine ⟨by decide, ⟨200, by decide, by decide⟩, ?_⟩
  rintro ⟨rest, further, ended⟩
  have here : walk ["lab2".toList] (segments "./static/../main.c".toList) = ["lab2".toList, "main.c".toList] := by decide
  rw [here] at ended
  have second : "main.c".toList = "static".toList := (List.cons.inj (List.cons.inj ended).2).1
  exact absurd second (by decide)

end CloudLab.Http
