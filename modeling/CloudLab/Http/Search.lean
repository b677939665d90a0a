import CloudLab.Http.Answer

/-! A search by id and name. Its path is longer than the buffer that it is stored in; and with more room the digits
of the id are converted to an `int`, which is only compared with the number of records from above. -/

namespace CloudLab.Http

open CloudLab Text

def searchPath (id name : Str) : Str := "/api/search".toList ++ ("?id=".toList ++ (id ++ ("&name=".toList ++ name)))

def Known (id : Nat) (name : Str) : Prop :=
  (id = 1 ∨ id = 3) ∧ name = "Foo".toList ∨ (id = 2 ∨ id = 4) ∧ name = "Bar".toList

instance (id : Nat) (name : Str) : Decidable (Known id name) := inferInstanceAs (Decidable (_ ∨ _))

def record (id : Nat) (name : Str) : Str :=
  "[\x7b\"id\":".toList ++ decimal id ++ ",\"name\":\"".toList ++ name ++ "\"\x7d]".toList

/-- What a search for this number and this name is to be answered with. -/
def searched (disk : Disk) (id : Nat) (name : Str) : Option Response :=
  if Known id name then
    some { status_code := 200, content_type := "application/json".toList,
           content_length := decimal (record id name).length, body := record id name }
  else echo_back disk "./data/not_found.json".toList 404

/-- The `int` that the digits are converted to is positive, and if it is the number of a record under
this name, then the digits are too. -/
def Unwrapped (number : Nat) (name : Str) : Prop :=
  let int := min number (2 ^ 63 - 1) % 2 ^ 32
  0 < int ∧ int < 2 ^ 31 ∧ (number ≤ 4 ∨ ¬ Known int name)

section digits

variable {D N : Str}

theorem takeWhile_group {p : Char → Bool} {group : Str} (all : ∀ c ∈ group, p c = true) {c : Char} (other : p c = false)
    (rest : Str) : (group ++ c :: rest).takeWhile p = group ∧ (group ++ c :: rest).dropWhile p = c :: rest := by
  rw [List.takeWhile_append_of_pos all, List.dropWhile_append_of_pos all]
  simp [other]

theorem regexec_append {front : Str} (plain : '?' ∉ front) (s : Str) : regexec (front ++ s) = regexec s := by
  induction front with
  | nil => rfl
  | cons c front ih =>
    rw [List.mem_cons, not_or] at plain
    have away : "?id=".toList.isPrefixOf (c :: (front ++ s)) = false := by
      change ('?' == c && _) = false
      rw [beq_eq_false_iff_ne.mpr plain.1, Bool.false_and]
    have here : searchHere (c :: (front ++ s)) = none := if_neg fun all => by
      rw [away] at all
      exact Bool.false_ne_true all.1
    rw [List.cons_append, regexec, here, Option.none_or, ih plain.2]

theorem regexec_searchPath (digits : D ≠ [] ∧ ∀ c ∈ D, c.isDigit = true) (word : N ≠ [] ∧ ∀ c ∈ N, c.isAlphanum = true) :
    regexec (searchPath D N) = some (D, N) := by
  have other : '&'.isDigit = false := by decide
  have id : (D ++ ("&name=".toList ++ N)).takeWhile Char.isDigit = D ∧
      (D ++ ("&name=".toList ++ N)).dropWhile Char.isDigit = "&name=".toList ++ N :=
    takeWhile_group digits.2 other ("name=".toList ++ N)
  have name : N.takeWhile Char.isAlphanum = N := List.takeWhile_eq_self_iff.mpr word.2
  have here : searchHere ("?id=".toList ++ (D ++ ("&name=".toList ++ N))) = some (D, N) := by
    have front : ("?id=".toList ++ (D ++ ("&name=".toList ++ N))).drop "?id=".length = D ++ ("&name=".toList ++ N) := rfl
    have back : ("&name=".toList ++ N).drop "&name=".length = N := rfl
    have first : "?id=".toList.isPrefixOf ("?id=".toList ++ (D ++ ("&name=".toList ++ N))) = true :=
      List.isPrefixOf_iff_prefix.mpr (List.prefix_append _ _)
    have second : "&name=".toList.isPrefixOf ("&name=".toList ++ N) = true :=
      List.isPrefixOf_iff_prefix.mpr (List.prefix_append _ _)
    simp only [searchHere, front, id.1, id.2, back, name, first, second, ne_eq, digits.1, word.1, not_false_eq_true, and_self, if_true]
  have cons : "?id=".toList ++ (D ++ ("&name=".toList ++ N)) = '?' :: ("id=".toList ++ (D ++ ("&name=".toList ++ N))) := rfl
  have plain : '?' ∉ "/api/search".toList := by decide
  rw [cons] at here
  unfold searchPath
  rw [regexec_append plain, cons, regexec, here]
  exact Option.some_or

theorem turn_to_api_search (digits : D ≠ [] ∧ ∀ c ∈ D, c.isDigit = true) (word : N ≠ [] ∧ ∀ c ∈ N, c.isAlphanum = true) :
    turn_to_api (searchPath D N) =
      if 4 < atoi D then some ("./data/not_found.json".toList, 404)
      else (at? id_map_name (atoi D - 1)).bind fun known =>
        if N ≠ known then some ("./data/not_found.json".toList, 404) else some (D, 201) := by
  have start : (searchPath D N).take 6 = "/api/s".toList := rfl
  have check : searchPath D N ≠ "/api/check".toList := fun same => by
    rw [same] at start
    revert start
    decide
  have list : searchPath D N ≠ "/api/list".toList := fun same => by
    rw [same] at start
    revert start
    decide
  have search : (strstr "search?".toList (searchPath D N)).isSome = true := by
    rw [strstr_isSome]
    exact occurs_append "/api/".toList "search?".toList ("id=".toList ++ (D ++ ("&name=".toList ++ N)))
  rw [turn_to_api, if_neg check, if_neg list, if_pos search, regexec_searchPath digits word]
  rfl

end digits

section search

variable {disk : Disk} {D N : Str}

theorem sends_search (digits : D ≠ [] ∧ ∀ c ∈ D, c.isDigit = true) (word : N ≠ [] ∧ ∀ c ∈ N, c.isAlphanum = true) :
    sends disk (searchPath D N) =
      if 4 < atoi D then echo_back disk "./data/not_found.json".toList 404
      else (at? id_map_name (atoi D - 1)).bind fun known =>
        if N ≠ known then echo_back disk "./data/not_found.json".toList 404 else echo_back disk D 201 := by
  have api : (strstr "api".toList (searchPath D N)).isSome = true := by
    rw [strstr_isSome]
    exact occurs_append "/".toList "api".toList ("/search?id=".toList ++ (D ++ ("&name=".toList ++ N)))
  have routed : route disk (searchPath D N) = turn_to_api (searchPath D N) := by
    unfold route get_method
    rw [if_pos api]
  rw [sends, routed, turn_to_api_search digits word]
  split
  · rfl
  · cases at? id_map_name (atoi D - 1) with
    | none => rfl
    | some known =>
      simp only [Option.bind_some]
      split <;> rfl

theorem Known.bounds {id : Nat} (known : Known id N) : 1 ≤ id ∧ id ≤ 4 := by
  unfold Known at known
  omega

theorem name_known_iff {id : Nat} (small : 1 ≤ id ∧ id ≤ 4) {known : Str} (found : at? id_map_name ((id : Int) - 1) = some known) :
    N = known ↔ Known id N := by
  obtain ⟨low, high⟩ := small
  unfold Known
  interval_cases id <;> cases found <;> simp

theorem echo_back_object {id : Nat} (int : atoi D = id) (known : Known id N) :
    echo_back disk D 201 = some ⟨200, "application/json".toList, decimal (record id N).length, record id N⟩ := by
  rw [echo_back, if_pos rfl, int]
  unfold Known at known
  rcases known with ⟨rfl | rfl, rfl⟩ | ⟨rfl | rfl, rfl⟩ <;> decide +kernel

theorem searched_ne_none (disk : Disk) (id : Nat) (name : Str) : searched disk id name ≠ none := by
  unfold searched
  split
  · exact nofun
  · exact nofun

theorem searched_unknown {id : Nat} (unknown : ¬ Known id N) :
    searched disk id N = echo_back disk "./data/not_found.json".toList 404 := if_neg unknown

theorem searched_known {id : Nat} (known : Known id N) :
    searched disk id N = some ⟨200, "application/json".toList, decimal (record id N).length, record id N⟩ := if_pos known

theorem searched_known_ne {id : Nat} (known : Known id N) :
    searched disk id N ≠ echo_back disk "./data/not_found.json".toList 404 := by
  rw [searched_known known]
  intro same
  have status := congrArg (Option.map Response.status_code) same
  revert status
  exact fun status => absurd (Option.some.inj status) (show (200 : Nat) ≠ 404 by decide)

end search

/-- With room for the path a search is answered with the record of its number and name, or else with the page for
what is not found, exactly when the `int` that its digits are converted to is no other record and not below 1. -/
theorem sends_search_iff {disk : Disk} {D N : Str} (digits : D ≠ [] ∧ ∀ c ∈ D, c.isDigit = true)
    (word : N ≠ [] ∧ ∀ c ∈ N, c.isAlphanum = true) :
    sends disk (searchPath D N) = searched disk (Nat.ofDigitChars 10 D 0) N ↔ Unwrapped (Nat.ofDigitChars 10 D 0) N := by
  rw [sends_search digits word]
  unfold Unwrapped
  have value := atoi_digits digits.2 rfl
  generalize Nat.ofDigitChars 10 D 0 = number at value ⊢
  have small : number ≤ 4 → min number (2 ^ 63 - 1) % 2 ^ 32 = number := by omega
  have bounded : min number (2 ^ 63 - 1) % 2 ^ 32 < 2 ^ 32 := Nat.mod_lt _ (by decide)
  generalize min number (2 ^ 63 - 1) % 2 ^ 32 = int at small bounded value ⊢
  by_cases fits : 0 < int ∧ int < 2 ^ 31
  · rw [if_pos fits.2] at value
    by_cases few : int ≤ 4
    · -- the number of a record
      have inside : 1 ≤ int ∧ int ≤ 4 := ⟨fits.1, few⟩
      obtain ⟨known, found⟩ : ∃ known, at? id_map_name ((int : Int) - 1) = some known := by
        obtain ⟨low, high⟩ := inside
        interval_cases int <;> exact ⟨_, rfl⟩
      rw [if_neg (by omega), value, found, Option.bind_some]
      by_cases named : N = known
      · have matching := (name_known_iff inside found).mp named
        rw [if_neg (not_not_intro named), echo_back_object value matching]
        simp only [fits, matching, not_true_eq_false, or_false, true_and]
        constructor
        · intro same
          by_contra more
          rw [searched_unknown fun known => more known.bounds.2] at same
          exact searched_known_ne matching ((searched_known matching).trans same)
        · intro less
          rw [← small less, searched_known matching]
      · have other : ¬ Known int N := fun known => named ((name_known_iff inside found).mpr known)
        rw [if_pos named]
        refine iff_of_true (searched_unknown fun known => other ?_).symm ⟨fits.1, fits.2, Or.inr other⟩
        rw [small known.bounds.2]
        exact known
    · rw [if_pos (by omega)]
      refine iff_of_true (searched_unknown fun known => ?_).symm ⟨fits.1, fits.2, Or.inr fun known => few known.bounds.2⟩
      have same := small known.bounds.2
      have bound := known.bounds.2
      omega
  · -- 0, or a negative number: the name before the first is asked for
    have low : atoi D ≤ 0 := by
      rw [value]
      split <;> omega
    have none : at? id_map_name (atoi D - 1) = none := if_neg (by omega)
    rw [if_neg (by omega), none, Option.bind_none]
    exact iff_of_false (searched_ne_none disk number N).symm fun all => fits ⟨all.1, all.2.1⟩

theorem searchPath_length {D N : Str} (digits : D ≠ []) (word : N ≠ []) : 23 ≤ (searchPath D N).length := by
  have digit := List.length_pos_iff.mpr digits
  have letter := List.length_pos_iff.mpr word
  have parts : "/api/search".toList.length = 11 ∧ "?id=".toList.length = 4 ∧ "&name=".toList.length = 6 := ⟨rfl, rfl, rfl⟩
  unfold searchPath
  generalize "/api/search".toList = front at parts ⊢
  generalize "?id=".toList = question at parts ⊢
  generalize "&name=".toList = middle at parts ⊢
  simp only [List.length_append]
  omega

/-- No search is answered as it should be: its path and the NUL need 24 of 20 bytes. -/
theorem search_overflows (disk : Disk) {request : http_request} {D N : Str} (digits : D ≠ [] ∧ ∀ c ∈ D, c.isDigit = true)
    (word : N ≠ [] ∧ ∀ c ∈ N, c.isAlphanum = true) (asked : request.path = some (searchPath D N)) :
    get_response disk request ≠ searched disk (Nat.ofDigitChars 10 D 0) N := by
  have long : ¬ (request.Held ∧ PathFits (searchPath D N)) := by
    rintro ⟨held, _⟩
    have short := (request.held_iff.mp held).2.1 _ asked
    have size := searchPath_length digits.1 word.1
    omega
  rw [get_response_overflows asked long]
  exact (searched_ne_none disk _ N).symm

def firstSearch : http_request := ⟨some "GET".toList, some (searchPath "1".toList "Foo".toList), none, none⟩

theorem search_overflows_first : ∃ r, searched (fun _ => none) 1 "Foo".toList = some r ∧
    get_response (fun _ => none) firstSearch ≠ some r := by
  have digits : "1".toList ≠ [] ∧ ∀ c ∈ "1".toList, c.isDigit = true :=
    ⟨by decide, List.all_eq_true.mp (show "1".toList.all Char.isDigit = true by decide)⟩
  have word : "Foo".toList ≠ [] ∧ ∀ c ∈ "Foo".toList, c.isAlphanum = true :=
    ⟨by decide, List.all_eq_true.mp (show "Foo".toList.all Char.isAlphanum = true by decide)⟩
  have number : Nat.ofDigitChars 10 "1".toList 0 = 1 := by decide
  have asked : firstSearch.path = some (searchPath "1".toList "Foo".toList) := rfl
  have fails := search_overflows (fun _ => none) digits word asked
  have known : Known 1 "Foo".toList := by decide
  rw [number, searched_known known] at fails
  exact ⟨_, searched_known known, fails⟩

/-- The path of the first record does not fit. With more room the id 0 has the name before the first one looked at,
and 2^32 + 1 finds the first record. -/
theorem search_fails : get_response (fun _ => none) firstSearch = none ∧
    (searched (fun _ => none) 1 "Foo".toList).map Response.status_code = some 200 ∧
    (sends (fun _ => none) (searchPath "0".toList "Foo".toList) = none ∧ searched (fun _ => none) 0 "Foo".toList ≠ none) ∧
    (sends (fun _ => none) (searchPath "4294967297".toList "Foo".toList)).map Response.status_code = some 200 ∧
      (searched (fun _ => none) 4294967297 "Foo".toList).map Response.status_code = some 404 := by
  decide +kernel

end CloudLab.Http
