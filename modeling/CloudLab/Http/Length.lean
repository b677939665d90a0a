import CloudLab.Http.Answer

/-! Whether the length that a response announces is that of its body: the file is counted whole and as
an `int`, and sent as far as it fits in one buffer. -/

namespace CloudLab.Http

open CloudLab Text

def Response.Exact (r : Response) : Prop := r.content_length = decimal r.body.length

/-- The file fits in `reqbuf`, or the `int` that its size is converted to is the size of `reqbuf`. -/
def Short (disk : Disk) (file : Str) : Prop :=
  ∀ content, disk file = some (.file content) → content.length ≤ reqbuf_size ∨ content.length % 2 ^ 32 = reqbuf_size

theorem lengthText_nat_iff (n : Nat) : lengthText n = decimal n ↔ n < 10 ^ 9 := by
  rw [← length_decimal_le_iff (by decide)]
  exact List.take_eq_self_iff (decimal n)

/-- Cut after nine characters a number can be taken for none of fewer digits. -/
theorem lengthText_eq_iff (length : Int) {n : Nat} (small : n < 10 ^ 8) : lengthText length = decimal n ↔ length = n := by
  constructor
  · intro same
    have short : (decimal n).length ≤ 8 := (length_decimal_le_iff (by decide)).mpr small
    unfold lengthText snprintf at same
    have cut := congrArg List.length same
    rw [List.length_take] at cut
    rw [List.take_of_length_le (by omega)] at same
    exact decimal_injective same
  · rintro rfl
    exact (lengthText_nat_iff n).mpr (by omega)

theorem toInt_eq_min_iff (size : Nat) :
    toInt size = (min reqbuf_size size : Nat) ↔ size ≤ reqbuf_size ∨ size % 2 ^ 32 = reqbuf_size := by
  simp only [toInt, Int.bmod_def, reqbuf_size]
  omega

theorem object_exact {object : Str} {index : Int} (found : at? jsonobj index = some object) :
    lengthText object.length = decimal object.length := by
  unfold at? at found
  split at found
  · have sizes : ∀ object ∈ jsonobj, object.length < 10 ^ 9 := by decide
    exact (lengthText_nat_iff _).mpr (sizes object (List.mem_of_getElem? found))
  · cases found

theorem echo_back_exact_iff {disk : Disk} {path : Str} {status : Nat} {r : Response}
    (answered : echo_back disk path status = some r) : r.Exact ↔ status = 201 ∨ Short disk path := by
  unfold echo_back at answered
  split at answered
  · next search =>
    obtain ⟨object, found, same⟩ := Option.bind_eq_some_iff.mp answered
    cases same
    exact iff_of_true (object_exact found) (Or.inl search)
  · next other =>
    cases answered
    unfold Response.Exact Short get_file_length echo_back_body
    simp only [other, false_or]
    cases disk path with
    | none => exact iff_of_true (by decide) (by rintro _ ⟨⟩)
    | some node =>
      cases node with
      | directory => exact iff_of_true (by decide) (by rintro _ ⟨⟩)
      | file content =>
        simp only [Option.getD_some, List.length_take, Option.some.injEq, Node.file.injEq, forall_eq']
        have small : min reqbuf_size content.length < 10 ^ 8 := lt_of_le_of_lt (Nat.min_le_left _ _) (by decide)
        rw [lengthText_eq_iff _ small, toInt_eq_min_iff]

theorem get_response_exact_iff (disk : Disk) (request : http_request) :
    (∃ r, get_response disk request = some r ∧ r.Exact) ↔
      request.Held ∧ ∃ path, request.path = some path ∧ PathFits path ∧ Short disk (page disk path) := by
  constructor
  · rintro ⟨r, answered, exact_⟩
    obtain ⟨held, path, named, fits, status, other, _, echoed⟩ := (get_response_iff r).mp answered
    exact ⟨held, path, named, fits, ((echo_back_exact_iff echoed).mp exact_).resolve_left other⟩
  · rintro ⟨held, path, named, fits, short⟩
    obtain ⟨status, other, routed⟩ := route_page disk ((request.held_iff.mp held).2.1 path named)
    obtain ⟨r, echoed⟩ : ∃ r, echo_back disk (page disk path) status = some r := ⟨_, if_neg other⟩
    exact ⟨r, (get_response_iff r).mpr ⟨held, path, named, fits, status, other, routed, echoed⟩,
      (echo_back_exact_iff echoed).mpr (Or.inr short)⟩

/-- The response to a GET announces the length of its body exactly when the strings of the request fit their buffers
and the file that is sent is short. With a POST it is the page of an error that has to be short, and what is sent
back has to have a length of nine digits. -/
theorem content_length_iff (disk : Disk) (request : http_request) :
    ((∃ r, get_response disk request = some r ∧ r.Exact) ↔
      request.Held ∧ ∃ path, request.path = some path ∧ PathFits path ∧ Short disk (page disk path)) ∧
    ∀ content, (∃ r, post_response disk request content = some r ∧ r.Exact) ↔
      request.Held ∧ ∃ path, request.path = some path ∧
        (Accepted path content → (path = "/api/echo".toList → request.content_type.isSome = true) ∧ content.length < 10 ^ 9) ∧
          (¬ Accepted path content → Short disk (error_page path)) := by
  refine ⟨get_response_exact_iff disk request, fun content => ?_⟩
  by_cases held : request.Held
  · cases named : request.path with
    | none =>
      refine iff_of_false ?_ nofun
      rw [post_response, named]
      exact nofun
    | some path =>
      simp only [held, Option.some.injEq, exists_eq_left', true_and]
      by_cases accepted : Accepted path content
      · simp only [accepted, forall_const, not_true_eq_false, false_imp_iff, and_true]
        rw [post_response_accepted named held accepted]
        by_cases echo : path = "/api/echo".toList
        · rw [if_pos echo]
          cases request.content_type with
          | none => exact iff_of_false nofun fun written => nomatch written.1 echo
          | some type =>
            rw [Option.map_some]
            constructor
            · rintro ⟨r, same, exact_⟩
              cases same
              exact ⟨fun _ => rfl, (lengthText_nat_iff _).mp exact_⟩
            · exact fun ⟨_, small⟩ => ⟨_, rfl, (lengthText_nat_iff _).mpr small⟩
        · rw [if_neg echo, Option.map_some]
          constructor
          · rintro ⟨r, same, exact_⟩
            cases same
            exact ⟨fun same => absurd same echo, (lengthText_nat_iff _).mp exact_⟩
          · exact fun ⟨_, small⟩ => ⟨_, rfl, (lengthText_nat_iff _).mpr small⟩
      · simp only [accepted, not_false_eq_true, forall_const, false_imp_iff, true_and]
        rw [post_response_refused named held accepted]
        have sent (r : Response) (echoed : echo_back disk (error_page path) 404 = some r) :
            r.Exact ↔ Short disk (error_page path) :=
          (echo_back_exact_iff echoed).trans (or_iff_right (by decide))
        constructor
        · exact fun ⟨r, echoed, exact_⟩ => (sent r echoed).mp exact_
        · exact fun short => ⟨_, rfl, (sent _ rfl).mpr short⟩
  · rw [post_response_overflows held]
    exact iff_of_false nofun fun ⟨holds, _⟩ => held holds

def frontPageOf (size : Nat) : Disk := fun path =>
  if path = "./static/index.html".toList then some (.file (List.replicate size 'x')) else none

def getRequest (path : Str) : http_request := ⟨some "GET".toList, some path, none, none⟩

/-- Of a page of 2049 bytes the last is announced and not sent, and the name of another page overflows. -/
theorem content_length_too_long : (∃ r, get_response (frontPageOf 2049) (getRequest "/".toList) = some r ∧
      r.content_length = "2049".toList ∧ r.body.length = 2048 ∧ ¬ r.Exact) ∧
    get_response everywhere (getRequest "/hello-world.txt".toList) = none := by
  have answered : (get_response (frontPageOf 2049) (getRequest "/".toList)).any (fun r =>
      decide (r.content_length = "2049".toList ∧ r.body.length = 2048)) = true := by decide +kernel
  obtain ⟨r, found, facts⟩ := (Option.any_eq_true _ _).mp answered
  obtain ⟨announced, sent⟩ := of_decide_eq_true facts
  refine ⟨⟨r, found, announced, sent, fun exact_ => ?_⟩, by decide +kernel⟩
  rw [Response.Exact, announced, sent] at exact_
  revert exact_
  decide

def uploadRequest : http_request := ⟨some "POST".toList, some "/api/upload".toList, some "text".toList, some ⟨68, 2⟩⟩

theorem content_length_iff_short : (∃ r, get_response (frontPageOf 3) (getRequest "/".toList) = some r ∧ r.Exact) ∧
    ∃ r, post_response (frontPageOf 3) uploadRequest "hi".toList = some r ∧ r.Exact := by
  have short : Short (frontPageOf 3) (page (frontPageOf 3) "/".toList) := by
    intro content found
    have here : frontPageOf 3 (page (frontPageOf 3) "/".toList) = some (.file "xxx".toList) := by decide +kernel
    rw [here] at found
    cases found
    exact Or.inl (by decide)
  have accepted : Accepted "/api/upload".toList "hi".toList := Or.inl rfl
  constructor
  · exact (content_length_iff (frontPageOf 3) (getRequest "/".toList)).1.mpr
      ⟨by decide, _, rfl, Or.inr (by decide), short⟩
  · exact ((content_length_iff (frontPageOf 3) uploadRequest).2 "hi".toList).mpr
      ⟨by decide, _, rfl, fun _ => ⟨by decide, by decide⟩, fun refused => absurd accepted refused⟩

end CloudLab.Http
