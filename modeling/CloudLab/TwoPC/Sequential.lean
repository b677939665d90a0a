import CloudLab.TwoPC.Transaction

/-! What the store is for: one sequential map that answers RESP requests. The program's
parsers and encoders agree with it on the requests a RESP client sends. -/

namespace CloudLab.TwoPC
open Text

inductive Request where
  | set (key value : Str) (more : List Str)
  | get (key : Str)
  | del (key : Str) (keys : List Str)

namespace Request

def strings : Request → List Str
  | .set key value more => SET :: key :: value :: more
  | .get key => [GET, key]
  | .del key keys => DEL :: key :: keys

def encode (r : Request) : Str := respArray r.strings

/-- A string that the line-based parser can take for one. -/
def Plain (s : Str) : Prop := s ≠ [] ∧ '\r' ∉ s ∧ '\n' ∉ s ∧ s.head? ≠ some '*' ∧ s.head? ≠ some '$'

def Valid (r : Request) : Prop := ∀ s ∈ r.strings.tail, Plain s

def joined (value : Str) (more : List Str) : Str := [' '].intercalate (value :: more)

def apply (db : Db) : Request → Db
  | .set key value more => Function.update db key (some (joined value more))
  | .get _ => db
  | .del key keys => fun k => if k ∈ key :: keys then none else db k

/-- The answer of the map. -/
def reply (db : Db) : Request → Str
  | .set _ _ _ => getClientOKMsg
  | .get key => respArray (match db key with
      | none => [NIL]
      | some value => words value)
  | .del key keys => ':' :: decimal ((key :: keys).toFinset.filter fun k => (db k).isSome).card ++ crlf

def store (db : Db) (requests : List Request) : Db := requests.foldl apply db

def replies (db : Db) : List Request → List Str
  | [] => []
  | r :: requests => r.reply db :: replies (r.apply db) requests

theorem store_snoc (db : Db) (requests : List Request) (r : Request) :
    store db (requests ++ [r]) = r.apply (store db requests) := by
  rw [store, List.foldl_append]
  rfl

theorem replies_append (db : Db) (first second : List Request) :
    replies db (first ++ second) = replies db first ++ replies (store db first) second := by
  induction first generalizing db with
  | nil => rfl
  | cons r first ih =>
    rw [List.cons_append, replies, ih (r.apply db), replies, List.cons_append]
    rfl

theorem replies_snoc (db : Db) (requests : List Request) (r : Request) :
    replies db (requests ++ [r]) = replies db requests ++ [r.reply (store db requests)] :=
  replies_append db requests [r]

/-! The program's side: the fields of the request as the coordinator keeps them. -/

def fields : Request → List Str
  | .set key value more => [SET, key, joined value more]
  | .get key => [GET, key]
  | .del key keys => DEL :: key :: keys

end Request

theorem foldl_bulk (elements : List Str) (start : Str) :
    elements.foldl (fun retMsg word => retMsg ++ bulk word) start = start ++ elements.flatMap bulk := by
  induction elements generalizing start with
  | nil => simp
  | cons element elements ih =>
    rw [List.foldl_cons, ih, List.flatMap_cons, List.append_assoc]

def respLines (elements : List Str) : List Str :=
  ('*' :: decimal elements.length) :: elements.flatMap fun word => ['$' :: decimal word.length, word]

theorem respArray_wire (elements : List Str) : respArray elements = wire (respLines elements) := by
  have bulks : elements.flatMap bulk =
      wire (elements.flatMap fun word => ['$' :: decimal word.length, word]) := by
    induction elements with
    | nil => rfl
    | cons element elements ih =>
      rw [List.flatMap_cons, List.flatMap_cons, wire_append, ← ih]
      simp [bulk]
  rw [respArray, respLines, wire_cons, bulks]

def keptLine (line : Str) : Bool := decide (line.head? ≠ some '*' ∧ line.head? ≠ some '$')

theorem payloadLines_lines (lines : List Str) :
    payloadLines (lines.map fun line => line ++ ['\r']) = some (lines.filter keptLine) := by
  induction lines with
  | nil => rfl
  | cons line lines ih =>
    have head : (line ++ ['\r']).head? = some '*' ↔ line.head? = some '*' := by
      cases line <;> simp
    have dollar : (line ++ ['\r']).head? = some '$' ↔ line.head? = some '$' := by
      cases line <;> simp
    rw [List.map_cons, payloadLines, ih, popBack_append_singleton, List.filter_cons]
    by_cases kept : line.head? ≠ some '*' ∧ line.head? ≠ some '$'
    · have here : keptLine line = true := decide_eq_true kept
      rw [if_pos ⟨mt head.mp kept.1, mt dollar.mp kept.2⟩, if_pos here]
      rfl
    · have dropped : keptLine line = false := decide_eq_false kept
      rw [if_neg fun both => kept ⟨mt head.mpr both.1, mt dollar.mpr both.2⟩, dropped]
      rfl

theorem keptLine_header (marker : Char) (isMarker : marker = '*' ∨ marker = '$') (rest : Str) :
    keptLine (marker :: rest) = false := by
  rcases isMarker with rfl | rfl <;> simp [keptLine]

theorem respLines_kept (elements : List Str) :
    (respLines elements).filter keptLine = elements.filter keptLine := by
  rw [respLines, List.filter_cons, keptLine_header '*' (Or.inl rfl)]
  simp only [Bool.false_eq_true, if_false]
  induction elements with
  | nil => rfl
  | cons element elements ih =>
    rw [List.flatMap_cons, List.filter_append, ih, List.filter_cons, keptLine_header '$' (Or.inr rfl)]
    simp only [Bool.false_eq_true, if_false]
    rw [← List.filter_append, List.singleton_append]

theorem respLines_plain {elements : List Str} (plain : ∀ s ∈ elements, '\n' ∉ s) :
    ∀ line ∈ respLines elements, '\n' ∉ line := by
  intro line member
  rcases List.mem_cons.mp member with rfl | member
  · simp [newline_not_mem_decimal]
  · obtain ⟨element, inside, member⟩ := List.mem_flatMap.mp member
    rcases List.mem_cons.mp member with rfl | member
    · simp [newline_not_mem_decimal]
    · rw [List.mem_singleton.mp member]
      exact plain element inside

theorem joinWords_intercalate (value : Str) (more : List Str) :
    more.foldl (fun joined word => joined ++ ' ' :: word) value = [' '].intercalate (value :: more) := by
  induction more generalizing value with
  | nil => simp
  | cons word more ih =>
    rw [List.foldl_cons, ih]
    cases more <;> simp

def acceptLines (split_message : List Str) : Bool × List Str :=
  if split_message.length < 2 ∨ (split_message.head? ≠ some SET ∧ split_message.head? ≠ some GET ∧
      split_message.head? ≠ some DEL) then (false, split_message)
  else if split_message.head? = some SET ∧ split_message.length > 3 then (true, joinValue split_message)
  else (true, split_message)

theorem parseClientMsg_eq {str : Str} (filled : str ≠ []) :
    parseClientMsg str = (payloadLines (getlines str)).map acceptLines := by
  rw [parseClientMsg, if_neg filled]
  cases payloadLines (getlines str) with
  | none => rfl
  | some lines =>
    simp only [Option.bind_eq_bind, Option.bind_some, Option.map_some, acceptLines]
    split_ifs <;> rfl

theorem parseClientMsg_respArray {elements : List Str} (plain : ∀ s ∈ elements, '\n' ∉ s) :
    parseClientMsg (respArray elements) = some (acceptLines (elements.filter keptLine)) := by
  have filled : respArray elements ≠ [] := by simp [respArray]
  rw [parseClientMsg_eq filled, respArray_wire, getlines_wire (respLines_plain plain), payloadLines_lines,
    respLines_kept]
  rfl

theorem acceptLines_strings (r : Request) : acceptLines r.strings = (true, r.fields) := by
  cases r with
  | set key value more =>
    cases more with
    | nil => simp [acceptLines, Request.strings, Request.fields, Request.joined]
    | cons word more =>
      have enough : ¬ (SET :: key :: value :: word :: more).length < 2 := by simp
      have long : (SET :: key :: value :: word :: more).length > 3 := by simp
      simp only [acceptLines, Request.strings, Request.fields, Request.joined, List.head?_cons, enough, long,
        joinValue, joinWords_intercalate, ne_eq, not_true_eq_false, false_and, or_self, if_false, true_and,
        if_true]
  | get key => simp [acceptLines, Request.strings, Request.fields]
  | del key keys => simp [acceptLines, Request.strings, Request.fields]

theorem Request.keptLine_command (r : Request) {s : Str} (member : s ∈ r.strings) :
    keptLine s = true ∨ s ∈ r.strings.tail := by
  have commands : ∀ s ∈ [SET, GET, DEL], keptLine s = true := by decide
  cases r with
  | set =>
    rcases List.mem_cons.mp member with rfl | rest
    · exact Or.inl (commands _ (by simp))
    · exact Or.inr rest
  | get =>
    rcases List.mem_cons.mp member with rfl | rest
    · exact Or.inl (commands _ (by simp))
    · exact Or.inr rest
  | del =>
    rcases List.mem_cons.mp member with rfl | rest
    · exact Or.inl (commands _ (by simp))
    · exact Or.inr rest

theorem parseClientMsg_unmarked {r : Request} (plain : ∀ s ∈ r.strings, '\n' ∉ s)
    (unmarked : ∀ s ∈ r.strings.tail, keptLine s = true) :
    parseClientMsg r.encode = some (true, r.fields) := by
  have kept : r.strings.filter keptLine = r.strings := by
    apply List.filter_eq_self.mpr
    intro s member
    exact (r.keptLine_command member).elim id (unmarked s)
  rw [Request.encode, parseClientMsg_respArray plain, kept, acceptLines_strings]

theorem Request.strings_plain {r : Request} (plain : ∀ s ∈ r.strings.tail, '\n' ∉ s) :
    ∀ s ∈ r.strings, '\n' ∉ s := by
  have commands : ∀ s ∈ [SET, GET, DEL], '\n' ∉ s := by decide
  cases r <;> exact List.forall_mem_cons.mpr ⟨commands _ (by simp), plain⟩

/-- The parser's result on a request that a RESP client sends. -/
theorem parseClientMsg_encode {r : Request} (valid : r.Valid) :
    parseClientMsg r.encode = some (true, r.fields) := by
  apply parseClientMsg_unmarked
  · exact Request.strings_plain fun s member => (valid s member).2.2.1
  · exact fun s member => decide_eq_true (valid s member).2.2.2

/-! What the participants do with the request, and what the coordinator makes of it. -/

def Request.op : Request → Option Op
  | .set key value more => some (.set key (joined value more))
  | .get _ => none
  | .del key keys => some (.del key keys)

theorem eraseAll_eq (db : Db) (keys : List Str) :
    eraseAll db keys = fun k => if k ∈ keys then none else db k := by
  induction keys generalizing db with
  | nil => rfl
  | cons key keys ih =>
    have step : eraseAll db (key :: keys) = eraseAll (Function.update db key none) keys := rfl
    rw [step, ih]
    funext k
    by_cases here : k = key
    · subst here
      simp
    · simp [here]

theorem Request.apply_op {r : Request} {op : Op} (writes : r.op = some op) (db : Db) :
    op.apply db = r.apply db := by
  cases r with
  | set => cases writes; rfl
  | get => cases writes
  | del key keys =>
    cases writes
    exact eraseAll_eq db (key :: keys)

theorem countDeleted_eq (keys : List Str) (db : Db) :
    countDeleted db keys = (keys.toFinset.filter fun k => (db k).isSome).card := by
  induction keys generalizing db with
  | nil => rfl
  | cons key keys ih =>
    rw [countDeleted, List.toFinset_cons]
    split
    · next absent => rw [ih, Finset.filter_insert, if_neg (by simp [absent])]
    · next present =>
      have found : (db key).isSome = true := Option.isSome_iff_ne_none.mpr present
      have split : (insert key keys.toFinset).filter (fun k => (db k).isSome) =
          insert key (keys.toFinset.filter fun k => (Function.update db key none k).isSome) := by
        ext k
        by_cases here : k = key
        · subst here
          simp [found]
        · simp [here]
      have new : key ∉ keys.toFinset.filter fun k => (Function.update db key none k).isSome := by simp
      rw [ih, split, Finset.card_insert_of_notMem new]

theorem getClientGetOrDelMsg_get (id : Int) (first second : Str) {value : Str} (filled : value ≠ []) :
    getClientGetOrDelMsg id [first, second, GET, value] = respArray (words value) := by
  rw [getClientGetOrDelMsg, if_pos rfl, cutStringBySpace, if_neg filled]
  simp only [foldl_bulk]
  rw [respArray]

def PlainStore (db : Db) : Prop := ∀ key value, db key = some value → value ≠ [] ∧ '\n' ∉ value

theorem joined_plain {value : Str} {more : List Str} (first : Request.Plain value)
    (plain : ∀ s ∈ more, Request.Plain s) :
    Request.joined value more ≠ [] ∧ '\n' ∉ Request.joined value more := by
  rw [Request.joined, ← joinWords_intercalate]
  induction more generalizing value with
  | nil => exact ⟨first.1, first.2.2.1⟩
  | cons word more ih =>
    obtain ⟨_, return_, newline, star, dollar⟩ := plain word (by simp)
    obtain ⟨filled, return', newline', star', dollar'⟩ := first
    rw [List.foldl_cons]
    refine ih ?_ fun s member => plain s (List.mem_cons_of_mem _ member)
    refine ⟨by simp, by simp [return_, return'], by simp [newline, newline'], ?_, ?_⟩
    · rwa [List.head?_append_of_ne_nil _ filled]
    · rwa [List.head?_append_of_ne_nil _ filled]

theorem PlainStore.apply {db : Db} (plain : PlainStore db) {r : Request} (valid : r.Valid) :
    PlainStore (r.apply db) := by
  intro k stored found
  cases r with
  | get => exact plain k stored found
  | set key value more =>
    by_cases here : k = key
    · subst here
      simp only [Request.apply, Function.update_self, Option.some.injEq] at found
      subst found
      exact joined_plain (valid value (by simp [Request.strings])) fun s member =>
        valid s (by simp [Request.strings, member])
    · simp only [Request.apply, Function.update_of_ne here] at found
      exact plain k stored found
  | del key keys =>
    simp only [Request.apply] at found
    split at found
    · cases found
    · exact plain k stored found

theorem store_plain {requests : List Request} (valid : ∀ r ∈ requests, r.Valid) {db : Db}
    (plain : PlainStore db) : PlainStore (Request.store db requests) := by
  induction requests generalizing db with
  | nil => exact plain
  | cons r requests ih =>
    exact ih (fun other member => valid other (List.mem_cons_of_mem _ member))
      (plain.apply (valid r (by simp)))

theorem plainStore_empty : PlainStore fun _ => none := fun _ _ found => nomatch found

end CloudLab.TwoPC
