import Mathlib

/-! Messages read off a stream without a length or a delimiter: a reader with a buffer of
`limit` elements takes the first read that does not fill it for the end of a message. The
stream is the list of its reads. -/

namespace CloudLab.ShortReads

variable {α : Type*}

/-- Reads up to the first one that is not full: what they hold, and the reads left. `none`
when every read is full, and the reader waits for another. -/
def gather (limit : Nat) : List (List α) → Option (List α × List (List α))
  | [] => none
  | read :: reads =>
      if read.length = limit then (gather limit reads).map fun more => (read ++ more.1, more.2)
      else some (read, reads)

def gatherAll (limit : Nat) : Nat → List (List α) → Option (List (List α) × List (List α))
  | 0, reads => some ([], reads)
  | count + 1, reads =>
      (gather limit reads).bind fun first =>
        (gatherAll limit count first.2).map fun later => (first.1 :: later.1, later.2)

def sizes (limit : Nat) (message : List α) : List Nat :=
  List.replicate (message.length / limit) limit ++ [message.length % limit]

/-- The reads of a message that is there as a whole: each takes as much as it can. -/
def pieces (limit : Nat) (message : List α) : List (List α) :=
  if limit = 0 ∨ message = [] then []
  else message.take limit :: pieces limit (message.drop limit)
termination_by message.length
decreasing_by
  next some =>
    have long := List.length_pos_iff.mpr (fun none => some (Or.inr none))
    rw [List.length_drop]
    omega

/-- A cut of the stream of the messages into reads of at least one and at most `limit` elements. -/
structure Cut (limit : Nat) (messages reads : List (List α)) : Prop where
  stream : reads.flatten = messages.flatten
  nonempty : ∀ read ∈ reads, read ≠ []
  fits : ∀ read ∈ reads, read.length ≤ limit

theorem gather_eq_some_iff {limit : Nat} {reads rest : List (List α)} {message : List α} :
    gather limit reads = some (message, rest) ↔
      ∃ full last, reads = full ++ last :: rest ∧ (∀ read ∈ full, read.length = limit) ∧
        last.length ≠ limit ∧ message = full.flatten ++ last := by
  induction reads generalizing message with
  | nil => simp [gather]
  | cons read reads ih =>
    by_cases filled : read.length = limit
    · rw [gather, if_pos filled]
      constructor
      · intro result
        obtain ⟨⟨more, left⟩, later, same⟩ := Option.map_eq_some_iff.mp result
        cases same
        obtain ⟨full, last, split, each, short, whole⟩ := ih.mp later
        refine ⟨read :: full, last, by rw [split]; rfl, ?_, short, ?_⟩
        · intro other member
          rcases List.mem_cons.mp member with rfl | inside
          · exact filled
          · exact each other inside
        · rw [whole, List.flatten_cons, List.append_assoc]
      · intro parts
        obtain ⟨full, last, split, each, short, whole⟩ := parts
        cases full with
        | nil =>
          cases split
          exact absurd filled short
        | cons first full =>
          obtain ⟨rfl, rfl⟩ : read = first ∧ reads = full ++ last :: rest := by simpa using split
          have later : gather limit (full ++ last :: rest) = some (full.flatten ++ last, rest) :=
            ih.mpr ⟨full, last, rfl, fun other member => each other (by simp [member]), short, rfl⟩
          rw [later, Option.map_some, whole, List.flatten_cons, List.append_assoc]
    · rw [gather, if_neg filled]
      constructor
      · intro result
        cases result
        exact ⟨[], read, rfl, by simp, filled, rfl⟩
      · intro parts
        obtain ⟨full, last, split, each, short, whole⟩ := parts
        cases full with
        | nil =>
          cases split
          rw [whole]
          rfl
        | cons first full =>
          cases split
          exact absurd (each read (by simp)) filled

/-- A message that is there as a whole is gathered unless it fills its last read. -/
theorem gather_pieces {limit : Nat} (positive : 0 < limit) (message : List α) :
    gather limit (pieces limit message) =
      if message.length % limit = 0 then none else some (message, []) := by
  induction message using pieces.induct limit with
  | case1 message short =>
    have none : message = [] := short.resolve_left (by omega)
    simp [none, pieces, gather]
  | case2 message some ih =>
    rw [pieces, if_neg some, gather, ih, List.length_take, List.length_drop]
    by_cases long : limit ≤ message.length
    · rw [if_pos (Nat.min_eq_left long), ← Nat.mod_eq_sub_mod long]
      split
      · rfl
      · rw [Option.map_some, List.take_append_drop]
    · have unfilled : message.length % limit ≠ 0 := by
        rw [Nat.mod_eq_of_lt (by omega)]
        exact fun zero => some (Or.inr (List.eq_nil_of_length_eq_zero zero))
      have all : message.take limit = message := List.take_of_length_le (by omega)
      have rest : message.drop limit = [] := List.drop_of_length_le (by omega)
      have nothing : pieces limit ([] : List α) = [] := by simp [pieces]
      rw [if_neg (by omega), if_neg unfilled, all, rest, nothing]

theorem length_flatten_full {limit : Nat} {full : List (List α)} (each : ∀ read ∈ full, read.length = limit) :
    full.flatten.length = full.length * limit := by
  induction full with
  | nil => simp
  | cons read full ih =>
    have rest := ih (fun other member => each other (List.mem_cons_of_mem _ member))
    rw [List.flatten_cons, List.length_append, each read (by simp), rest, List.length_cons,
      Nat.succ_mul, Nat.add_comm]

theorem sizes_of_parts {limit : Nat} {full : List (List α)} {last : List α}
    (each : ∀ read ∈ full, read.length = limit) (short : last.length < limit) (filled : last ≠ []) :
    (full.flatten ++ last).length % limit ≠ 0 ∧
      sizes limit (full.flatten ++ last) = (full ++ [last]).map List.length := by
  have positive : 0 < limit := Nat.zero_lt_of_lt short
  have long : (full.flatten ++ last).length = last.length + limit * full.length := by
    rw [List.length_append, length_flatten_full each, Nat.mul_comm, Nat.add_comm]
  have rest : (full.flatten ++ last).length % limit = last.length := by
    rw [long, Nat.add_mul_mod_self_left, Nat.mod_eq_of_lt short]
  have count : (full.flatten ++ last).length / limit = full.length := by
    rw [long, Nat.add_mul_div_left _ _ positive, Nat.div_eq_of_lt short, Nat.zero_add]
  have lengths : full.map List.length = List.replicate full.length limit := by
    apply List.eq_replicate_iff.mpr
    refine ⟨List.length_map _, ?_⟩
    intro size member
    obtain ⟨read, inside, rfl⟩ := List.mem_map.mp member
    exact each read inside
  constructor
  · rw [rest]
    exact fun zero => filled (List.eq_nil_of_length_eq_zero zero)
  · rw [sizes, rest, count, List.map_append, lengths]
    rfl

theorem Cut.tail {limit : Nat} {message : List α} {messages full rest : List (List α)} {last : List α}
    (cut : Cut limit (message :: messages) (full ++ last :: rest))
    (whole : message = full.flatten ++ last) : Cut limit messages rest := by
  constructor
  · have stream := cut.stream
    rw [List.flatten_append, List.flatten_cons, List.flatten_cons, whole, List.append_assoc] at stream
    exact List.append_cancel_left (List.append_cancel_left stream)
  · exact fun read member => cut.nonempty read (by simp [member])
  · exact fun read member => cut.fits read (by simp [member])

/-- Every message comes back whole, and no read is left or missing, exactly when no message
fills its last read and no read holds parts of two messages or less than it could. -/
theorem gatherAll_iff {limit : Nat} (positive : 0 < limit) (messages reads : List (List α))
    (cut : Cut limit messages reads) :
    gatherAll limit messages.length reads = some (messages, []) ↔
      (∀ message ∈ messages, message.length % limit ≠ 0) ∧
        reads.map List.length = messages.flatMap (sizes limit) := by
  induction messages generalizing reads with
  | nil =>
    have none : reads = [] := by
      have stream := cut.stream
      rw [List.flatten_nil, List.flatten_eq_nil_iff] at stream
      apply List.eq_nil_iff_forall_not_mem.mpr
      exact fun read member => cut.nonempty read member (stream read member)
    subst none
    simp [gatherAll]
  | cons message messages ih =>
    constructor
    · intro result
      obtain ⟨⟨first, left⟩, start, later⟩ := Option.bind_eq_some_iff.mp result
      obtain ⟨⟨others, final⟩, rest, same⟩ := Option.map_eq_some_iff.mp later
      cases same
      obtain ⟨full, last, split, each, unfull, whole⟩ := gather_eq_some_iff.mp start
      subst split
      have fits := cut.fits last (by simp)
      obtain ⟨unfilled, pieces⟩ := sizes_of_parts each (by omega) (cut.nonempty last (by simp))
      obtain ⟨others, lengths⟩ := (ih left (cut.tail whole)).mp rest
      rw [← whole] at unfilled pieces
      constructor
      · intro other member
        rcases List.mem_cons.mp member with rfl | inside
        · exact unfilled
        · exact others other inside
      · rw [List.flatMap_cons, pieces, ← lengths]
        simp
    · intro framed
      obtain ⟨unfilled, lengths⟩ := framed
      rw [List.flatMap_cons, sizes, List.append_assoc] at lengths
      obtain ⟨full, tail, split, fulls, tails⟩ := List.map_eq_append_iff.mp lengths
      obtain ⟨last, rest, shape, size, others⟩ := List.map_eq_cons_iff.mp tails
      subst shape
      subst split
      have each : ∀ read ∈ full, read.length = limit := by
        intro read member
        have inside : read.length ∈ full.map List.length := List.mem_map_of_mem member
        rw [fulls] at inside
        exact List.eq_of_mem_replicate inside
      have count : full.length = message.length / limit := by
        have same := congrArg List.length fulls
        rwa [List.length_map, List.length_replicate] at same
      have short : last.length < limit := by
        rw [size]
        exact Nat.mod_lt _ positive
      have long : message.length = (full.flatten ++ last).length := by
        rw [List.length_append, length_flatten_full each, count, size, Nat.mul_comm]
        exact (Nat.div_add_mod message.length limit).symm
      have whole : message = full.flatten ++ last := by
        have stream := cut.stream
        rw [List.flatten_append, List.flatten_cons, List.flatten_cons, ← List.append_assoc] at stream
        exact (List.append_inj stream long.symm).1.symm
      have start : gather limit (full ++ last :: rest) = some (message, rest) :=
        gather_eq_some_iff.mpr ⟨full, last, rfl, each, by omega, whole⟩
      have later := (ih rest (cut.tail whole)).mpr
        ⟨fun other member => unfilled other (by simp [member]), others⟩
      rw [List.length_cons, gatherAll, start, Option.bind_some, later]
      rfl

end CloudLab.ShortReads
