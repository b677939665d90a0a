import Mathlib

/-! Byte streams that remember the messages they were written as, and a server that reads
its connections one after the other. `serve` is one turn of the server's loop on the bytes
of one message: what the loop does next, and the new state; `none` ends the server. -/

namespace CloudLab.ByteStream

variable {α σ τ : Type*}

/-- A message as it was sent, and what is unread of it. -/
structure Seg (α : Type*) where
  message : List α
  unread : List α
  deriving DecidableEq

namespace Seg

def sent (message : List α) : Seg α := { message := message, unread := message }

def Whole (seg : Seg α) : Prop := seg.unread = seg.message

@[simp] theorem sent_message (message : List α) : (sent message).message = message := rfl

theorem sent_whole (message : List α) : (sent message).Whole := rfl

end Seg

def size (segs : List (Seg α)) : Nat := (segs.map fun seg => seg.unread.length).sum

def readBytes : Nat → List (Seg α) → List α × List (Seg α)
  | 0, segs => ([], segs)
  | _ + 1, [] => ([], [])
  | k + 1, seg :: rest =>
      if k + 1 < seg.unread.length then
        (seg.unread.take (k + 1), { seg with unread := seg.unread.drop (k + 1) } :: rest)
      else
        let more := readBytes (k + 1 - seg.unread.length) rest
        (seg.unread ++ more.1, more.2)

def keepBytes : Nat → List (Seg α) → List (Seg α)
  | _, [] => []
  | k, seg :: rest =>
      if seg.unread.length ≤ k then seg :: keepBytes (k - seg.unread.length) rest
      else if k = 0 then [] else [{ seg with unread := seg.unread.take k }]

def Exact (k : Nat) (segs : List (Seg α)) : Prop :=
  ∃ seg rest, segs = seg :: rest ∧ seg.Whole ∧ k = seg.message.length

instance [DecidableEq α] (seg : Seg α) : Decidable seg.Whole :=
  inferInstanceAs (Decidable (seg.unread = seg.message))

theorem exact_cons {k : Nat} {seg : Seg α} {rest : List (Seg α)} :
    Exact k (seg :: rest) ↔ seg.Whole ∧ k = seg.message.length := by
  constructor
  · rintro ⟨_, _, same, whole, long⟩
    cases same
    exact ⟨whole, long⟩
  · rintro ⟨whole, long⟩
    exact ⟨seg, rest, rfl, whole, long⟩

instance [DecidableEq α] (k : Nat) : (segs : List (Seg α)) → Decidable (Exact k segs)
  | [] => isFalse fun ⟨_, _, same, _⟩ => nomatch same
  | _ :: _ => decidable_of_iff _ exact_cons.symm

theorem readBytes_exact {seg : Seg α} {rest : List (Seg α)} (whole : seg.Whole)
    (nonempty : seg.message ≠ []) :
    readBytes seg.message.length (seg :: rest) = (seg.message, rest) := by
  obtain ⟨k, long⟩ := Nat.exists_eq_succ_of_ne_zero fun zero =>
    nonempty (List.eq_nil_of_length_eq_zero zero)
  have full : seg.unread.length = k + 1 := by rw [whole, long]
  rw [long, readBytes, if_neg (by omega), full, Nat.sub_self, readBytes]
  simp only [List.append_nil]
  rw [whole]

theorem size_exact {seg : Seg α} {rest : List (Seg α)} (whole : seg.Whole) :
    seg.message.length ≤ size (seg :: rest) := by
  rw [size, List.map_cons, List.sum_cons, whole]
  omega

theorem mem_readBytes {k : Nat} {segs : List (Seg α)} :
    ∀ seg ∈ (readBytes k segs).2, ∃ other ∈ segs, seg.message = other.message := by
  induction segs generalizing k with
  | nil => cases k <;> simp [readBytes]
  | cons head rest ih =>
    cases k with
    | zero => exact fun seg member => ⟨seg, member, rfl⟩
    | succ k =>
      intro seg member
      rw [readBytes] at member
      split at member
      · rcases List.mem_cons.mp member with rfl | later
        · exact ⟨head, by simp, rfl⟩
        · exact ⟨seg, List.mem_cons_of_mem _ later, rfl⟩
      · obtain ⟨other, inside, same⟩ := ih seg member
        exact ⟨other, List.mem_cons_of_mem _ inside, same⟩

theorem mem_keepBytes {k : Nat} {segs : List (Seg α)} :
    ∀ seg ∈ keepBytes k segs, ∃ other ∈ segs, seg.message = other.message := by
  induction segs generalizing k with
  | nil => simp [keepBytes]
  | cons head rest ih =>
    intro seg member
    rw [keepBytes] at member
    split at member
    · rcases List.mem_cons.mp member with rfl | later
      · exact ⟨seg, by simp, rfl⟩
      · obtain ⟨other, inside, same⟩ := ih seg later
        exact ⟨other, List.mem_cons_of_mem _ inside, same⟩
    · split at member
      · cases member
      · rw [List.mem_singleton.mp member]
        exact ⟨head, by simp, rfl⟩

theorem forall_keepBytes (M : List α → Prop) {segs : List (Seg α)} (all : ∀ seg ∈ segs, M seg.message)
    (k : Nat) : ∀ seg ∈ keepBytes k segs, M seg.message := by
  intro seg member
  obtain ⟨other, inside, same⟩ := mem_keepBytes seg member
  rw [same]
  exact all other inside

/-- What the server's loop does after a message: it reads the next one, leaves the
connection, or ends the process. -/
inductive Next where
  | again
  | finish
  | shutdown
  deriving DecidableEq, Repr

section server
variable (serve : σ → List α → Option (Next × σ))

/-- A server in state `s` reads what is left of a connection that nothing more arrives on,
message by message: `cut` holds all the way, and `after` when it is done with it. -/
def Reads (cut after : σ → Prop) : List (Seg α) → σ → Prop
  | [], s => cut s ∧ after s
  | seg :: rest, s => cut s ∧ (seg.Whole → ∀ turn, serve s seg.message = some turn →
      match turn.1 with
      | .again => Reads cut after rest turn.2
      | .finish => cut turn.2 ∧ after turn.2
      | .shutdown => False)

def Through (cut after : σ → Prop) : List (List (Seg α)) → σ → Prop
  | [], s => cut s ∧ after s
  | conn :: conns, s => Reads serve cut (Through cut after conns) conn s

def readAll : List (Seg α) → σ → Option σ
  | [], s => some s
  | seg :: rest, s =>
      match serve s seg.message with
      | none => none
      | some turn =>
          match turn.1 with
          | .again => readAll rest turn.2
          | .finish => some turn.2
          | .shutdown => none

def drain : List (List (Seg α)) → σ → Option σ
  | [], s => some s
  | conn :: conns, s => (readAll serve conn s).bind fun t => drain conns t

end server

section rules
variable {serve : σ → List α → Option (Next × σ)} {cut cut' after after' : σ → Prop}

theorem Reads.holds {segs : List (Seg α)} {s : σ} (reads : Reads serve cut after segs s) : cut s := by
  cases segs with
  | nil => exact reads.1
  | cons => exact reads.1

theorem Through.holds {conns : List (List (Seg α))} {s : σ} (through : Through serve cut after conns s) :
    cut s := by
  cases conns with
  | nil => exact through.1
  | cons => exact Reads.holds through

theorem Reads.mono (weaker : ∀ s, cut s → cut' s) (weakerAfter : ∀ s, cut s → after s → after' s)
    {segs : List (Seg α)} {s : σ} (reads : Reads serve cut after segs s) :
    Reads serve cut' after' segs s := by
  induction segs generalizing s with
  | nil => exact ⟨weaker s reads.1, weakerAfter s reads.1 reads.2⟩
  | cons seg rest ih =>
    refine ⟨weaker s reads.1, ?_⟩
    intro whole turn served
    have next := reads.2 whole turn served
    cases verdict : turn.1 with
    | again =>
      simp only [verdict] at next ⊢
      exact ih next
    | finish =>
      simp only [verdict] at next ⊢
      exact ⟨weaker _ next.1, weakerAfter _ next.1 next.2⟩
    | shutdown =>
      simp only [verdict] at next

theorem Through.mono (weaker : ∀ s, cut s → cut' s) (weakerAfter : ∀ s, cut s → after s → after' s)
    {conns : List (List (Seg α))} {s : σ} (through : Through serve cut after conns s) :
    Through serve cut' after' conns s := by
  induction conns generalizing s with
  | nil => exact ⟨weaker s through.1, weakerAfter s through.1 through.2⟩
  | cons conn conns ih => exact Reads.mono weaker (fun _ _ rest => ih rest) through

theorem Reads.of_invariant (M : List α → Prop)
    (kept : ∀ s message turn, cut s → M message → serve s message = some turn →
      turn.1 ≠ .shutdown ∧ cut turn.2)
    {segs : List (Seg α)} (messages : ∀ seg ∈ segs, M seg.message) {s : σ} (start : cut s) :
    Reads serve cut cut segs s := by
  induction segs generalizing s with
  | nil => exact ⟨start, start⟩
  | cons seg rest ih =>
    refine ⟨start, ?_⟩
    intro whole turn served
    obtain ⟨runs, next⟩ := kept s seg.message turn start (messages seg (by simp)) served
    cases verdict : turn.1 with
    | again =>
      simp only
      exact ih (fun other member => messages other (List.mem_cons_of_mem _ member)) next
    | finish =>
      simp only
      exact ⟨next, next⟩
    | shutdown => exact absurd verdict runs

theorem through_snoc (conns : List (List (Seg α))) (conn : List (Seg α)) (s : σ) :
    Through serve cut after (conns ++ [conn]) s ↔
      Through serve cut (Reads serve cut after conn) conns s := by
  induction conns generalizing s with
  | nil =>
    constructor
    · intro through
      have reads : Reads serve cut (Through serve cut after []) conn s := through
      exact ⟨reads.holds, reads.mono (fun _ holds => holds) (fun _ _ rest => rest.2)⟩
    · intro through
      exact through.2.mono (fun _ holds => holds) (fun _ here rest => ⟨here, rest⟩)
  | cons first conns ih =>
    constructor
    · intro through
      exact Reads.mono (fun _ holds => holds) (fun t _ rest => (ih t).mp rest) through
    · intro through
      exact Reads.mono (fun _ holds => holds) (fun t _ rest => (ih t).mpr rest) through

theorem Through.done {conns : List (List (Seg α))} (read : ∀ conn ∈ conns, conn = []) {s : σ}
    (through : Through serve cut after conns s) : after s := by
  induction conns with
  | nil => exact through.2
  | cons conn conns ih =>
    have empty : conn = [] := read conn (by simp)
    subst empty
    exact ih (fun other member => read other (List.mem_cons_of_mem _ member)) through.2

/-- A relation that every turn keeps carries the promise over to another server. -/
theorem Reads.transfer {serve' : τ → List α → Option (Next × τ)} {cutτ afterτ : τ → Prop}
    (rel : σ → τ → Prop) (carried : ∀ s t, rel s t → cut s → cutτ t)
    (simulates : ∀ s t message turn', rel s t → cut s → serve' t message = some turn' →
      ∃ turn, serve s message = some turn ∧ turn.1 = turn'.1 ∧ rel turn.2 turn'.2)
    (ends : ∀ s t, rel s t → cut s → after s → afterτ t)
    {segs : List (Seg α)} {s : σ} {t : τ} (same : rel s t) (reads : Reads serve cut after segs s) :
    Reads serve' cutτ afterτ segs t := by
  induction segs generalizing s t with
  | nil => exact ⟨carried s t same reads.1, ends s t same reads.1 reads.2⟩
  | cons seg rest ih =>
    refine ⟨carried s t same reads.1, ?_⟩
    intro whole turn' served'
    obtain ⟨turn, served, verdict, next⟩ := simulates s t seg.message turn' same reads.1 served'
    have result := reads.2 whole turn served
    rw [verdict] at result
    cases kind : turn'.1 with
    | again =>
      simp only [kind] at result ⊢
      exact ih next result
    | finish =>
      simp only [kind] at result ⊢
      exact ⟨carried _ _ next result.1, ends _ _ next result.1 result.2⟩
    | shutdown =>
      simp only [kind] at result

theorem Through.transfer {serve' : τ → List α → Option (Next × τ)} {cutτ afterτ : τ → Prop}
    (rel : σ → τ → Prop) (carried : ∀ s t, rel s t → cut s → cutτ t)
    (simulates : ∀ s t message turn', rel s t → cut s → serve' t message = some turn' →
      ∃ turn, serve s message = some turn ∧ turn.1 = turn'.1 ∧ rel turn.2 turn'.2)
    (ends : ∀ s t, rel s t → cut s → after s → afterτ t)
    {conns : List (List (Seg α))} {s : σ} {t : τ} (same : rel s t)
    (through : Through serve cut after conns s) : Through serve' cutτ afterτ conns t := by
  induction conns generalizing s t with
  | nil => exact ⟨carried s t same through.1, ends s t same through.1 through.2⟩
  | cons conn conns ih =>
    exact Reads.transfer rel carried simulates (fun _ _ next _ rest => ih next rest) same through

theorem Reads.readAll {R : σ → Prop} {segs : List (Seg α)} {s : σ} (reads : Reads serve cut after segs s)
    (final : ∀ t, ByteStream.readAll serve segs s = some t → R t) :
    Reads serve cut (fun t => after t ∧ R t) segs s := by
  induction segs generalizing s with
  | nil => exact ⟨reads.1, reads.2, final s rfl⟩
  | cons seg rest ih =>
    refine ⟨reads.1, ?_⟩
    intro whole turn served
    have next := reads.2 whole turn served
    cases verdict : turn.1 with
    | again =>
      simp only [verdict] at next ⊢
      apply ih next
      intro t read
      apply final
      simp only [ByteStream.readAll, served, verdict, read]
    | finish =>
      simp only [verdict] at next ⊢
      refine ⟨next.1, next.2, final _ ?_⟩
      simp only [ByteStream.readAll, served, verdict]
    | shutdown =>
      simp only [verdict] at next

theorem Through.drain {R : σ → Prop} {conns : List (List (Seg α))} {s : σ}
    (through : Through serve cut after conns s) (final : ∀ t, drain serve conns s = some t → R t) :
    Through serve cut (fun t => after t ∧ R t) conns s := by
  induction conns generalizing s with
  | nil => exact ⟨through.1, through.2, final s rfl⟩
  | cons conn conns ih =>
    have reads : Reads serve cut (fun t => Through serve cut after conns t ∧
        ∀ u, ByteStream.drain serve conns t = some u → R u) conn s := by
      apply Reads.readAll through
      intro t read u rest
      apply final
      rw [ByteStream.drain, read]
      exact rest
    exact reads.mono (fun _ holds => holds) (fun _ _ both => ih both.1 both.2)

end rules

end CloudLab.ByteStream
