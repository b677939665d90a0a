import Mathlib

/-! A queue handed from one thread to another: a mutex, a condition variable, a flag that is
set once nothing more will come, and the consumer that decides to stop from an empty queue
and the flag. Every access is a step of its own. -/

namespace CloudLab

structure Channel (α : Type) where
  queue : List α
  done : Bool
  locked : Bool
  waiting : Bool
  deriving DecidableEq

/-- Where a consumer stands between the top of its loop and its first use of the queue:
`wait` tests its predicate, blocks and tests again, and the loop then tests the same two
conditions once more before it stops. -/
inductive Gate
  | lock | waitEmpty | waitDone | block | asleep | testEmpty | testDone
  deriving DecidableEq

inductive Ahead
  | wait (gate : Gate)
  | take
  | stop

variable {α : Type} {c c' : Channel α}

namespace Channel

def new : Channel α := ⟨[], false, false, false⟩

def lock (c : Channel α) : Option (Channel α) := if c.locked then none else some { c with locked := true }

def unlock (c : Channel α) : Channel α := { c with locked := false }

def push (c : Channel α) (x : α) : Channel α := { c with queue := c.queue ++ [x] }

def front (c : Channel α) : Option α := c.queue.head?

def pop (c : Channel α) : Option (Channel α) :=
  match c.queue with
  | [] => none
  | _ :: rest => some { c with queue := rest }

def close (c : Channel α) : Channel α := { c with done := true }

def block (c : Channel α) : Channel α := { c with locked := false, waiting := true }

def notify (c : Channel α) : Channel α := { c with waiting := false }

theorem lock_eq (taken : c.lock = some c') : c' = { c with locked := true } := by
  unfold lock at taken
  split at taken
  · cases taken
  · exact (Option.some.inj taken).symm

theorem lock_none : c.lock = none ↔ c.locked = true := by
  unfold lock
  split <;> simp_all

theorem front_eq {x : α} (found : c.front = some x) : ∃ rest, c.queue = x :: rest :=
  List.head?_eq_some_iff.mp found

theorem pop_eq {x : α} {rest : List α} (queue : c.queue = x :: rest) (popped : c.pop = some c') :
    c' = { c with queue := rest } := by
  unfold pop at popped
  rw [queue] at popped
  exact (Option.some.inj popped).symm

theorem pop_done (popped : c.pop = some c') : c'.done = c.done := by
  unfold pop at popped
  split at popped
  · cases popped
  · cases popped
    rfl

/-- What the producer's side and the mutex may do to the channel while the consumer does
nothing: items are added only as long as the flag is not set, and the flag stays set. -/
structure Fed (c c' : Channel α) : Prop where
  queue : ∃ new, c'.queue = c.queue ++ new ∧ (c.done = true → new = [])
  done : c.done = true → c'.done = true

namespace Fed

theorem refl (c : Channel α) : c.Fed c := ⟨⟨[], by simp⟩, id⟩

theorem lock (taken : c.lock = some c') : c.Fed c' := by
  rw [lock_eq taken]
  exact ⟨⟨[], by simp⟩, id⟩

theorem unlock (c : Channel α) : c.Fed c.unlock := ⟨⟨[], by simp [Channel.unlock]⟩, id⟩

theorem notify (c : Channel α) : c.Fed c.notify := ⟨⟨[], by simp [Channel.notify]⟩, id⟩

theorem close (c : Channel α) : c.Fed c.close := ⟨⟨[], by simp [Channel.close]⟩, fun _ => rfl⟩

theorem push (x : α) (going : c.done ≠ true) : c.Fed (c.push x) :=
  ⟨⟨[x], rfl, fun set => absurd set going⟩, id⟩

theorem cons (fed : c.Fed c') {x : α} {rest : List α} (queue : c.queue = x :: rest) :
    ∃ rest', c'.queue = x :: rest' := by
  obtain ⟨new, grown, _⟩ := fed.queue
  exact ⟨rest ++ new, by rw [grown, queue, List.cons_append]⟩

theorem ne_nil (fed : c.Fed c') (filled : c.queue ≠ []) : c'.queue ≠ [] := by
  obtain ⟨x, rest, queue⟩ := List.exists_cons_of_ne_nil filled
  obtain ⟨rest', queue'⟩ := fed.cons queue
  rw [queue']
  exact List.cons_ne_nil x rest'

theorem drained (fed : c.Fed c') (drained : c.queue = [] ∧ c.done = true) : c'.queue = [] ∧ c'.done = true := by
  obtain ⟨new, grown, none⟩ := fed.queue
  rw [grown, drained.1, none drained.2]
  exact ⟨rfl, fed.done drained.2⟩

end Fed

end Channel

namespace Gate

def next (c : Channel α) : Gate → Option (Channel α × Ahead)
  | lock => c.lock.map fun c => (c, .wait waitEmpty)
  | waitEmpty => some (c, .wait (if c.queue.isEmpty then waitDone else testEmpty))
  | waitDone => some (c, .wait (if c.done then testEmpty else block))
  | block => some (c.block, .wait asleep)
  | asleep => if c.waiting then none else c.lock.map fun c => (c, .wait waitEmpty)
  | testEmpty => some (c, if c.queue.isEmpty then .wait testDone else .take)
  | testDone => some (c, if c.done then .stop else .take)

def Holds (c : Channel α) : Gate → Prop
  | testEmpty => c.queue ≠ [] ∨ c.done = true
  | testDone => c.queue = [] ∧ c.done = true
  | _ => True

end Gate

def Ahead.Holds (c : Channel α) : Ahead → Prop
  | .wait gate => gate.Holds c
  | .take => c.queue ≠ []
  | .stop => c.queue = [] ∧ c.done = true

namespace Gate

theorem Holds.fed {g : Gate} (known : g.Holds c) (fed : c.Fed c') : g.Holds c' := by
  cases g with
  | testEmpty => exact known.imp fed.ne_nil fed.done
  | testDone => exact fed.drained known
  | lock | waitEmpty | waitDone | block | asleep => trivial

theorem next_lock {g : Gate} {ahead : Ahead} (taking : g = lock ∨ g = asleep)
    (moved : g.next c = some (c', ahead)) : c' = { c with locked := true } ∧ ahead = .wait waitEmpty := by
  have acquired (step : (c.lock.map fun c => (c, Ahead.wait waitEmpty)) = some (c', ahead)) :
      c' = { c with locked := true } ∧ ahead = .wait waitEmpty := by
    obtain ⟨d, taken, same⟩ := Option.map_eq_some_iff.mp step
    cases same
    exact ⟨Channel.lock_eq taken, rfl⟩
  rcases taking with rfl | rfl
  · exact acquired moved
  · change (if c.waiting then none else c.lock.map fun c => (c, Ahead.wait waitEmpty)) = some (c', ahead) at moved
    by_cases waiting : c.waiting = true
    · rw [if_pos waiting] at moved
      cases moved
    · rw [if_neg waiting] at moved
      exact acquired moved

theorem next_none {g : Gate} :
    g.next c = none ↔ g = asleep ∧ c.waiting = true ∨ (g = lock ∨ g = asleep) ∧ c.locked = true := by
  cases g with
  | lock => simp [next, Channel.lock_none]
  | asleep =>
    by_cases waiting : c.waiting = true
    · simp [next, waiting]
    · simp [next, waiting, Channel.lock_none]
  | waitEmpty | waitDone | block | testEmpty | testDone => simp [next]

theorem next_same {g : Gate} {ahead : Ahead} (moved : g.next c = some (c', ahead)) :
    c'.queue = c.queue ∧ c'.done = c.done := by
  cases g with
  | lock =>
    rw [(next_lock (Or.inl rfl) moved).1]
    exact ⟨rfl, rfl⟩
  | asleep =>
    rw [(next_lock (Or.inr rfl) moved).1]
    exact ⟨rfl, rfl⟩
  | waitEmpty | waitDone | testEmpty | testDone | block =>
    cases moved
    exact ⟨rfl, rfl⟩

/-- The predicate of `wait` is tested again after it, so that neither a late item nor a late
flag is missed: the flag alone never stops the consumer. -/
theorem next_holds {g : Gate} {ahead : Ahead} (known : g.Holds c) (moved : g.next c = some (c', ahead)) :
    ahead.Holds c' := by
  cases g with
  | lock =>
    rw [(next_lock (Or.inl rfl) moved).2]
    trivial
  | asleep =>
    rw [(next_lock (Or.inr rfl) moved).2]
    trivial
  | block =>
    cases moved
    trivial
  | waitEmpty =>
    cases moved
    cases queue : c.queue with
    | nil => trivial
    | cons x rest => exact Or.inl (by simp [queue])
  | waitDone =>
    cases moved
    cases set : c.done with
    | false => trivial
    | true => exact Or.inr set
  | testEmpty =>
    cases moved
    cases queue : c.queue with
    | nil => exact ⟨queue, known.resolve_left (fun filled => filled queue)⟩
    | cons x rest => exact (by simp [queue] : c.queue ≠ [])
  | testDone =>
    cases moved
    rw [if_pos known.2]
    exact known

def Owns : Gate → Prop
  | lock | asleep => False
  | waitEmpty | waitDone | block | testEmpty | testDone => True

def Missed (c : Channel α) : Gate → Prop
  | block => True
  | asleep => c.waiting = true
  | lock | waitEmpty | waitDone | testEmpty | testDone => False

end Gate

def Ahead.Owns : Ahead → Prop
  | .wait gate => gate.Owns
  | .take | .stop => True

def Ahead.Missed (c : Channel α) : Ahead → Prop
  | .wait gate => gate.Missed c
  | .take | .stop => False

namespace Gate

theorem Missed.of_waiting {g : Gate} (missed : g.Missed c) (same : c.waiting = true → c'.waiting = true) :
    g.Missed c' := by
  cases g with
  | block => trivial
  | asleep => exact same missed
  | lock | waitEmpty | waitDone | testEmpty | testDone => exact missed.elim

theorem missed_notify {g : Gate} (missed : g.Missed c.notify) : g = block := by
  cases g with
  | block => rfl
  | asleep => cases missed
  | lock | waitEmpty | waitDone | testEmpty | testDone => exact missed.elim

theorem next_owns {g : Gate} {ahead : Ahead} (moved : g.next c = some (c', ahead)) (taken : c'.locked = true) :
    ahead.Owns := by
  cases g with
  | lock =>
    rw [(next_lock (Or.inl rfl) moved).2]
    trivial
  | asleep =>
    rw [(next_lock (Or.inr rfl) moved).2]
    trivial
  | block =>
    cases moved
    cases taken
  | waitEmpty =>
    cases moved
    split <;> trivial
  | waitDone =>
    cases moved
    split <;> trivial
  | testEmpty =>
    cases moved
    split <;> trivial
  | testDone =>
    cases moved
    split <;> trivial

/-- Once the flag is set, a consumer that is not on its way to block never blocks again. -/
theorem next_heard {g : Gate} {ahead : Ahead} (moved : g.next c = some (c', ahead)) (set : c.done = true)
    (heard : ¬ g.Missed c) : ¬ ahead.Missed c' := by
  cases g with
  | lock =>
    rw [(next_lock (Or.inl rfl) moved).2]
    exact id
  | asleep =>
    rw [(next_lock (Or.inr rfl) moved).2]
    exact id
  | block => exact absurd trivial heard
  | waitEmpty =>
    cases moved
    split <;> exact id
  | waitDone =>
    cases moved
    rw [if_pos set]
    exact id
  | testEmpty =>
    cases moved
    split <;> exact id
  | testDone =>
    cases moved
    split <;> exact id

end Gate

end CloudLab
