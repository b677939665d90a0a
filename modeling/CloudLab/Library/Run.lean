import Mathlib

/-! Runs of a labelled transition relation, and the rule that carries an invariant
along them; a loop under an endless sequence of events, and when it ends. -/

namespace CloudLab

variable {σ ε : Type*}

inductive Run (step : σ → ε → σ → Prop) : σ → List ε → σ → Prop
  | refl (s : σ) : Run step s [] s
  | tail {s t u : σ} {events : List ε} {event : ε} :
      Run step s events t → step t event u → Run step s (events ++ [event]) u

namespace Run

variable {step : σ → ε → σ → Prop} {s t u : σ}

theorem invariant (Inv : σ → Prop) (preserved : ∀ s e t, Inv s → step s e t → Inv t)
    {events : List ε} (run : Run step s events t) (start : Inv s) : Inv t := by
  induction run with
  | refl => exact start
  | tail _ last ih => exact preserved _ _ _ ih last

theorem single {event : ε} (one : step s event t) : Run step s [event] t :=
  Run.tail (Run.refl s) one

theorem trans {first second : List ε} (left : Run step s first t) (right : Run step t second u) :
    Run step s (first ++ second) u := by
  induction right with
  | refl => simpa using left
  | tail _ last ih =>
    rw [← List.append_assoc]
    exact Run.tail ih last

theorem head {event : ε} {events : List ε} (one : step s event t) (rest : Run step t events u) :
    Run step s (event :: events) u :=
  (single one).trans rest

theorem length_le (Inv : σ → Prop) (measure : σ → Nat)
    (lowers : ∀ s e t, Inv s → step s e t → Inv t ∧ measure t < measure s)
    {events : List ε} (run : Run step s events t) (start : Inv s) :
    Inv t ∧ events.length + measure t ≤ measure s := by
  induction run with
  | refl => exact ⟨start, by simp⟩
  | tail _ last ih =>
    obtain ⟨inv, bound⟩ := ih
    obtain ⟨inv', lower⟩ := lowers _ _ _ inv last
    refine ⟨inv', ?_⟩
    rw [List.length_append, List.length_singleton]
    omega

/-- Runs of bounded length come to a state without a step. -/
theorem exists_final {bound : Nat} (short : ∀ events t, Run step s events t → events.length ≤ bound) :
    ∃ events t, Run step s events t ∧ ∀ event u, ¬ step t event u := by
  by_contra endless
  have longer (k : Nat) : ∃ events t, Run step s events t ∧ events.length = k := by
    induction k with
    | zero => exact ⟨[], s, Run.refl s, rfl⟩
    | succ k ih =>
      obtain ⟨events, t, run, long⟩ := ih
      have goesOn : ∃ event u, step t event u := by
        by_contra none
        exact endless ⟨events, t, run, fun event u last => none ⟨event, u, last⟩⟩
      obtain ⟨event, u, last⟩ := goesOn
      exact ⟨_, u, run.tail last, by rw [List.length_append, long, List.length_singleton]⟩
  obtain ⟨events, t, run, long⟩ := longer (bound + 1)
  have few := short events t run
  omega

/-- A run whose steps all have a further property is a run of the restricted relation. -/
theorem mono {step' : σ → ε → σ → Prop} (weaker : ∀ s e t, step s e t → step' s e t)
    {events : List ε} (run : Run step s events t) : Run step' s events t := by
  induction run with
  | refl => exact Run.refl s
  | tail _ last ih => exact Run.tail ih (weaker _ _ _ last)

end Run

/-- A loop under an endless sequence of events: a step for each of them, as long as it goes on.
A step may also hang: then there is no next state. -/
structure Loops (GoesOn : σ → Prop) (Hangs : σ → ε → Prop) (step : σ → ε → σ → Prop) (events : Nat → ε)
    (states : Nat → Option σ) : Prop where
  turns : ∀ k s, states k = some s → GoesOn s →
    (Hangs s (events k) ∧ states (k + 1) = none) ∨ ∃ t, step s (events k) t ∧ states (k + 1) = some t
  rests : ∀ k s, states k = some s → ¬ GoesOn s → states (k + 1) = some s
  gone : ∀ k, states k = none → states (k + 1) = none

namespace Loops

variable {GoesOn : σ → Prop} {Hangs : σ → ε → Prop} {step : σ → ε → σ → Prop} {events : Nat → ε}
  {states : Nat → Option σ}

theorem ended (loop : Loops GoesOn Hangs step events states) {k : Nat} {s : σ} (here : states k = some s)
    (ended : ¬ GoesOn s) (j : Nat) : states (k + j) = some s := by
  induction j with
  | zero => exact here
  | succ j ih => exact loop.rests (k + j) s ih ended

theorem lost (loop : Loops GoesOn Hangs step events states) {k : Nat} (here : states k = none) (j : Nat) :
    states (k + j) = none := by
  induction j with
  | zero => exact here
  | succ j ih => exact loop.gone (k + j) ih

theorem lt_of_goes (loop : Loops GoesOn Hangs step events states) {j k : Nat} {r s : σ} (here : states k = some s)
    (stopped : ¬ GoesOn s) (there : states j = some r) (goes : GoesOn r) : j < k := by
  by_contra later
  obtain ⟨d, rfl⟩ := Nat.exists_eq_add_of_le (Nat.le_of_not_lt later)
  rw [loop.ended here stopped d, Option.some.injEq] at there
  exact stopped (there ▸ goes)

theorem invariant (loop : Loops GoesOn Hangs step events states) (Inv : σ → Prop)
    (preserved : ∀ s e t, Inv s → step s e t → Inv t) {first : σ} (started : states 0 = some first)
    (start : Inv first) {k : Nat} {s : σ} (here : states k = some s) : Inv s := by
  induction k generalizing s with
  | zero =>
    rw [started, Option.some.injEq] at here
    exact here ▸ start
  | succ k ih =>
    cases before : states k with
    | none =>
      rw [loop.gone k before] at here
      cases here
    | some r =>
      by_cases goes : GoesOn r
      · rcases loop.turns k r before goes with ⟨_, none⟩ | ⟨t, turn, next⟩
        · rw [none] at here
          cases here
        · rw [next, Option.some.injEq] at here
          exact here ▸ preserved r _ t (ih before) turn
      · rw [loop.rests k r before goes, Option.some.injEq] at here
        exact here ▸ ih before

/-- A loop whose steps lower a measure, unless they spend, ends exactly when no step hangs and it
spends finitely often. -/
theorem ends_iff (loop : Loops GoesOn Hangs step events states) (Inv : σ → Prop) (Spends : σ → ε → Prop)
    (measure : σ → Nat) (preserved : ∀ s e t, Inv s → step s e t → Inv t)
    (returns : ∀ s e t, Inv s → step s e t → ¬ Hangs s e)
    (lowers : ∀ s e t, Inv s → step s e t → ¬ Spends s e → measure t < measure s) {first : σ}
    (started : states 0 = some first) (start : Inv first) :
    (∃ k s, states k = some s ∧ ¬ GoesOn s) ↔
      (∀ k s, states k = some s → GoesOn s → ¬ Hangs s (events k)) ∧
        ∃ m, ∀ k s, m ≤ k → states k = some s → GoesOn s → ¬ Spends s (events k) := by
  have reached (k : Nat) (s : σ) (here : states k = some s) : Inv s :=
    loop.invariant Inv preserved started start here
  constructor
  · intro ends
    obtain ⟨k, s, here, stopped⟩ := ends
    -- what still goes on lies before `k`, where the loop has a state
    have before (j : Nat) (r : σ) (there : states j = some r) (goes : GoesOn r) : j < k :=
      loop.lt_of_goes here stopped there goes
    refine ⟨fun j r there goes hangs => ?_, k, fun j r later there goes => ?_⟩
    · rcases loop.turns j r there goes with ⟨_, none⟩ | ⟨t, turn, _⟩
      · obtain ⟨d, rfl⟩ := Nat.exists_eq_add_of_lt (before j r there goes)
        have gone := loop.lost none d
        rw [Nat.add_right_comm] at gone
        rw [gone] at here
        cases here
      · exact returns r _ t (reached j r there) turn hangs
    · have early := before j r there goes
      omega
  · rintro ⟨heard, m, saves⟩
    by_contra forever
    have goes (k : Nat) (s : σ) (here : states k = some s) : GoesOn s := by
      by_contra stopped
      exact forever ⟨k, s, here, stopped⟩
    have next (k : Nat) (s : σ) (here : states k = some s) : ∃ t, step s (events k) t ∧ states (k + 1) = some t :=
      (loop.turns k s here (goes k s here)).resolve_left fun hung => heard k s here (goes k s here) hung.1
    have alive (k : Nat) : ∃ s, states k = some s := by
      induction k with
      | zero => exact ⟨first, started⟩
      | succ k ih =>
        obtain ⟨s, here⟩ := ih
        obtain ⟨t, _, after⟩ := next k s here
        exact ⟨t, after⟩
    obtain ⟨s, here⟩ := alive m
    have sinks (j : Nat) : ∃ t, states (m + j) = some t ∧ measure t + j ≤ measure s := by
      induction j with
      | zero => exact ⟨s, here, Nat.le_refl _⟩
      | succ j ih =>
        obtain ⟨r, there, low⟩ := ih
        obtain ⟨t, turn, after⟩ := next (m + j) r there
        have calm := saves (m + j) r (Nat.le_add_right m j) there (goes (m + j) r there)
        have lower := lowers r _ t (reached (m + j) r there) turn calm
        exact ⟨t, after, by omega⟩
    obtain ⟨t, _, low⟩ := sinks (measure s + 1)
    omega

theorem forever {sequence : Nat → σ} (goes : ∀ k, GoesOn (sequence k))
    (steps : ∀ k, step (sequence k) (events k) (sequence (k + 1))) :
    Loops GoesOn Hangs step events fun k => some (sequence k) := by
  constructor
  · intro k s here _
    obtain rfl := Option.some.inj here
    exact Or.inr ⟨_, steps k, rfl⟩
  · intro k s here ended
    obtain rfl := Option.some.inj here
    exact absurd (goes k) ended
  · intro k none
    cases none

end Loops

/-- The course of a loop whose first step hangs. -/
def onlyFirst (first : σ) : Nat → Option σ
  | 0 => some first
  | _ + 1 => none

theorem Loops.onlyFirst {GoesOn : σ → Prop} {Hangs : σ → ε → Prop} {step : σ → ε → σ → Prop} {events : Nat → ε}
    {first : σ} (goes : GoesOn first) (hangs : Hangs first (events 0)) :
    Loops GoesOn Hangs step events (CloudLab.onlyFirst first) := by
  constructor
  · intro k s here _
    cases k with
    | zero =>
      obtain rfl := Option.some.inj here
      exact Or.inl ⟨hangs, rfl⟩
    | succ k => cases here
  · intro k s here ended
    cases k with
    | zero =>
      obtain rfl := Option.some.inj here
      exact absurd goes ended
    | succ k => cases here
  · exact fun _ _ => rfl

theorem onlyFirst_goes {GoesOn : σ → Prop} {first : σ} (goes : GoesOn first) (k : Nat) (s : σ)
    (here : onlyFirst first k = some s) : GoesOn s := by
  cases k with
  | zero => exact Option.some.inj here ▸ goes
  | succ k => cases here

/-- The course of a loop whose steps are a partial function. -/
def course (GoesOn : σ → Prop) [DecidablePred GoesOn] (turn : σ → Option σ) (first : σ) : Nat → Option σ
  | 0 => some first
  | k + 1 => (course GoesOn turn first k).bind fun s => if GoesOn s then turn s else some s

theorem Loops.course {GoesOn : σ → Prop} [DecidablePred GoesOn] {Hangs : σ → ε → Prop} {step : σ → ε → σ → Prop}
    {events : Nat → ε} {turn : σ → Option σ} {first : σ}
    (turns : ∀ k s, GoesOn s → ∃ t, turn s = some t ∧ step s (events k) t) :
    Loops GoesOn Hangs step events (CloudLab.course GoesOn turn first) := by
  constructor
  · intro k s here goes
    obtain ⟨t, result, taken⟩ := turns k s goes
    exact Or.inr ⟨t, taken, by rw [CloudLab.course, here, Option.bind_some, if_pos goes, result]⟩
  · intro k s here ended
    rw [CloudLab.course, here, Option.bind_some, if_neg ended]
  · intro k none
    rw [CloudLab.course, none, Option.bind_none]

def execute (next : σ → ε → Option σ) : σ → List ε → Option σ
  | s, [] => some s
  | s, event :: events => (next s event).bind fun t => execute next t events

theorem execute_append (next : σ → ε → Option σ) (first second : List ε) (s : σ) :
    execute next s (first ++ second) = (execute next s first).bind fun t => execute next t second := by
  induction first generalizing s with
  | nil => rfl
  | cons event first ih =>
    simp only [List.cons_append, execute, Option.bind_assoc]
    exact congrArg _ (funext ih)

theorem run_of_execute {next : σ → ε → Option σ} :
    ∀ {events : List ε} {s t : σ}, execute next s events = some t →
      Run (fun s e t => next s e = some t) s events t
  | [], s, t, result => by
    cases result
    exact Run.refl s
  | event :: events, s, t, result => by
    obtain ⟨middle, first, rest⟩ := Option.bind_eq_some_iff.mp result
    exact (Run.single first).trans (run_of_execute rest)

/-- A step where there is one. -/
def attempt (next : σ → ε → Option σ) (s : σ) (event : ε) : σ := (next s event).getD s

theorem run_of_attempts (next : σ → ε → Option σ) (events : List ε) (s : σ) :
    ∃ made, Run (fun s e t => next s e = some t) s made (events.foldl (attempt next) s) := by
  induction events generalizing s with
  | nil => exact ⟨[], Run.refl s⟩
  | cons event events ih =>
    obtain ⟨made, rest⟩ := ih (attempt next s event)
    cases moved : next s event with
    | none =>
      have same : attempt next s event = s := by rw [attempt, moved, Option.getD_none]
      rw [same] at rest
      exact ⟨made, by rwa [List.foldl_cons, same]⟩
    | some t =>
      have there : attempt next s event = t := by rw [attempt, moved, Option.getD_some]
      rw [there] at rest
      exact ⟨event :: made, by rw [List.foldl_cons, there]; exact (Run.single moved).trans rest⟩

theorem run_of_checked {next : σ → ε → Option σ} {P : σ → ε → Prop} [∀ s event, Decidable (P s event)]
    {events : List ε} {s t : σ}
    (result : execute (fun s event => if P s event then next s event else none) s events = some t) :
    Run (fun s event t => next s event = some t ∧ P s event) s events t := by
  refine (run_of_execute result).mono ?_
  intro s event t step
  split at step
  · next passed => exact ⟨step, passed⟩
  · cases step

end CloudLab
