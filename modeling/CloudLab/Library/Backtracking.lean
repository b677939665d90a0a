import Mathlib

/-! Searches that make one guess after the other on a state which they change in place, and
that take a guess back when it has come to nothing. `none` is a failed assertion, an index
outside an array or a search deeper than its fuel. -/

namespace CloudLab.Backtracking

/-- What a search does for one guess; `M` is what it remembers until it takes the guess back. -/
structure Moves (σ G M : Type*) where
  free : G → σ → Bool
  hold : G → σ → Option (M × σ)
  unhold : G → M → σ → Option σ

variable {σ τ X G M M' β : Type*}

def Moves.turn (moves : Moves σ G M) (search : σ → Option (Bool × σ)) (guess : G) (s : σ) : Option (Bool × σ) :=
  if moves.free guess s then
    (moves.hold guess s).bind fun held => (search held.2).bind fun answer =>
      if answer.1 then some (true, answer.2)
      else (moves.unhold guess held.1 answer.2).map fun s => (false, s)
  else some (false, s)

def tryEach (turn : G → σ → Option (Bool × σ)) : List G → σ → Option (Bool × σ)
  | [], s => some (false, s)
  | guess :: guesses, s =>
      (turn guess s).bind fun answer => if answer.1 then some (true, answer.2) else tryEach turn guesses answer.2

structure Machine (σ X G M : Type*) where
  finished : Nat → σ → Bool
  pick : Nat → σ → Option (X × σ)
  moves : X → Moves σ G M
  guesses : List G

def Machine.search (machine : Machine σ X G M) : Nat → Nat → σ → Option (Bool × σ)
  | 0, _, _ => none
  | fuel + 1, level, s =>
      if machine.finished level s then some (true, s)
      else (machine.pick level s).bind fun picked =>
        tryEach ((machine.moves picked.1).turn (machine.search fuel (level + 1))) machine.guesses picked.2

section loop
variable {s : σ}

theorem tryEach_rule (turn : G → σ → Option (Bool × σ)) (guesses : List G) (Inv Won : σ → Prop) (Lost : G → Prop)
    (step : ∀ g ∈ guesses, ∀ s, Inv s → ∃ found s', turn g s = some (found, s') ∧ (found = true → Won s') ∧
      (found = false → Lost g ∧ Inv s'))
    (start : Inv s) :
    ∃ found s', tryEach turn guesses s = some (found, s') ∧ (found = true → Won s') ∧
      (found = false → (∀ g ∈ guesses, Lost g) ∧ Inv s') := by
  induction guesses generalizing s with
  | nil =>
    refine ⟨false, s, rfl, fun none => absurd none (by decide), fun _ => ⟨?_, start⟩⟩
    intro g member
    exact absurd member List.not_mem_nil
  | cons g guesses ih =>
    obtain ⟨found, s', ran, won, lost⟩ := step g List.mem_cons_self s start
    cases found with
    | true => exact ⟨true, s', by simp [tryEach, ran], won, fun none => absurd none (by decide)⟩
    | false =>
      obtain ⟨lost, inv⟩ := lost rfl
      obtain ⟨found, s'', looped, won, rest⟩ := ih (fun g member => step g (List.mem_cons_of_mem _ member)) inv
      refine ⟨found, s'', by simp [tryEach, ran, looped], won, fun failed => ⟨?_, (rest failed).2⟩⟩
      intro g' member
      rcases List.mem_cons.mp member with rfl | later
      · exact lost
      · exact (rest failed).1 g' later

theorem tryEach_follows (turn : G → σ → Option (Bool × σ)) (turn' : G → τ → Option (Bool × τ)) (guesses : List G)
    (Inv Won : σ → τ → Prop)
    (step : ∀ g ∈ guesses, ∀ s t found s', Inv s t → turn g s = some (found, s') →
      ∃ t', turn' g t = some (found, t') ∧ (found = true → Won s' t') ∧ (found = false → Inv s' t'))
    {t : τ} (start : Inv s t) {found : Bool} {s' : σ} (ran : tryEach turn guesses s = some (found, s')) :
    ∃ t', tryEach turn' guesses t = some (found, t') ∧ (found = true → Won s' t') ∧ (found = false → Inv s' t') := by
  induction guesses generalizing s t with
  | nil =>
    obtain ⟨rfl, rfl⟩ := Prod.mk.inj (Option.some.inj ran)
    exact ⟨t, rfl, fun none => absurd none (by decide), fun _ => start⟩
  | cons g guesses ih =>
    obtain ⟨⟨first, s₁⟩, turned, rest⟩ := Option.bind_eq_some_iff.mp ran
    obtain ⟨t₁, turned', won, inv⟩ := step g List.mem_cons_self s t first s₁ start turned
    cases first with
    | true =>
      obtain ⟨rfl, rfl⟩ := Prod.mk.inj (Option.some.inj rest)
      exact ⟨t₁, by simp [tryEach, turned'], won, fun none => absurd none (by decide)⟩
    | false =>
      obtain ⟨t', looped, final⟩ := ih (fun g member => step g (List.mem_cons_of_mem _ member)) (inv rfl) rest
      exact ⟨t', by simp [tryEach, turned', looped], final⟩

end loop

/-- What makes a search right. At level `level` the state meets `Inv`, and `At` when `x` has been picked there.
`Same` is what a failed search leaves, `Takes x g b` says that the solution `b` has the guess `g` for `x`, and
`left` bounds the levels still to come. -/
structure Lawful (machine : Machine σ X G M) (Inv : Nat → σ → Prop) (At : Nat → X → σ → Prop)
    (Same : Nat → σ → σ → Prop) (Solves : σ → β → Prop) (Takes : X → G → β → Prop) (result : σ → β)
    (left : Nat → σ → Nat) : Prop where
  refl : ∀ level s, Same level s s
  trans : ∀ level s t u, Same level s t → Same level t u → Same level s u
  solves : ∀ level s t b, Same level s t → (Solves s b ↔ Solves t b)
  length : ∀ level s t, Same level s t → left level t = left level s
  ends : ∀ level s, Inv level s → machine.finished level s = true → Solves s (result s)
  picks : ∀ level s, Inv level s → machine.finished level s = false →
    ∃ x s', machine.pick level s = some (x, s') ∧ At level x s' ∧ Same level s s'
  covers : ∀ level x s b, At level x s → Solves s b → ∃ g ∈ machine.guesses, Takes x g b
  blocks : ∀ level x s g b, At level x s → g ∈ machine.guesses → (machine.moves x).free g s = false →
    Solves s b → ¬ Takes x g b
  holds : ∀ level x s g, At level x s → g ∈ machine.guesses → (machine.moves x).free g s = true →
    ∃ m s', (machine.moves x).hold g s = some (m, s') ∧ Inv (level + 1) s' ∧ left (level + 1) s' < left level s ∧
      (∀ b, Solves s' b ↔ Solves s b ∧ Takes x g b) ∧
      ∀ t, Same (level + 1) s' t → ∃ u, (machine.moves x).unhold g m t = some u ∧ At level x u ∧ Same level s u

section search
variable {machine : Machine σ X G M} {Inv : Nat → σ → Prop} {At : Nat → X → σ → Prop} {Same : Nat → σ → σ → Prop}
  {Solves : σ → β → Prop} {Takes : X → G → β → Prop} {result : σ → β} {left : Nat → σ → Nat} {level fuel : Nat}
  {s t : σ} {x : X} {g : G}

theorem Lawful.turn_decides (lawful : Lawful machine Inv At Same Solves Takes result left) (at_ : At level x s)
    (member : g ∈ machine.guesses) (search : σ → Option (Bool × σ))
    (deeper : ∀ s', Inv (level + 1) s' → left (level + 1) s' < left level s →
      ∃ found t, search s' = some (found, t) ∧ (found = true → Solves s' (result t)) ∧
        (found = false → (∀ b, ¬ Solves s' b) ∧ Same (level + 1) s' t)) :
    ∃ found t, (machine.moves x).turn search g s = some (found, t) ∧ (found = true → Solves s (result t)) ∧
      (found = false → (∀ b, Solves s b → ¬ Takes x g b) ∧ At level x t ∧ Same level s t) := by
  cases free : (machine.moves x).free g s with
  | false =>
    refine ⟨false, s, by simp [Moves.turn, free], fun none => absurd none (by decide), fun _ => ⟨?_, at_, ?_⟩⟩
    · exact fun b => lawful.blocks level x s g b at_ member free
    · exact lawful.refl level s
  | true =>
    obtain ⟨m, s', held, inv, less, solves, restores⟩ := lawful.holds level x s g at_ member free
    obtain ⟨found, t, ran, won, lost⟩ := deeper s' inv less
    cases found with
    | true =>
      refine ⟨true, t, by simp [Moves.turn, free, held, ran], fun _ => ((solves _).mp (won rfl)).1, ?_⟩
      exact fun none => absurd none (by decide)
    | false =>
      obtain ⟨unsolvable, same⟩ := lost rfl
      obtain ⟨u, unheld, at', same'⟩ := restores t same
      refine ⟨false, u, by simp [Moves.turn, free, held, ran, unheld], fun none => absurd none (by decide), ?_⟩
      exact fun _ => ⟨fun b solved takes => unsolvable b ((solves b).mpr ⟨solved, takes⟩), at', same'⟩

/-- A lawful search returns. What it finds is a solution, and when it fails there is none and it leaves the
state as it was. -/
theorem Lawful.decides (lawful : Lawful machine Inv At Same Solves Takes result left) (inv : Inv level s)
    (enough : left level s < fuel) :
    ∃ found t, machine.search fuel level s = some (found, t) ∧ (found = true → Solves s (result t)) ∧
      (found = false → (∀ b, ¬ Solves s b) ∧ Same level s t) := by
  induction fuel generalizing level s with
  | zero => exact absurd enough (Nat.not_lt_zero _)
  | succ fuel ih =>
    cases finished : machine.finished level s with
    | true =>
      refine ⟨true, s, by simp [Machine.search, finished], fun _ => lawful.ends level s inv finished, ?_⟩
      exact fun none => absurd none (by decide)
    | false =>
      obtain ⟨x, s₀, picked, at₀, same₀⟩ := lawful.picks level s inv finished
      have left₀ := lawful.length level s s₀ same₀
      -- a guess is made in a state that is the same as `s`
      obtain ⟨found, t, looped, won, lost⟩ := tryEach_rule
        ((machine.moves x).turn (machine.search fuel (level + 1))) machine.guesses
        (fun t => At level x t ∧ Same level s t) (fun t => Solves s (result t))
        (fun g => ∀ b, Solves s b → ¬ Takes x g b)
        (by
          intro g member t here
          have lefts := lawful.length level s t here.2
          obtain ⟨found, u, turned, won, lost⟩ := lawful.turn_decides here.1 member
            (machine.search fuel (level + 1)) fun s' inv' less => ih inv' (by omega)
          refine ⟨found, u, turned, fun yes => (lawful.solves level s t _ here.2).mpr (won yes), fun no => ?_⟩
          obtain ⟨lost, at', same'⟩ := lost no
          refine ⟨fun b solved => lost b ((lawful.solves level s t b here.2).mp solved), at', ?_⟩
          exact lawful.trans level s t u here.2 same')
        ⟨at₀, same₀⟩
      refine ⟨found, t, by simp [Machine.search, finished, picked, looped], won, fun no => ⟨fun b solved => ?_, ?_⟩⟩
      · obtain ⟨g, member, takes⟩ := lawful.covers level x s₀ b at₀ ((lawful.solves level s s₀ b same₀).mp solved)
        exact (lost no).1 g member b solved takes
      · exact (lost no).2.2

end search

/-- When a second search follows a first one. `Rel` relates their states at a level, `At` when `x` has been picked,
and `Kept` says what a failed search of both leaves. -/
structure Follows (plain : Machine σ X G M) (fast : Machine τ X G M') (Rel : Nat → σ → τ → Prop)
    (At : Nat → X → σ → τ → Prop) (Kept : Nat → σ → τ → σ → τ → Prop) : Prop where
  refl : ∀ level s t, Kept level s t s t
  trans : ∀ level s t s' t' s'' t'', Kept level s t s' t' → Kept level s' t' s'' t'' → Kept level s t s'' t''
  guesses : fast.guesses = plain.guesses
  finished : ∀ level s t, Rel level s t → fast.finished level t = plain.finished level s
  picks : ∀ level s t x s', Rel level s t → plain.finished level s = false → plain.pick level s = some (x, s') →
    ∃ t', fast.pick level t = some (x, t') ∧ At level x s' t' ∧ Kept level s t s' t'
  rel : ∀ level x s t, At level x s t → Rel level s t
  free : ∀ level x s t g, At level x s t → g ∈ plain.guesses → (fast.moves x).free g t = (plain.moves x).free g s
  holds : ∀ level x s t g m s', At level x s t → g ∈ plain.guesses → (plain.moves x).free g s = true →
    (plain.moves x).hold g s = some (m, s') →
    ∃ m' t', (fast.moves x).hold g t = some (m', t') ∧ Rel (level + 1) s' t' ∧
      ∀ s₂ t₂ s₃, Rel (level + 1) s₂ t₂ → Kept (level + 1) s' t' s₂ t₂ → (plain.moves x).unhold g m s₂ = some s₃ →
        ∃ t₃, (fast.moves x).unhold g m' t₂ = some t₃ ∧ At level x s₃ t₃ ∧ Kept level s t s₃ t₃

section pair
variable {plain : Machine σ X G M} {fast : Machine τ X G M'} {Rel : Nat → σ → τ → Prop}
  {At : Nat → X → σ → τ → Prop} {Kept : Nat → σ → τ → σ → τ → Prop} {level fuel : Nat} {s s' : σ} {t : τ}
  {found : Bool} {x : X} {g : G}

theorem Follows.turn (follows : Follows plain fast Rel At Kept) (at_ : At level x s t) (member : g ∈ plain.guesses)
    (search : σ → Option (Bool × σ)) (search' : τ → Option (Bool × τ))
    (deeper : ∀ s t found s', Rel (level + 1) s t → search s = some (found, s') →
      ∃ t', search' t = some (found, t') ∧ (found = true → ∃ level, Rel level s' t') ∧
        (found = false → Rel (level + 1) s' t' ∧ Kept (level + 1) s t s' t'))
    (ran : (plain.moves x).turn search g s = some (found, s')) :
    ∃ t', (fast.moves x).turn search' g t = some (found, t') ∧ (found = true → ∃ level, Rel level s' t') ∧
      (found = false → At level x s' t' ∧ Kept level s t s' t') := by
  have agree := follows.free level x s t g at_ member
  cases free : (plain.moves x).free g s with
  | false =>
    rw [free] at agree
    simp only [Moves.turn, free, Bool.false_eq_true, if_false, Option.some.injEq, Prod.mk.injEq] at ran
    obtain ⟨rfl, rfl⟩ := ran
    refine ⟨t, by simp [Moves.turn, agree], fun none => absurd none (by decide), fun _ => ⟨at_, ?_⟩⟩
    exact follows.refl level s t
  | true =>
    rw [free] at agree
    simp only [Moves.turn, free, if_true] at ran
    obtain ⟨⟨m, s₁⟩, held, ran⟩ := Option.bind_eq_some_iff.mp ran
    obtain ⟨⟨answer, s₂⟩, searched, ran⟩ := Option.bind_eq_some_iff.mp ran
    obtain ⟨m', t₁, held', related, restores⟩ := follows.holds level x s t g m s₁ at_ member free held
    obtain ⟨t₂, searched', won, lost⟩ := deeper s₁ t₁ answer s₂ related searched
    cases answer with
    | true =>
      obtain ⟨rfl, rfl⟩ := Prod.mk.inj (Option.some.inj ran)
      exact ⟨t₂, by simp [Moves.turn, agree, held', searched'], won, fun none => absurd none (by decide)⟩
    | false =>
      obtain ⟨s₃, unheld, same⟩ := Option.map_eq_some_iff.mp ran
      obtain ⟨rfl, rfl⟩ := Prod.mk.inj same
      obtain ⟨related', kept⟩ := lost rfl
      obtain ⟨t₃, unheld', at', kept'⟩ := restores s₂ t₂ s₃ related' kept unheld
      refine ⟨t₃, by simp [Moves.turn, agree, held', searched', unheld'], fun none => absurd none (by decide), ?_⟩
      exact fun _ => ⟨at', kept'⟩

theorem Follows.search (follows : Follows plain fast Rel At Kept) (related : Rel level s t)
    (ran : plain.search fuel level s = some (found, s')) :
    ∃ t', fast.search fuel level t = some (found, t') ∧ (found = true → ∃ level, Rel level s' t') ∧
      (found = false → Rel level s' t' ∧ Kept level s t s' t') := by
  induction fuel generalizing level s t found s' with
  | zero => exact absurd ran (by simp [Machine.search])
  | succ fuel ih =>
    have agree := follows.finished level s t related
    cases finished : plain.finished level s with
    | true =>
      rw [finished] at agree
      simp only [Machine.search, finished, if_true, Option.some.injEq, Prod.mk.injEq] at ran
      obtain ⟨rfl, rfl⟩ := ran
      exact ⟨t, by simp [Machine.search, agree], fun _ => ⟨level, related⟩, fun none => absurd none (by decide)⟩
    | false =>
      rw [finished] at agree
      simp only [Machine.search, finished, Bool.false_eq_true, if_false] at ran
      obtain ⟨⟨x, s₀⟩, picked, looped⟩ := Option.bind_eq_some_iff.mp ran
      obtain ⟨t₀, picked', at₀, kept₀⟩ := follows.picks level s t x s₀ related finished picked
      obtain ⟨t', looped', won, lost⟩ := tryEach_follows
        ((plain.moves x).turn (plain.search fuel (level + 1)))
        ((fast.moves x).turn (fast.search fuel (level + 1))) plain.guesses
        (fun s₁ t₁ => At level x s₁ t₁ ∧ Kept level s t s₁ t₁) (fun s₁ t₁ => ∃ level, Rel level s₁ t₁)
        (by
          intro g member s₁ t₁ answer s₂ here turned
          obtain ⟨t₂, turned', won, lost⟩ := follows.turn here.1 member _
            (fast.search fuel (level + 1)) (fun s t found s' related' ran' => ih related' ran') turned
          refine ⟨t₂, turned', won, fun no => ⟨(lost no).1, ?_⟩⟩
          exact follows.trans level s t s₁ t₁ s₂ t₂ here.2 (lost no).2)
        ⟨at₀, kept₀⟩ looped
      refine ⟨t', ?_, won, fun no => ⟨follows.rel level x s' t' (lost no).1, (lost no).2⟩⟩
      simp only [Machine.search, agree, Bool.false_eq_true, if_false, picked', Option.bind_some, follows.guesses,
        looped']

end pair

end CloudLab.Backtracking
