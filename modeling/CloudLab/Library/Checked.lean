import CloudLab.Library.Text

/-! Steps that may stop a program, by an index outside a vector or by an exception that is
nowhere caught, and loops that run until one of their turns stops. -/

namespace CloudLab.Checked
open Text

inductive Stop
  | outOfRange
  | exception
  deriving DecidableEq, Repr

def index {α : Type} (v : List α) (i : Nat) : Except Stop α :=
  match v[i]? with
  | some x => .ok x
  | none => .error .outOfRange

def integer (s : Str) : Except Stop Int :=
  match stoi s with
  | some n => .ok n
  | none => .error .exception

def upTo (c : Char) (s : Str) : Str := s.takeWhile (· ≠ c)

/-- `s.substr(s.find(c) + 1)`: all of `s` when `c` does not occur, since `npos + 1` is 0. -/
def behind (c : Char) (s : Str) : Str := if c ∈ s then (s.dropWhile (· ≠ c)).tail else s

def keep {ε α β : Type} (read : α → Except ε (Option β)) : List α → Except ε (List β)
  | [] => .ok []
  | x :: rest => do
      let kept ← read x
      let later ← keep read rest
      .ok (kept.toList ++ later)

def kept {ε α β : Type} (read : α → Except ε (Option β)) (x : α) : Option β :=
  match read x with
  | .ok kept => kept
  | .error _ => none

def stop {ε α : Type} : Except ε α → Option ε
  | .ok _ => none
  | .error e => some e

section checked
variable {ε σ α : Type} {v : List α} {i : Nat} {x : α}

theorem index_some (here : v[i]? = some x) : index v i = .ok x := by
  simp only [index, here]

theorem stop_eq_none_iff {result : Except ε α} : stop result = none ↔ ∃ a, result = .ok a := by
  cases result <;> simp [stop]

theorem stop_eq_some_iff {result : Except ε α} {e : ε} : stop result = some e ↔ result = .error e := by
  cases result <;> simp [stop]

@[simp] theorem ok_bind {β : Type} (a : α) (f : α → Except ε β) : (Except.ok a >>= f) = f a := rfl

theorem bind_eq_ok {β : Type} {result : Except ε α} {f : α → Except ε β} {b : β} :
    (result >>= f) = .ok b ↔ ∃ a, result = .ok a ∧ f a = .ok b := by
  cases result with
  | ok a => simp
  | error e => exact iff_of_false nofun nofun

theorem stop_bind_congr {β γ : Type} {result : Except ε α} {f : α → Except ε β} {g : α → Except ε γ}
    (same : ∀ a, stop (f a) = stop (g a)) : stop (result >>= f) = stop (result >>= g) := by
  cases result with
  | ok a => exact same a
  | error e => rfl

theorem stop_bind_ok {β : Type} {result : Except ε α} {f : α → Except ε β} (goes_on : ∀ a, stop (f a) = none) :
    stop (result >>= f) = stop result := by
  cases result with
  | ok a => exact goes_on a
  | error e => rfl

/-- A loop whose turns stop whatever the state is stops at the first turn that does. -/
theorem stop_foldlM {turn : σ → α → Except ε σ} {fault : α → Option ε} (turns : ∀ s x, stop (turn s x) = fault x)
    (items : List α) (s : σ) : stop (items.foldlM turn s) = items.findSome? fault := by
  induction items generalizing s with
  | nil => rfl
  | cons x items ih =>
    rw [List.foldlM_cons, List.findSome?_cons, ← turns s x]
    cases turn s x with
    | ok s' => exact ih s'
    | error e => rfl

theorem stop_keep {β : Type} (read : α → Except ε (Option β)) (items : List α) :
    stop (keep read items) = items.findSome? fun x => stop (read x) := by
  induction items with
  | nil => rfl
  | cons x items ih =>
    rw [keep, List.findSome?_cons]
    cases read x with
    | error e => rfl
    | ok kept =>
      rw [ok_bind, stop_bind_ok fun _ => rfl]
      exact ih

theorem keep_ok {β : Type} {read : α → Except ε (Option β)} {items : List α} {result : List β}
    (ran : keep read items = .ok result) : result = items.filterMap (kept read) := by
  induction items generalizing result with
  | nil =>
    cases ran
    rfl
  | cons x items ih =>
    rw [keep] at ran
    rw [List.filterMap_cons, kept]
    cases first : read x with
    | error e =>
      rw [first] at ran
      cases ran
    | ok y =>
      rw [first, ok_bind] at ran
      obtain ⟨ys, later, result⟩ := bind_eq_ok.mp ran
      cases result
      rw [ih later]
      cases y <;> rfl

theorem findSome?_filterMap {β γ : Type} (f : α → Option β) (g : β → Option γ) (items : List α) :
    (items.filterMap f).findSome? g = items.findSome? fun x => (f x).bind g := by
  induction items with
  | nil => rfl
  | cons x items ih =>
    rw [List.filterMap_cons, List.findSome?_cons]
    cases f x with
    | none => exact ih
    | some y => rw [Option.bind_some, List.findSome?_cons, ih]

end checked

end CloudLab.Checked
