import CloudLab.Library.Text

/-! Walking along a path through the directories, and what is left of the path once each name
that a ".." takes back is cancelled. -/

namespace CloudLab.Paths

open Text

def segments (path : Str) : List Str := path.splitOn '/'

def isDot (segment : Str) : Bool := segment.isEmpty || segment = ".".toList

def isUp (segment : Str) : Bool := segment = "..".toList

def enter (directory : List Str) (segment : Str) : List Str :=
  if isDot segment then directory
  else if isUp segment then directory.dropLast
  else directory ++ [segment]

def walk (directory : List Str) (path : List Str) : List Str := path.foldl enter directory

/-- How far a path climbs above where it starts. -/
def climbs : List Str → Nat
  | [] => 0
  | segment :: path =>
      if isDot segment then climbs path
      else if isUp segment then climbs path + 1
      else climbs path - 1

def kept : List Str → List Str
  | [] => []
  | segment :: path =>
      if isDot segment || isUp segment then kept path
      else if climbs path = 0 then segment :: kept path
      else kept path

/-- A walk leaves as many directories as its path climbs, and enters the names that are kept. -/
theorem walk_eq (directory path : List Str) :
    walk directory path = directory.take (directory.length - climbs path) ++ kept path := by
  induction path generalizing directory with
  | nil => simp [walk, climbs, kept]
  | cons segment path ih =>
    change walk (enter directory segment) path = _
    rw [ih, climbs, kept, enter]
    by_cases dot : isDot segment = true
    · simp only [dot, if_true, Bool.true_or]
    · by_cases up : isUp segment = true
      · simp only [dot, up, if_true, if_false, Bool.false_eq_true, Bool.or_true, List.length_dropLast]
        rw [List.dropLast_eq_take, List.take_take]
        congr 2
        omega
      · by_cases level : climbs path = 0
        · simp only [dot, up, level, if_true, if_false, Bool.or_self, Bool.false_eq_true, Nat.sub_zero]
          rw [List.take_length, Nat.zero_sub, Nat.sub_zero, List.take_length, List.append_assoc, List.singleton_append]
        · simp only [dot, up, level, if_false, Bool.or_self, Bool.false_eq_true, List.length_append, List.length_singleton]
          rw [List.take_append_of_le_length (by omega)]
          congr 2
          omega

theorem walk_below_iff (start inner path : List Str) :
    (∃ rest, rest ≠ [] ∧ walk start path = start ++ inner ++ rest) ↔
      ∃ rest, rest ≠ [] ∧ kept path = start.drop (start.length - climbs path) ++ inner ++ rest := by
  have split := List.take_append_drop (start.length - climbs path) start
  constructor
  · rintro ⟨rest, further, ended⟩
    refine ⟨rest, further, ?_⟩
    rw [walk_eq, List.append_assoc] at ended
    have names : start.take (start.length - climbs path) ++ kept path =
        start.take (start.length - climbs path) ++ (start.drop (start.length - climbs path) ++ (inner ++ rest)) := by
      rw [ended, ← List.append_assoc (start.take _), split]
    rw [List.append_cancel_left names, List.append_assoc]
  · rintro ⟨rest, further, names⟩
    refine ⟨rest, further, ?_⟩
    rw [walk_eq, names, ← List.append_assoc, ← List.append_assoc, split]

theorem segments_cons {name : Str} (plain : '/' ∉ name) (path : Str) : segments (name ++ '/' :: path) = name :: segments path := by
  apply List.splitOnP_append_cons_of_forall_mem
  · intro c member
    exact beq_eq_false_iff_ne.mpr fun same => plain (same ▸ member)
  · exact beq_self_eq_true '/'

end CloudLab.Paths
