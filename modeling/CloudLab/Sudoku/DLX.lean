import CloudLab.Library.Links

/-! The dancing links of the Sudoku solver. An index outside an array, a loop that does not
end in `loops` turns and a search deeper than its fuel all give `none`. -/

namespace CloudLab.Sudoku
open Links

def MAXSIZE : Nat := 100010

/-- The arrays of `DLX`. A link is an index, so the arrays of links hold natural numbers. -/
structure DLX where
  n : Nat
  m : Nat
  tot : Nat
  first : Nat → Nat
  siz : Nat → Int
  L : Nat → Nat
  R : Nat → Nat
  U : Nat → Nat
  D : Nat → Nat
  col : Nat → Nat
  row : Nat → Nat
  stk : Nat → Nat
  ans : Nat → Nat → Int

def put {β : Type} (array : Nat → β) (i : Nat) (value : β) : Nat → β := Function.update array i value

/-- The indices are inside the arrays of `MAXSIZE + 10` elements. -/
def inside (indices : List Nat) : Option Unit :=
  if ∀ i ∈ indices, i < MAXSIZE + 10 then some () else none

namespace DLX

/-- One turn of the loop of `build`. `L[0]` is set again behind the loop. -/
def buildColumn (s : DLX) (i : Nat) : Option DLX := do
  inside [i]
  some { s with L := put s.L i (i - 1), R := put s.R i (i + 1), U := put s.U i i, D := put s.D i i }

def build (r c : Nat) (s : DLX) : Option DLX := do
  let s ← (List.range (c + 1)).foldlM buildColumn { s with n := r, m := c }
  inside [0, c]
  some { s with L := put s.L 0 c, R := put s.R c 0, tot := c, first := fun _ => 0, siz := fun _ => 0 }

def insert (r c : Nat) (s : DLX) : Option DLX := do
  let tot := s.tot + 1
  inside [tot, c, r, s.D c]
  let s := { s with tot := tot, col := put s.col tot c, row := put s.row tot r, siz := put s.siz c (s.siz c + 1) }
  let s := { s with D := put s.D tot (s.D c) }
  let s := { s with U := put s.U (s.D c) tot }
  let s := { s with U := put s.U tot c, D := put s.D c tot }
  if s.first r = 0 then
    some { s with first := put s.first r tot, L := put s.L tot tot, R := put s.R tot tot }
  else
    inside [s.first r, s.R (s.first r)]
    let s := { s with R := put s.R tot (s.R (s.first r)) }
    let s := { s with L := put s.L (s.R (s.first r)) tot }
    some { s with L := put s.L tot (s.first r), R := put s.R (s.first r) tot }

/-! Reading one link, as the loops do. -/

def left (s : DLX) (i : Nat) : Option Nat := do
  inside [i]
  some (s.L i)

def right (s : DLX) (i : Nat) : Option Nat := do
  inside [i]
  some (s.R i)

def up (s : DLX) (i : Nat) : Option Nat := do
  inside [i]
  some (s.U i)

def down (s : DLX) (i : Nat) : Option Nat := do
  inside [i]
  some (s.D i)

def unlinkNode (j : Nat) (s : DLX) : Option DLX := do
  inside [j, s.D j, s.U j, s.col j]
  let s := { s with U := put s.U (s.D j) (s.U j) }
  let s := { s with D := put s.D (s.U j) (s.D j) }
  some { s with siz := put s.siz (s.col j) (s.siz (s.col j) - 1) }

def relinkNode (j : Nat) (s : DLX) : Option DLX := do
  inside [j, s.D j, s.U j, s.col j]
  let s := { s with D := put s.D (s.U j) j }
  let s := { s with U := put s.U (s.D j) j }
  some { s with siz := put s.siz (s.col j) (s.siz (s.col j) + 1) }

def unlinkRow (loops i : Nat) (s : DLX) : Option DLX := do
  let j ← s.right i
  follow right i unlinkNode loops j s

def remove (loops c : Nat) (s : DLX) : Option DLX := do
  inside [c, s.L c, s.R c]
  let s := { s with L := put s.L (s.R c) (s.L c) }
  let s := { s with R := put s.R (s.L c) (s.R c) }
  let i ← s.down c
  follow down c (unlinkRow loops) loops i s

def relinkRow (loops i : Nat) (s : DLX) : Option DLX := do
  let j ← s.left i
  follow left i relinkNode loops j s

def recover (loops c : Nat) (s : DLX) : Option DLX := do
  let i ← s.up c
  let s ← follow up c (relinkRow loops) loops i s
  inside [c, s.L c, s.R c]
  let s := { s with R := put s.R (s.L c) c }
  some { s with L := put s.L (s.R c) c }

def chooseColumn (loops : Nat) (s : DLX) : Option Nat :=
  follow (fun _ i => s.right i) 0 (fun i c => do
    inside [i, c]
    some (if s.siz i < s.siz c then i else c)) loops (s.R 0) (s.R 0)

/-- `ans[x][y] = v` for the candidate in `stk[i]`, where division rounds towards zero. -/
def writeCell (s : DLX) (i : Nat) : Option DLX :=
  let id : Int := s.stk i
  let x := ((id - 1).tdiv 9).tdiv 9 + 1
  let y := ((id - 1).tdiv 9).tmod 9 + 1
  let v := (id - 1).tmod 9 + 1
  if i < MAXSIZE ∧ 0 ≤ x ∧ x < 11 ∧ 0 ≤ y ∧ y < 11 then
    some { s with ans := put s.ans x.toNat (put (s.ans x.toNat) y.toNat v) }
  else none

def writeAns (dep : Nat) (s : DLX) : Option DLX := (List.range' 1 (dep - 1)).foldlM writeCell s

def removeOthers (loops i : Nat) (s : DLX) : Option DLX := do
  let j ← s.right i
  follow right i (fun j s => do
    inside [j]
    remove loops (s.col j) s) loops j s

def recoverOthers (loops i : Nat) (s : DLX) : Option DLX := do
  let j ← s.left i
  follow left i (fun j s => do
    inside [j]
    recover loops (s.col j) s) loops j s

def tryRows (loops : Nat) (dance : DLX → Option (Option Nat × DLX)) (c dep : Nat) :
    Nat → Nat → DLX → Option (Option Nat × DLX)
  | 0, _, _ => none
  | fuel + 1, i, s =>
      if i = c then some (none, s)
      else if MAXSIZE ≤ dep then none
      else do
        inside [i]
        let s := { s with stk := put s.stk dep (s.row i) }
        let s ← removeOthers loops i s
        let (found, s) ← dance s
        if found.isSome then some (found, s)
        else do
          let s ← recoverOthers loops i s
          let i ← s.down i
          tryRows loops dance c dep fuel i s

/-- `dance`, which answers a return of 1 with the depth at which it succeeded, and a return
of 0 with `none`. -/
def dance (loops : Nat) : Nat → Nat → DLX → Option (Option Nat × DLX)
  | 0, _, _ => none
  | fuel + 1, dep, s =>
      if s.R 0 = 0 then do
        let s ← s.writeAns dep
        some (some dep, s)
      else do
        let c ← s.chooseColumn loops
        let s ← s.remove loops c
        let i ← s.down c
        let (found, s) ← tryRows loops (dance loops fuel (dep + 1)) c dep loops i s
        if found.isSome then some (found, s)
        else do
          let s ← s.recover loops c
          some (none, s)

end DLX

def GetId (row col num : Nat) : Nat := (row - 1) * 9 * 9 + (col - 1) * 9 + num

def Insert (row col num : Nat) (solver : DLX) : Option DLX := do
  let dx := (row - 1) / 3 + 1
  let dy := (col - 1) / 3 + 1
  let room := (dx - 1) * 3 + dy
  let id := GetId row col num
  let f1 := (row - 1) * 9 + num
  let f2 := 81 + (col - 1) * 9 + num
  let f3 := 81 * 2 + (room - 1) * 9 + num
  let f4 := 81 * 3 + (row - 1) * 9 + col
  let solver ← solver.insert id f1
  let solver ← solver.insert id f2
  let solver ← solver.insert id f3
  solver.insert id f4

def cells : List (Nat × Nat) := (List.range' 1 9).flatMap fun i => (List.range' 1 9).map fun j => (i, j)

def readDigit (i j : Nat) (solver : DLX) (v : Nat) : Option DLX :=
  if solver.ans i j ≠ 0 ∧ solver.ans i j ≠ v then some solver else Insert i j v solver

/-- `str[p]`: the terminator stands after the last character, and what follows it may not be
read. -/
def charAt (str : List Int8) (p : Nat) : Option Int8 :=
  if p = str.length then some 0 else str[p]?

def readCell (str : List Int8) (solver : DLX) (cell : Nat × Nat) : Option DLX := do
  let (i, j) := cell
  let ch ← charAt str ((i - 1) * 9 + j - 1)
  let solver := { solver with ans := put solver.ans i (put (solver.ans i) j (ch.toInt - 48)) }
  (List.range' 1 9).foldlM (readDigit i j) solver

/-- What `work_func` does with one line; `memory` is what the solver's memory held. -/
def work_func (loops fuel : Nat) (memory : DLX) (str : List Int8) : Option (List Int8) := do
  let solver ← memory.build 729 324
  let solver ← cells.foldlM (readCell str) solver
  let (_, solver) ← solver.dance loops fuel 1
  some (cells.map fun (i, j) => Int8.ofInt (solver.ans i j + 48))

end CloudLab.Sudoku
