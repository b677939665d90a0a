import CloudLab.TearcherCode.Spaces
import CloudLab.Sudoku.DLX

/-! The solver with dancing links. A pointer is an index into `nodes_`, and each field of the nodes
is an array of its own. A failed assertion, an index outside an array, a loop that does not end in
`loops` turns and a search deeper than its fuel all give `none`. -/

namespace CloudLab.TearcherCode
open Links
open Sudoku (put)

def kMaxNodes : Nat := 1 + 81 * 4 + 9 * 9 * 9 * 4
def kRow : Nat := 100
def kCol : Nat := 200
def kBox : Nat := 300

structure Dance where
  root_ : Nat
  inout_ : Board
  columns_ : Nat → Option Nat
  stack_ : List Nat
  left : Nat → Nat
  right : Nat → Nat
  up : Nat → Nat
  down : Nat → Nat
  col : Nat → Nat
  name : Nat → Nat
  size : Nat → Int
  cur_node_ : Nat

structure Given where
  rows : Nat → Nat → Bool
  cols : Nat → Nat → Bool
  boxes : Nat → Nat → Bool

def row (i : Cell) : Nat := i / 9
def col (i : Cell) : Nat := i % 9
def box (i : Cell) : Nat := row i / 3 * 3 + col i / 3

def giveCell (inout : Board) (given : Given) (i : Cell) : Given :=
  { rows := put given.rows (row i) (put (given.rows (row i)) (inout i) true)
    cols := put given.cols (col i) (put (given.cols (col i)) (inout i) true)
    boxes := put given.boxes (box i) (put (given.boxes (box i)) (inout i) true) }

def givenOf (inout : Board) : Given :=
  (List.finRange 81).foldl (giveCell inout) ⟨fun _ _ => false, fun _ _ => false, fun _ _ => false⟩

def values : List Nat := List.range' 1 9

namespace Dance

def get_row_col (row val : Nat) : Nat := kRow + row * 10 + val
def get_col_col (col val : Nat) : Nat := kCol + col * 10 + val
def get_box_col (box val : Nat) : Nat := kBox + box * 10 + val

def new_column (n : Nat) (d : Dance) : Option (Nat × Dance) :=
  if d.cur_node_ < kMaxNodes then
    let c := d.cur_node_
    some (c, { d with
      cur_node_ := c + 1
      left := put d.left c c
      right := put d.right c c
      up := put d.up c c
      down := put d.down c c
      col := put d.col c c
      name := put d.name c n
      size := put d.size c 0 })
  else none

def put_left (old nnew : Nat) (d : Dance) : Dance :=
  let d := { d with left := put d.left nnew (d.left old), right := put d.right nnew old }
  let d := { d with right := put d.right (d.left old) nnew }
  { d with left := put d.left old nnew }

def put_up (old nnew : Nat) (d : Dance) : Dance :=
  let d := { d with up := put d.up nnew (d.up old), down := put d.down nnew old }
  let d := { d with down := put d.down (d.up old) nnew }
  let d := { d with up := put d.up old nnew }
  { d with size := put d.size old (d.size old + 1), col := put d.col nnew old }

def append_column (n : Nat) (d : Dance) : Option Dance :=
  if n < 400 ∧ d.columns_ n = none then do
    let (c, d) ← d.new_column n
    let d := d.put_left d.root_ c
    some { d with columns_ := put d.columns_ n (some c) }
  else none

def new_row (col : Nat) (d : Dance) : Option (Nat × Dance) :=
  if col < 400 then do
    let head ← d.columns_ col
    if d.cur_node_ < kMaxNodes then
      let r := d.cur_node_
      let d := { d with
        cur_node_ := r + 1
        left := put d.left r r
        right := put d.right r r
        up := put d.up r r
        down := put d.down r r
        name := put d.name r col
        col := put d.col r head
        size := put d.size r 0 }
      some (r, d.put_up (d.col r) r)
    else none
  else none

def appendNeeded (given : Given) (d : Dance) (iv : Nat × Nat) : Option Dance := do
  let (i, v) := iv
  let d ← if !given.rows i v then d.append_column (get_row_col i v) else some d
  let d ← if !given.cols i v then d.append_column (get_col_col i v) else some d
  if !given.boxes i v then d.append_column (get_box_col i v) else some d

def addRow (i : Cell) (v : Nat) (d : Dance) : Option Dance := do
  let (n0, d) ← d.new_row i
  let (nr, d) ← d.new_row (get_row_col (row i) v)
  let (nc, d) ← d.new_row (get_col_col (TearcherCode.col i) v)
  let (nb, d) ← d.new_row (get_box_col (box i) v)
  let d := d.put_left n0 nr
  let d := d.put_left n0 nc
  some (d.put_left n0 nb)

/-- The constructor, where `memory` is what the object's memory held. -/
def construct (memory : Dance) (inout : Board) : Option Dance := do
  let (root, d) ← new_column 0 { memory with inout_ := inout, cur_node_ := 0, stack_ := [] }
  let d := { d with
    root_ := root
    left := put d.left root root
    right := put d.right root root
    columns_ := fun _ => none }
  let given := givenOf inout
  let d ← (List.finRange 81).foldlM (fun d i => if inout i = 0 then d.append_column i else some d) d
  let d ← ((List.range 9).flatMap fun i => values.map fun v => (i, v)).foldlM (appendNeeded given) d
  (List.finRange 81).foldlM (fun d i =>
    if inout i = 0 then
      values.foldlM (fun d v =>
        if !(given.rows (row i) v || given.cols (TearcherCode.col i) v || given.boxes (box i) v) then d.addRow i v
        else some d) d
    else some d) d

/-! The search. -/

def minColumn (d : Dance) : Nat → Nat → Nat → Int → Option Nat
  | 0, _, _, _ => none
  | loops + 1, cc, c, min_size =>
      if cc = d.root_ then some c
      else if min_size > d.size cc then
        if d.size cc ≤ 1 then some cc else minColumn d loops (d.right cc) cc (d.size cc)
      else minColumn d loops (d.right cc) c min_size

def get_min_column (loops : Nat) (d : Dance) : Option Nat :=
  let c := d.right d.root_
  if d.size c > 1 then minColumn d loops (d.right c) c (d.size c) else some c

def unlink (j : Nat) (d : Dance) : Dance :=
  let d := { d with up := put d.up (d.down j) (d.up j) }
  let d := { d with down := put d.down (d.up j) (d.down j) }
  { d with size := put d.size (d.col j) (d.size (d.col j) - 1) }

def relink (j : Nat) (d : Dance) : Dance :=
  let d := { d with size := put d.size (d.col j) (d.size (d.col j) + 1) }
  let d := { d with up := put d.up (d.down j) j }
  { d with down := put d.down (d.up j) j }

def coverRow (loops row : Nat) (d : Dance) : Option Dance :=
  follow (fun d j => some (d.right j)) row (fun j d => some (d.unlink j)) loops (d.right row) d

def cover (loops c : Nat) (d : Dance) : Option Dance :=
  let d := { d with left := put d.left (d.right c) (d.left c) }
  let d := { d with right := put d.right (d.left c) (d.right c) }
  follow (fun d row => some (d.down row)) c (coverRow loops) loops (d.down c) d

def uncoverRow (loops row : Nat) (d : Dance) : Option Dance :=
  follow (fun d j => some (d.left j)) row (fun j d => some (d.relink j)) loops (d.left row) d

def uncover (loops c : Nat) (d : Dance) : Option Dance := do
  let d ← follow (fun d row => some (d.up row)) c (uncoverRow loops) loops (d.up c) d
  let d := { d with left := put d.left (d.right c) c }
  some { d with right := put d.right (d.left c) c }

/-- The loop that reads a cell and a value from a row, where `none` stands for -1. -/
def readRow (d : Dance) : Nat → Nat → Option Nat → Option Nat → Option (Nat × Nat)
  | _, _, some cell, some val => some (cell, val)
  | 0, _, _, _ => none
  | loops + 1, n, cell, val =>
      if d.name n < 100 then readRow d loops (d.right n) (some (d.name n)) val
      else readRow d loops (d.right n) cell (some (d.name n % 10))

def fillIn (loops : Nat) (d : Dance) (n : Nat) : Option Dance := do
  let (cell, val) ← d.readRow loops n none none
  if inside : cell < 81 ∧ val < 10 then
    some { d with inout_ := Function.update d.inout_ ⟨cell, inside.1⟩ ⟨val, inside.2⟩ }
  else none

def coverOthers (loops row : Nat) (d : Dance) : Option Dance :=
  follow (fun d j => some (d.right j)) row (fun j d => d.cover loops (d.col j)) loops (d.right row) d

def uncoverOthers (loops row : Nat) (d : Dance) : Option Dance :=
  follow (fun d j => some (d.left j)) row (fun j d => d.uncover loops (d.col j)) loops (d.left row) d

/-- The loop of `solve` over the rows of a column, where `solve` is the call one level deeper. -/
def tryRows (loops : Nat) (solve : Dance → Option (Bool × Dance)) (col : Nat) :
    Nat → Nat → Dance → Option (Bool × Dance)
  | 0, _, _ => none
  | fuel + 1, row, d =>
      if row = col then some (false, d)
      else do
        let d ← coverOthers loops row { d with stack_ := d.stack_ ++ [row] }
        let (found, d) ← solve d
        if found then some (true, d)
        else do
          let d ← uncoverOthers loops row { d with stack_ := d.stack_.dropLast }
          tryRows loops solve col fuel (d.down row) d

def solve (loops : Nat) : Nat → Dance → Option (Bool × Dance)
  | 0, _ => none
  | fuel + 1, d =>
      if d.left d.root_ = d.root_ then do
        let d ← d.stack_.foldlM (fillIn loops) d
        some (true, d)
      else do
        let col ← d.get_min_column loops
        let d ← d.cover loops col
        let (found, d) ← tryRows loops (solve loops fuel) col loops (d.down col) d
        if found then some (true, d)
        else do
          let d ← d.uncover loops col
          some (false, d)

end Dance

def solve_sudoku_dancing_links (memory : Dance) (loops fuel : Nat) (s : Globals) : Option (Bool × Globals) := do
  let d ← Dance.construct memory s.board
  let (found, d) ← d.solve loops fuel
  some (found, { s with board := d.inout_ })

end CloudLab.TearcherCode
