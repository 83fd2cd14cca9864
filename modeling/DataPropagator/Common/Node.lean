import DataPropagator.Common.CString
import DataPropagator.Common.HashMap

/-!
# The node table

`node.c`: `node_load_all` reads `nodes.csv` and links its rows to a graph.  A
pointer to a row is its index in the returned array.

The file is the byte stream `fgets` sees, so whatever the C library translates in
a file opened in text mode has been translated already.

The loader makes four passes over the rows.  The first resolves the parent of each
row through a hash map and counts children, the second allocates one cell for each
child counted and resets the count, the third fills the cells with the count as
index, and the last derives the type.  A write outside the allocated cells is the
error `overrun`.
-/

namespace DataPropagator

/-! ## Data -/

/-- `NodeType`. -/
inductive NodeType where
  | root
  | central
  | destination
deriving DecidableEq, Repr

/-- `NodeInfo`.  A cell of `children` that has been allocated and not yet written is
`none`. -/
structure NodeInfo where
  id : CString
  address : CString
  port : UInt16
  parent : Option Nat
  children : List (Option Nat)
  childCount : Nat
  type : NodeType
deriving DecidableEq, Repr

/-- The ways `node_load_all` does not return a table. -/
inductive LoadError where
  /-- `fopen` failed, and the result is NULL. -/
  | openFailed
  /-- A write outside the cells allocated for the children of a row. -/
  | overrun
deriving DecidableEq, Repr

/-! ## Lines -/

/-- `trim`. -/
def trim (s : Bytes) : Bytes :=
  ((s.dropWhile isspace).reverse.dropWhile isspace).reverse

/-- The line without its last byte if that is a line feed or a carriage return. -/
def stripLineEnd (p : Bytes) : Bytes :=
  match p.getLast? with
  | none => p
  | some c => if c == lineFeed || c == carriageReturn then p.dropLast else p

/-- One line: a new row and its parent id, or nothing when the line is skipped. -/
def parseLine (line : Bytes) : Option (NodeInfo × Option CString) :=
  let p := stripLineEnd (CString.ofBuffer line).bytes
  let (id, r) := strtok p
  let (addr, r) := strtok r
  let (ps, r) := strtok r
  let (pid, _) := strtok r
  match id, addr, ps with
  | some id, some addr, some ps =>
      some
        ({ id := strdup (trim id)
           address := strdup (trim addr)
           port := UInt16.ofInt (atoi (trim ps))
           parent := none
           children := []
           childCount := 0
           type := .destination },
          match pid.map trim with
          | some (c :: cs) => some (strdup (c :: cs))
          | _ => none)
  | _, _, _ => none

/-- The rows read so far: `arr` with `parent_ids` beside it, and `cap`. -/
structure Rows where
  arr : List NodeInfo := []
  parentIds : List (Option CString) := []
  cap : Nat := 16

/-- Append a row, doubling the arrays when they are full. -/
def Rows.add (rows : Rows) (row : NodeInfo × Option CString) : Rows where
  arr := rows.arr ++ [row.1]
  parentIds := rows.parentIds ++ [row.2]
  cap := if rows.cap ≤ rows.arr.length then rows.cap * 2 else rows.cap

/-- One pass of the read loop with the line just read. -/
def Rows.addLine (rows : Rows) (line : Bytes) : Rows :=
  match parseLine line with
  | some row => rows.add row
  | none => rows

/-- The size of the line buffer. -/
def lineSize : Nat := 512

/-- The read loop.  Every line read shortens the file, so its length is fuel
enough. -/
def readRows : Nat → Bytes → Rows → Rows
  | 0, _, rows => rows
  | n + 1, s, rows =>
      match fgets lineSize s with
      | none => rows
      | some (line, rest) => readRows n rest (rows.addLine line)

/-- The rows of a file. -/
def fileRows (content : Bytes) : Rows :=
  readRows content.length content {}

/-! ## Links -/

/-- Put every row of a table into a map under its id, in order. -/
def putRows (map : Option (HashMap CString Nat)) (arr : List NodeInfo) :
    Option (HashMap CString Nat) :=
  arr.zipIdx.foldl (fun m p => hashmapPut m p.1.id (some p.2)) map

/-- First pass, row `i`: find the parent and count the child. -/
def linkParent (map : Option (HashMap CString Nat)) (parentIds : List (Option CString))
    (arr : List NodeInfo) (i : Nat) : List NodeInfo :=
  match parentIds[i]?.join with
  | none => arr
  | some pid =>
      let par := hashmapGet map pid
      let arr := arr.modify i fun node => { node with parent := par }
      match par with
      | none => arr
      | some p => arr.modify p fun node => { node with childCount := node.childCount + 1 }

/-- Second pass: allocate the cells of a row and reset its count. -/
def allocChildren (node : NodeInfo) : NodeInfo :=
  if 0 < node.childCount then
    { node with children := List.replicate node.childCount none, childCount := 0 }
  else node

/-- Write a child to the next cell of a row. -/
def pushChild (i : Nat) (node : NodeInfo) : Except LoadError NodeInfo :=
  if node.childCount < node.children.length then
    .ok { node with
      children := node.children.set node.childCount (some i)
      childCount := node.childCount + 1 }
  else .error .overrun

/-- Third pass, row `i`: write it to its parent. -/
def fillChild (arr : List NodeInfo) (i : Nat) : Except LoadError (List NodeInfo) :=
  match (arr[i]?).bind NodeInfo.parent with
  | none => .ok arr
  | some p =>
      match arr[p]? with
      | none => .ok arr
      | some par => (pushChild i par).map fun par => arr.set p par

/-- Last pass: the type of a row. -/
def classify (node : NodeInfo) : NodeInfo :=
  { node with
    type :=
      match node.parent with
      | none => .root
      | some _ => if 0 < node.childCount then .central else .destination }

/-- The four passes over the rows of a file. -/
def linkRows (rows : Rows) : Except LoadError (List NodeInfo) := do
  let map := putRows (hashmapCreate rows.cap hashString eqString true false) rows.arr
  let arr := (List.range rows.arr.length).foldl (linkParent map rows.parentIds) rows.arr
  let arr := arr.map allocChildren
  let arr ← (List.range arr.length).foldlM fillChild arr
  return arr.map classify

/-- `node_load_all`, its allocations succeeding.  The argument is the content of the
file, or nothing if it cannot be opened. -/
def nodeLoadAll (file : Option Bytes) : Except LoadError (List NodeInfo) :=
  match file with
  | none => .error .openFailed
  | some content => linkRows (fileRows content)

/-! ## Reading a table -/

/-- The parent link of row `i`. -/
def parentOf (nodes : List NodeInfo) (i : Nat) : Option Nat :=
  (nodes[i]?).bind NodeInfo.parent

/-- The children of a row that a loop up to `child_count` reads. -/
def NodeInfo.childList (node : NodeInfo) : List Nat :=
  (node.children.take node.childCount).reduceOption

/-- The children of row `i`. -/
def childrenOf (nodes : List NodeInfo) (i : Nat) : List Nat :=
  match nodes[i]? with
  | none => []
  | some node => node.childList

end DataPropagator
