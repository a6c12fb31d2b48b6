import CallProfiler.Decimal.Notation
import CallProfiler.Tree.Basic

/-!
# Tree.Render: trees as text

A tree is drawn as a table with one row per call, parents before their children: the time of the call
itself, its whole time, both with their share of the whole time of the topmost call as a percentage
and a bar, and the signature behind lines that show the place in the tree.

```text
----------------------------------------------------------------------
Selftime (ms)              Total (ms)                 Method signature
----------------------------------------------------------------------
000250.00  025% ||:        001000.00  100% |||||||||| GET /orders
000750.00  075% |||||||:   000750.00  075% |||||||:   `-- loadOrders
```
-/

namespace CallProfiler

/-- How trees are drawn. -/
structure TreeStyle where
  /-- Whether bars are drawn with plain characters. -/
  ascii : Bool := true
  deriving DecidableEq, Repr

namespace TreeStyle

/-- The number of characters of a bar. -/
def barWidth : Nat := 10

/-- The characters of a bar: a full step, a half step and an empty one. -/
def barChars (style : TreeStyle) : Char × Char × Char :=
  if style.ascii then ('|', ':', ' ') else ('\u2588', '\u258c', '\u2007')

/-- A bar for a share of the whole, in half steps. -/
def bar (style : TreeStyle) (fraction : Float) : List Char :=
  let (fullChar, halfChar, emptyChar) := style.barChars
  let full := (fraction * 10.0).toUInt64.toNat
  let withHalf := full * 2 != (fraction * 10.0 * 2.0).toUInt64.toNat
  (List.range barWidth).map fun i =>
    if i < full then fullChar else if i = full ∧ withHalf then halfChar else emptyChar

/-- One of the two time columns of a row. -/
def timeColumn (style : TreeStyle) (time total : UInt64) : List Char :=
  let fraction := if total = 0 then 0.0 else time.toFloat / total.toFloat
  Decimal.fixedPlaces 9 2 (time.toFloat / 1000000.0) ++ [' ', ' '] ++
    Decimal.fixedPlaces 3 0 (fraction * 100.0) ++ ['%', ' '] ++ style.bar fraction ++ [' ']

/-- The line above and below the titles. -/
def separator : List Char := List.replicate 70 '-'

/-- The titles of the columns. -/
def titles : List Char :=
  let column (title : String) := title.toList ++ List.replicate (27 - title.length) ' '
  column "Selftime (ms)" ++ column "Total (ms)" ++ "Method signature".toList

/-- The lines above the rows. -/
def header : List Char := separator ++ '\n' :: titles ++ '\n' :: separator ++ ['\n']

/-- What stands before a signature for an ancestor: a line down to its next sibling, if it has one. -/
def passing (last : Bool) : List Char :=
  if last then [' ', ' ', ' ', ' '] else ['|', ' ', ' ', ' ']

/-- What stands before a signature for the call itself. -/
def joining (last : Bool) : List Char :=
  if last then ['\x60', '-', '-', ' '] else ['|', '-', '-', ' ']

/-- What stands before the signature of a node in a drawing that starts at `top`. -/
def leading (t : CallTree) (top h : NodeRef) : List Char :=
  if h = top then []
  else
    let between := ((t.ancestors h).takeWhile (· ≠ top)).reverse
    between.flatMap (fun a => passing (t.isLastChild a)) ++ joining (t.isLastChild h)

/-- The row of a call. -/
def row (style : TreeStyle) (total net gross : UInt64) (leading : List Char) (signature : String) :
    List Char :=
  style.timeColumn net total ++ style.timeColumn gross total ++ leading ++ signature.toList ++ ['\n']

/-- A drawing of a node and of all below it; shares are relative to that node. -/
def draw (style : TreeStyle) (t : CallTree) (top : NodeRef) : List Char :=
  let total := ((t.get? top).map (·.gross)).getD 0
  header ++ (t.preorder top).flatMap fun h =>
    match t.get? h with
    | some n => style.row total n.net n.gross (leading t top h) n.signature
    | none => []

/-- The text of a node and of all below it. -/
def renderFrom (style : TreeStyle) (t : CallTree) (top : NodeRef) : String :=
  String.ofList (style.draw t top)

/-- The text of a whole tree. -/
def render (style : TreeStyle) (t : CallTree) : String := style.renderFrom t t.root

end TreeStyle

end CallProfiler
