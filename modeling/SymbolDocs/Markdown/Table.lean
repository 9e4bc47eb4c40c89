import SymbolDocs.Markdown.Element

/-!
# Markdown tables

A table is a row of titles, a row of dashes that gives the side of each column, and rows of cells. Bars
divide the cells of a row; a bar that a backslash precedes or that stands in a code span divides none.

* `splitCells` cuts a row;
* `table?` reads a table.
-/

namespace SymbolDocs.Markdown

/-- The length of a code span in front that as many backticks close as open it. -/
def spanLength? (cs : List Char) : Option Nat :=
  let ticks := cs.takeWhile (· == '\x60')
  let rec close (passed : Nat) (run : Nat) : List Char → Option Nat
    | [] => if run = ticks.length then some passed else none
    | c :: rest =>
      if c = '\x60' then close (passed + 1) (run + 1) rest
      else if run = ticks.length then some passed
      else close (passed + 1) 0 rest
  if ticks.isEmpty then none
  else
    match cs.drop ticks.length with
    | c :: rest => close (ticks.length + 1) (if c = '\x60' then 1 else 0) rest
    | [] => none

/-- A character added to the first cell. -/
def addToCell (c : Char) : List (List Char) → List (List Char)
  | [] => [[c]]
  | w :: ws => (c :: w) :: ws

/-- Cuts a row at the bars that divide cells; `skip` characters divide nothing. -/
def cutCells : Nat → List Char → List (List Char)
  | _, [] => [[]]
  | skip + 1, c :: cs => addToCell c (cutCells skip cs)
  | 0, c :: cs =>
    if c = '|' then [] :: cutCells 0 cs
    else if c = '\\' then addToCell c (cutCells 1 cs)
    else if c = '\x60' then
      let run := ((c :: cs).takeWhile (· == '\x60')).length
      addToCell c (cutCells ((spanLength? (c :: cs)).getD run - 1) cs)
    else addToCell c (cutCells 0 cs)

/-- Without the blanks on both sides. -/
def trimCell (cs : List Char) : List Char :=
  Text.trimWhile (· == ' ') cs

/-- Does a bar that no backslash takes away end the row? -/
def hasEndBar (row : List Char) : Bool :=
  match row.reverse with
  | '|' :: before => (before.takeWhile (· == '\\')).length % 2 = 0
  | _ => false

/-- The cells of a row; in a table with a border the bars at its ends do not count. -/
def splitCells (border : Bool) (row : List Char) : List (List Char) :=
  let row := if border && row.head? = some '|' then row.drop 1 else row
  let row := if border && hasEndBar row then row.dropLast else row
  cutCells 0 row

/-- The side that a cell of the dashed row gives. -/
def alignmentOf (cell : List Char) : Alignment :=
  let cell := trimCell cell
  match cell.head? == some ':', cell.getLast? == some ':' with
  | true, true => .center
  | true, false => .left
  | false, true => .right
  | false, false => .none

/-- A row with a cell for each column. -/
def tableRow (border : Bool) (make : Alignment → Shape) (sides : List Alignment) (row : List Char) :
    Element :=
  let cells := splitCells border (trimCell row)
  { shape := .row,
    children := sides.mapIdx fun i side =>
      { shape := make side, text := trimCell (cells.getD i []) } }

/-- A row of empty cells. -/
def emptyRow (sides : List Alignment) : Element :=
  { shape := .row, children := sides.map fun _ => { shape := .cell .none } }

/-- A block that is a table. The dashed row has as many cells as the titles; a table of one column has
a bar in each row. -/
def table? (block : List Char) : Option Element :=
  match Text.lines block with
  | header :: dashes :: rows =>
    let title := trimCell header
    let border := title.head? = some '|' || hasEndBar title
    let count := (splitCells border title).length
    let barred (row : List Char) : Bool :=
      (trimCell row).head? = some '|' || hasEndBar (trimCell row)
    let separator := splitCells border (trimCell dashes)
    let fits := 1 < count || (border && (dashes :: rows).all barred)
    if fits && separator.length = count &&
        separator.all (fun cell => cell.all fun c => c == '|' || c == ':' || c == '-' || c == ' ') then
      let sides := separator.map alignmentOf
      let body :=
        if rows.isEmpty then [emptyRow sides] else rows.map (tableRow border .cell sides)
      some { shape := .table, children :=
        [{ shape := .tableHead, children := [tableRow border .headCell sides header] },
          { shape := .tableBody, children := body }] }
    else none
  | _ => none

end SymbolDocs.Markdown
