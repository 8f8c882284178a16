import Harvest.Text.Split
import Harvest.Text.Width

/-!
# Tables

Rows of cells in a frame. A column is as wide as its widest cell, a row as high as its highest
one, and cells that are missing at the end of a row are empty.
-/

namespace Harvest

namespace Table

/-- The side that the lines of a cell keep to. -/
inductive Side where
  | left
  | right
deriving DecidableEq, Repr, Inhabited

/-- A cell: its lines and their side. -/
structure Cell where
  lines : List String
  side : Side
deriving DecidableEq, Repr, Inhabited

namespace Cell

/-- A cell that keeps a text on a side. -/
def ofText (side : Side) (text : String) : Cell :=
  ⟨(Text.splitAt '\n' text.toList).map String.ofList, side⟩

/-- A text on the left side. -/
def left (text : String) : Cell := ofText .left text

/-- A text on the right side. -/
def right (text : String) : Cell := ofText .right text

/-- An empty cell. -/
def empty : Cell := left ""

/-- The columns of the widest line. -/
def width (c : Cell) : Nat := (c.lines.map Text.width).foldl max 0

end Cell

end Table

/-- A table: a row of headings above other rows. -/
structure Table where
  header : List Table.Cell
  rows : List (List Table.Cell)
deriving DecidableEq, Repr

namespace Table

/-- A table with the given headings. -/
def withHeadings (headings : List String) (rows : List (List Cell)) : Table :=
  ⟨headings.map Cell.left, rows⟩

/-- All rows. -/
def allRows (t : Table) : List (List Cell) := t.header :: t.rows

/-- The number of columns. -/
def columnCount (t : Table) : Nat := (t.allRows.map List.length).foldl max 0

/-- The width of a column, which is at least one. -/
def columnWidth (t : Table) (column : Nat) : Nat :=
  (t.allRows.map fun row ↦ ((row[column]?).getD .empty).width).foldl max 1

/-- The widths of the columns. -/
def columnWidths (t : Table) : List Nat := (List.range t.columnCount).map t.columnWidth

/-- Copies of a text. -/
def copies (n : Nat) (text : String) : String := String.join (List.replicate n text)

/-- A line on its side of a column, with a blank at both ends. -/
def padded (side : Side) (width : Nat) (line : String) : String :=
  let room := copies (width - Text.width line) " "
  match side with
  | .left => " " ++ line ++ room ++ " "
  | .right => " " ++ room ++ line ++ " "

/-- A line between two rows, from its left end to its right end. -/
def rule (left fill cross right : String) (widths : List Nat) : String :=
  left ++ cross.intercalate (widths.map fun w ↦ copies (w + 2) fill) ++ right

/-- The lines of a row. -/
def rowLines (widths : List Nat) (row : List Cell) : List String :=
  let height := (row.map (·.lines.length)).foldl max 1
  (List.range height).map fun n ↦
    let parts := widths.zipIdx.map fun (width, column) ↦
      let cell := (row[column]?).getD .empty
      padded cell.side width ((cell.lines[n]?).getD "")
    "│" ++ "┆".intercalate parts ++ "│"

/-- The lines of rows with a rule between every two. -/
def bodyLines (widths : List Nat) : List (List Cell) → List String
  | [] => []
  | [row] => rowLines widths row
  | row :: rows => rowLines widths row ++ rule "├" "╌" "┼" "┤" widths :: bodyLines widths rows

/-- The lines of a table. -/
def lines (t : Table) : List String :=
  let widths := t.columnWidths
  rule "╭" "─" "┬" "╮" widths :: rowLines widths t.header
    ++ rule "╞" "═" "╪" "╡" widths :: bodyLines widths t.rows
    ++ [rule "╰" "─" "┴" "╯" widths]

/-- The text of a table. -/
def text (t : Table) : String := "\n".intercalate t.lines

end Table

end Harvest
