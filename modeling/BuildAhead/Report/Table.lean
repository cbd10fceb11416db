import BuildAhead.Number.Sum
import BuildAhead.Text.Pieces
import BuildAhead.Text.Width

set_option autoImplicit false

/-!
# Report: tables

Tables for a terminal, with a frame around the whole table and a double line below the header. Each
cell has a blank on both sides and is filled up to the width of its column; one more blank stands
between two columns. A cell with several lines makes its row higher. Nothing is wrapped.
-/

namespace BuildAhead.Report

/-- A table of texts. Every row has as many cells as the header. -/
structure Table where
  header : List String
  rows : List (List String)
  deriving DecidableEq, Repr, Inhabited

namespace Table

/-- The lines of a cell. -/
def cellLines (cell : String) : List String := Text.pieces (· == '\n') cell

/-- The width of the widest line of a cell. -/
def cellWidth (cell : String) : Nat := ((cellLines cell).map Text.width).foldl max 0

/-- The widest cell at each position. -/
def widest : List Nat → List Nat → List Nat
  | [], ws => ws
  | vs, [] => vs
  | v :: vs, w :: ws => max v w :: widest vs ws

/-- The widths of the columns. -/
def widths (t : Table) : List Nat :=
  (t.header :: t.rows).foldl (fun ws row => widest ws (row.map cellWidth)) []

/-- The same text so many times. -/
def repeated (n : Nat) (s : String) : String := String.join (List.replicate n s)

/-- A text filled up with blanks. -/
def padded (width : Nat) (text : String) : String := text ++ repeated (width - Text.width text) " "

/-- The line of a row with this number. -/
def rowLine (widths : List Nat) (row : List (List String)) (number : Nat) : String :=
  let cells := widths.zipIdx.map fun (w, i) =>
    " " ++ padded w (((row.getD i []).getD number "")) ++ " "
  "│" ++ Text.joined " " cells ++ "│"

/-- The lines of a row. -/
def rowLines (widths : List Nat) (row : List String) : List String :=
  let cells := row.map cellLines
  let height := (cells.map List.length).foldl max 0
  (List.range height).map (rowLine widths cells)

/-- A horizontal line of the frame. -/
def rule (widths : List Nat) (left middle right : String) : String :=
  let total := sumOf (widths.map (· + 2)) + (widths.length - 1)
  left ++ repeated total middle ++ right

/-- The text of the table, without a line feed at its end. -/
def render (t : Table) : String :=
  let widths := t.widths
  Text.joined "\n"
    (rule widths "┌" "─" "┐" :: rowLines widths t.header ++ rule widths "╞" "═" "╡" ::
      t.rows.flatMap (rowLines widths) ++ [rule widths "└" "─" "┘"])

example :
    render ⟨["a", "bc"], [["1\n22", ""]]⟩ =
      "┌─────────┐\n│ a    bc │\n╞═════════╡\n│ 1       │\n│ 22      │\n└─────────┘" := by
  decide +kernel

end Table

/-- A title, in bold and underlined letters. -/
def heading (title : String) : String :=
  "\x1b[4m\x1b[1m" ++ title ++ "\x1b[0m\x1b[0m"

end BuildAhead.Report
