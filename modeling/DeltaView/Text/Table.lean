import DeltaView.Text.Width

/-!
# Text tables

A table of texts drawn with lines of signs. Every column is as wide as its widest line, with a
blank on each side; a cell with line breaks takes several lines, and so does its row.

* `render` draws a heading under a double line, rows apart from each other by single lines, and a
  frame around all.
-/

namespace DeltaView

/-- A heading and rows with as many cells. -/
structure TextTable where
  heading : List String
  rows : List (List String)

namespace TextTable

/-! ## Cells -/

/-- The lines of a cell. -/
def cellLines (cell : String) : List String := cell.splitOn "\n"

def cellWidth (cell : String) : Nat := ((cellLines cell).map columnsOf).foldl max 0

/-- The width of every column. -/
def widths (t : TextTable) : List Nat :=
  t.rows.foldl (fun ws row => List.zipWith max ws (row.map cellWidth)) (t.heading.map cellWidth)

def blanks (n : Nat) : String := String.ofList (List.replicate n ' ')

/-- A line of a cell, filled up to the width of its column. -/
def fill (width : Nat) (line : String) : String :=
  " " ++ line ++ blanks (width - columnsOf line) ++ " "

/-! ## Lines -/

/-- A line of text, from a line of each cell. -/
def textLine (ws : List Nat) (lines : List String) : String :=
  "|" ++ "|".intercalate (List.zipWith fill ws lines) ++ "|"

/-- The lines of a row. -/
def rowLines (ws : List Nat) (row : List String) : List String :=
  let cells := row.map cellLines
  (List.range ((cells.map List.length).foldl max 0)).map fun i =>
    textLine ws (cells.map fun lines => (lines[i]?).getD "")

/-- A drawn line: its sign, and the signs at its ends and where columns meet. -/
def rule (sign : Char) (ends joint : String) (ws : List Nat) : String :=
  ends ++ joint.intercalate (ws.map fun w => String.ofList (List.replicate (w + 2) sign)) ++ ends

def frame (ws : List Nat) : String := rule '-' "+" "+" ws
def headingRule (ws : List Nat) : String := rule '=' "+" "=" ws
def rowRule (ws : List Nat) : String := rule '-' "|" "+" ws

/-- The lines of rows, with a drawn line between any two. -/
def bodyLines (ws : List Nat) : List (List String) → List String
  | [] => []
  | [row] => rowLines ws row
  | row :: rows => rowLines ws row ++ rowRule ws :: bodyLines ws rows

/-- The drawn table. -/
def render (t : TextTable) : String :=
  let ws := t.widths
  "\n".intercalate (frame ws :: rowLines ws t.heading ++ headingRule ws ::
    bodyLines ws t.rows ++ [frame ws])

end TextTable

end DeltaView
