import ParticleShader.Text.Numeral

/-!
# Tables

A table of texts: every cell begins at the left of its column with one blank on
each side, a column is as wide as its widest cell, and a line is drawn above and
below the titles and at the end.
-/

namespace ParticleShader.Text

/-- A title row and rows of as many cells. -/
structure Table where
  /-- The titles of the columns. -/
  titles : List String
  /-- The rows below the titles. -/
  rows : List (List String)

namespace Table

/-- The width of every column. -/
def widths (t : Table) : List Nat :=
  t.rows.foldl (fun ws row => ws.zipWith max (row.map String.length)) (t.titles.map String.length)

/-- A horizontal line. -/
def rule (widths : List Nat) : String :=
  String.join (widths.map fun w => "+" ++ String.ofList (List.replicate (w + 2) '-')) ++ "+"

/-- The line of a row. -/
def rowLine (widths : List Nat) (cells : List String) : String :=
  String.join (widths.zipWith (fun w cell => "| " ++ padRight w cell ++ " ") cells) ++ "|"

/-- The lines of the table. -/
def lines (t : Table) : List String :=
  let ws := t.widths
  [rule ws, rowLine ws t.titles, rule ws] ++ t.rows.map (rowLine ws) ++ [rule ws]

end Table

end ParticleShader.Text
