/-!
# Tables

A table has a heading for each column and rows below it, in a frame with rounded corners. A column
is as wide as its widest cell; headings are at the left and other cells at the right of their
columns.
-/

namespace TxoIndex.Report

def widths (headings : List String) (rows : List (List String)) : List Nat :=
  rows.foldl (fun ws row ↦ ws.zipWith (fun w cell ↦ max w cell.length) row)
    (headings.map String.length)

def repeated (c : Char) (count : Nat) : String := String.ofList (List.replicate count c)

/-- A line of the frame. -/
def rule (left middle right : String) (ws : List Nat) : String :=
  left ++ middle.intercalate (ws.map fun w ↦ repeated '─' (w + 2)) ++ right

def line (cells : List String) : String := "│ " ++ " │ ".intercalate cells ++ " │"

def atLeft (width : Nat) (cell : String) : String := cell ++ repeated ' ' (width - cell.length)

def atRight (width : Nat) (cell : String) : String := repeated ' ' (width - cell.length) ++ cell

def table (headings : List String) (rows : List (List String)) : List String :=
  let ws := widths headings rows
  [rule "╭" "┬" "╮" ws, line (ws.zipWith atLeft headings), rule "├" "┼" "┤" ws] ++
    rows.map (fun row ↦ line (ws.zipWith atRight row)) ++ [rule "╰" "┴" "╯" ws]

end TxoIndex.Report
