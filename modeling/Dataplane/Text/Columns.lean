import Dataplane.Text.Width

/-!
# Aligned columns

Text whose lines are divided into cells by tabs is written with the cells of a column below each
other.

## The model

The last cell of a line ends with the line and belongs to no column. Cells of one column in
consecutive lines form a block, and every cell of a block is brought to the width of its widest one,
or to a least width, and is followed by two blanks. A line that has no cell in the column ends the
block.
-/

namespace Dataplane.Text

/-- The least width of a column. -/
def minWidth : Nat := 2

/-- The number of blanks between columns. -/
def padding : Nat := 2

/-- The pieces of a text between occurrences of a character. -/
def split (sep : Char) : List Char → List (List Char)
  | [] => [[]]
  | c :: rest =>
    if c = sep then [] :: split sep rest
    else match split sep rest with
      | [] => [[c]]
      | p :: ps => (c :: p) :: ps

/-- The cell of a line that belongs to a column. -/
def columnCell? (col : Nat) (line : List (List Char)) : Option (List Char) := line.dropLast[col]?

/-- The width of the block of a column at the start of some lines. -/
def blockWidth (col : Nat) (lines : List (List (List Char))) : Nat :=
  (lines.map (columnCell? col)).takeWhile (·.isSome) |>.foldl
    (fun w cell => max w (width (cell.getD []))) minWidth

/-- The widths of the columns of a line. A column goes on with the width of the line before, if that
line has a cell in it. -/
def lineWidths (before : List Nat) (line : List (List Char)) (rest : List (List (List Char))) :
    List Nat :=
  (List.range line.dropLast.length).map fun col =>
    before[col]?.getD (blockWidth col (line :: rest))

/-- The cells of a line, each padded to the width of its column. -/
def alignLine : (widths : List Nat) → (line : List (List Char)) → List Char
  | w :: ws, cell :: rest =>
    cell ++ List.replicate (w - width cell + padding) ' ' ++ alignLine ws rest
  | _, line => line.flatten

/-- Some lines with their columns aligned; `before` holds the widths in the line before. -/
def alignLines (before : List Nat) : List (List (List Char)) → List (List Char)
  | [] => []
  | line :: rest =>
    let widths := lineWidths before line rest
    alignLine widths line :: alignLines widths rest

/-- A text with its columns aligned. -/
def align (s : String) : String :=
  let lines := (split '\n' s.toList).map (split '\t')
  String.ofList ((alignLines [] lines).intersperse ['\n']).flatten

end Dataplane.Text
