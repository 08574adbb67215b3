/-! # Tables of text with aligned columns -/
namespace SchemaWalk.Table

variable {n : Nat}

def widen (widths : Vector Nat n) (row : Vector String n) : Vector Nat n :=
  Vector.zipWith max widths (row.map String.length)

def widths (rows : List (Vector String n)) : Vector Nat n := rows.foldl widen (Vector.replicate n 0)

/-- Cells with their widths, padded and separated by a space, except that nothing
follows the last one. -/
def line : List (String × Nat) → List Char
  | [] => []
  | [(cell, _)] => cell.toList
  | (cell, width) :: rest =>
    cell.toList ++ List.replicate (width - cell.length + 1) ' ' ++ line rest

def render (header : Vector String n) (rows : List (Vector String n)) : String :=
  let all := header :: rows
  let widths := (widths all).toList
  String.ofList (['\n'].intercalate (all.map fun row => line (row.toList.zip widths)))

end SchemaWalk.Table
