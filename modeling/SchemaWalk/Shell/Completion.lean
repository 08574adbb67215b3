import SchemaWalk.Resolution
import SchemaWalk.Traversal

/-! # Completion of field names while a movement is typed -/
namespace SchemaWalk.Completion

def isCompletableChar (c : Char) : Bool := c.isAlphanum || c = '_' || c = '.' || c = '-'

/-- Movements without arguments can be completed. -/
def isCompletable : List Char → Bool
  | '.' :: rest => rest.all isCompletableChar
  | _ => false

/-- The text before the last dot and the text after it. -/
def atLastDot (text : List Char) : List Char × List Char :=
  let reversed := text.reverse
  (((reversed.dropWhile (· ≠ '.')).drop 1).reverse, (reversed.takeWhile (· ≠ '.')).reverse)

/-- The fields that can be selected after `completed`, which is empty or a
movement from the path. -/
def fieldsAfter? (schema : Schema) (path : Path) (completed : List Char) : Option (List Field) := do
  let steps ← if completed.isEmpty then some [] else (Traversal.descent completed).toOption
  (schema.fieldsAlong (path.steps ++ steps)).toOption

/-- Where the word that is typed begins, counted in bytes, and the names that complete it, in the
order of their declaration. There are none where the line is no movement or leads nowhere. -/
def candidates (schema : Schema) (path : Path) (typed : List Char) : Nat × List String :=
  let position := (Text.encode typed).length
  if isCompletable typed then
    let (completed, word) := atLastDot typed
    match fieldsAfter? schema path completed with
    | some fields =>
      (position - word.length, (fields.map (·.name)).filter fun name => word.isPrefixOf name.toList)
    | none => (position, [])
  else (position, [])

/-- The candidates for a line with the cursor after `cursor` bytes; `none` if no
character ends there. -/
def complete (schema : Schema) (path : Path) (line : String) (cursor : Nat) :
    Option (Nat × List String) :=
  (Text.cutAfter cursor line.toList).map fun (typed, _) => candidates schema path typed

end SchemaWalk.Completion
