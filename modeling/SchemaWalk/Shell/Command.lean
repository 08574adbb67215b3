import SchemaWalk.Text.Quoted
import SchemaWalk.Traversal

/-! # Lines of the shell as commands -/
namespace SchemaWalk

inductive Command where
  | exit
  | help (topic : Option String)
  | listFields
  | narrow (typeName : Option String)
  | printPath
  | printDocument
  | ascend (further : Nat)
  | descend (steps : List Step)
  | query (fragment : String)

inductive CommandError where
  | noCommand (input : String)
  | traversal (reason : TraversalError)

def CommandError.message : CommandError → String
  | .noCommand input => s!"No command for input {Text.quoted input}"
  | .traversal reason => reason.message

namespace Command

/-- The text after `word`, if the line starts with it. -/
def after? (word : String) (line : List Char) : Option (List Char) :=
  if word.toList.isPrefixOf line then some (line.drop word.length) else none

/-- What may follow a word: nothing, or a blank and a topic on one line. -/
def topic? : List Char → Option (Option String)
  | [] => some none
  | ' ' :: topic =>
    if topic.isEmpty || topic.contains '\n' then none else some (some (String.ofList topic))
  | _ => none

def help? (line : List Char) : Option (Option String) :=
  match after? "help" line with
  | some rest => topic? rest
  | none => (after? "h" line).bind topic?

def typeName? : List Char → Option (Option String)
  | [] => some none
  | ' ' :: name => if Name.isNameText name then some (some (String.ofList name)) else none
  | _ => none

/-- The text between the braces at the two ends of a line, unless there is none. -/
def braced? (line : List Char) : Option String :=
  match line with
  | '\x7b' :: rest =>
    let inside := rest.dropLast
    if rest.getLast? = some '\x7d' && !inside.isEmpty then some (String.ofList inside) else none
  | _ => none

/-- The command of a line without its end. A line that starts with a dot moves down or up, and says
why if it does not. -/
def find (line : String) : Except CommandError Command :=
  let text := line.toList
  if line = "exit" then .ok .exit
  else if let some topic := help? text then .ok (.help topic)
  else if line = "ls" then .ok .listFields
  else if let some typeName := (after? "on" text).bind typeName? then .ok (.narrow typeName)
  else if line = "pp" then .ok .printPath
  else if line = "pq" then .ok .printDocument
  else if let some levels := Traversal.climb? text then .ok (.ascend (levels - 1))
  else if text.head? = some '.' then
    match Traversal.descent text with
    | .ok steps => .ok (.descend steps)
    | .error reason => .error (.traversal reason)
  else if let some fragment := braced? text then .ok (.query fragment)
  else .error (.noCommand line)

end Command

end SchemaWalk
