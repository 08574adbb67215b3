import SchemaWalk.Literal

/-! # Steps of a path: fields with arguments, perhaps narrowed, and the steps next to them -/
namespace SchemaWalk

/-- The field `name` with `arguments`. A `scope` is the name of a type whose fields are selected in
place of those of the field's own type. -/
structure Selection where
  name : String
  arguments : Dictionary Literal := .empty
  scope : Option String := none

/-- Names one step of a path by the depth of its slot. Depth 0 is the root. The stamp tells the step
apart from all others that stood there before or will stand there later. -/
structure Handle where
  depth : Nat
  stamp : UInt64
deriving DecidableEq

/-- A selection with the handles of the steps next to it. A step outside of a path has none, or
still those of a path that it was copied from. -/
structure Step extends Selection where
  parent : Option Handle := none
  child : Option Handle := none

structure UnsupportedArgument where
  step : String
  argument : String
  kind : String
deriving DecidableEq

def UnsupportedArgument.message (e : UnsupportedArgument) : String :=
  s!"Cannot render argument `{e.argument}` of `{e.step}`: {e.kind} arguments are not supported"

namespace Selection

instance : BEq Selection :=
  ⟨fun a b => a.name == b.name && a.arguments == b.arguments && a.scope == b.scope⟩

/-- Narrows the selection to the type named, or to none if the name is empty. -/
def withScope (s : Selection) (typeName : String) : Selection :=
  { s with scope := if typeName.isEmpty then none else some typeName }

def argumentText (step : String) : String × Literal → Except UnsupportedArgument (List Char)
  | (name, value) =>
    match value.render? with
    | some text => .ok (name.toList ++ [':', ' '] ++ text)
    | none => .error ⟨step, name, value.kind⟩

/-- The field as it is typed and as it opens a selection: the name, and the arguments
in ascending order. -/
def render (s : Selection) : Except UnsupportedArgument (List Char) :=
  if s.arguments.isEmpty then .ok s.name.toList
  else do
    let arguments ← s.arguments.entries.mapM (argumentText s.name)
    .ok (s.name.toList ++ '(' :: [',', ' '].intercalate arguments ++ [')'])

end Selection

namespace Step

/-- Steps with different links are different, also if they select the same. -/
instance : BEq Step :=
  ⟨fun a b => a.toSelection == b.toSelection && a.parent == b.parent && a.child == b.child⟩

def withScope (s : Step) (typeName : String) : Step :=
  { s with toSelection := s.toSelection.withScope typeName }

end Step

end SchemaWalk
