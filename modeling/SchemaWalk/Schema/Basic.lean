import SchemaWalk.Dictionary
import SchemaWalk.Schema.TypeDef

/-! # Schemas: type definitions by name, with a type where every query begins -/
namespace SchemaWalk

/-- The types of a service. The type where queries begin is among them. -/
structure Schema where
  queryName : String
  mutationName : Option String
  subscriptionName : Option String
  types : Dictionary TypeDef
  query_defined : (types.find? queryName).isSome

namespace Schema

def type? (s : Schema) (name : String) : Option TypeDef := s.types.find? name

def query (s : Schema) : TypeDef := (s.types.find? s.queryName).get s.query_defined

/-- Types under their names; of two definitions of one name the later one stays. -/
def collect (defs : List TypeDef) : Dictionary TypeDef :=
  Dictionary.ofList (defs.map fun t => (t.name, t))

def ofTypes? (queryName : String) (defs : List TypeDef) : Option Schema :=
  let types := collect defs
  if h : (types.find? queryName).isSome then some ⟨queryName, none, none, types, h⟩ else none

/-- The names that are defined again after their first definition, once for each time; `seen` are
the names before. -/
def redefinedAfter (seen : List String) : List TypeDef → List String
  | [] => []
  | t :: rest =>
    if seen.contains t.name then t.name :: redefinedAfter seen rest
    else redefinedAfter (t.name :: seen) rest

def redefined (defs : List TypeDef) : List String := redefinedAfter [] defs

def redefinedWarning (name : String) : String :=
  s!"Schema defines type `{name}` more than once; keeping the last definition."

end Schema

end SchemaWalk
