import SchemaWalk.Path
import SchemaWalk.Schema.Basic

/-! # Which type a path leads to, and so which fields can be selected there -/
namespace SchemaWalk

inductive ResolutionError where
  | missingField (field type : String)
  | missingType (type : String)
  | malformedReference (field type : String)
deriving DecidableEq

def ResolutionError.message : ResolutionError → String
  | .missingField field type => s!"Missing field `{field}` from type `{type}`"
  | .missingType type => s!"Missing type `{type}`"
  | .malformedReference field type =>
    s!"Field `{field}` on type `{type}` has a type reference with no named type"

namespace Schema

/-- The name of the type that a selection leads to from `t`: its scope, or else
the type of its field. -/
def nextName (t : TypeDef) (s : Selection) : Except ResolutionError String :=
  match s.scope with
  | some typeName => .ok typeName
  | none =>
    match t.field? s.name with
    | none => .error (.missingField s.name t.name)
    | some f =>
      match f.typeName? with
      | none => .error (.malformedReference f.name t.name)
      | some typeName => .ok typeName

def advance (schema : Schema) (t : TypeDef) (s : Selection) : Except ResolutionError TypeDef := do
  let typeName ← nextName t s
  match schema.type? typeName with
  | none => .error (.missingType typeName)
  | some next => .ok next

/-- Where the steps lead, one after the other, from the type where every query begins. -/
def typeAlong (schema : Schema) (steps : List Step) : Except ResolutionError TypeDef :=
  steps.foldlM (fun t s => schema.advance t s.toSelection) schema.query

theorem typeAlong_eq (schema : Schema) (steps : List Step) :
    schema.typeAlong steps = (steps.map (·.toSelection)).foldlM schema.advance schema.query := by
  rw [typeAlong, List.foldlM_map]

def fieldsAlong (schema : Schema) (steps : List Step) : Except ResolutionError (List Field) :=
  (schema.typeAlong steps).map (·.fields)

/-- The fields below a path, in the order of their declaration. The scope of the
root plays no part. -/
def fieldsAt (schema : Schema) (p : Path) : Except ResolutionError (List Field) :=
  schema.fieldsAlong p.steps

end Schema

end SchemaWalk
