import SchemaWalk.Schema.TypeRef

/-! # Definitions of types: their fields, arguments and values -/
namespace SchemaWalk

inductive Deprecation where
  | current
  | deprecated (reason : Option String)
deriving DecidableEq

/-- A reason counts only with the mark that it explains. -/
def Deprecation.ofMark (isDeprecated : Bool) (reason : Option String) : Deprecation :=
  if isDeprecated then .deprecated reason else .current

/-- An argument of a field, or a field of an input object. The default value is
the text of a literal. -/
structure InputValue where
  name : String
  description : Option String
  type : TypeRef
  defaultValue : Option String
deriving DecidableEq

structure Field where
  name : String
  description : Option String := none
  arguments : List InputValue := []
  type : TypeRef
  isDeprecated : Bool := false
  deprecationReason : Option String := none
deriving DecidableEq

namespace Field

def typeName? (f : Field) : Option String := f.type.typeName?

def deprecation (f : Field) : Deprecation := .ofMark f.isDeprecated f.deprecationReason

/-- The fields with `f` in the place of one with its name, or else at the end. -/
def put (f : Field) : List Field → List Field
  | [] => [f]
  | g :: rest => if g.name = f.name then f :: rest else g :: put f rest

theorem names_put (f : Field) (fs : List Field) :
    (f.put fs).map (·.name) =
      if f.name ∈ fs.map (·.name) then fs.map (·.name) else fs.map (·.name) ++ [f.name] := by
  induction fs with
  | nil => simp [put]
  | cons g rest ih =>
    simp only [put]
    split
    · next h => simp [h]
    · next h =>
      simp only [List.map_cons, ih, List.mem_cons, Ne.symm h, false_or]
      split <;> simp

theorem find?_put (f : Field) (fs : List Field) (name : String) :
    (f.put fs).find? (·.name = name) =
      if name = f.name then some f else fs.find? (·.name = name) := by
  induction fs with
  | nil =>
    by_cases h : name = f.name
    · simp [put, h]
    · simp [put, h, Ne.symm h]
  | cons g rest ih =>
    simp only [put]
    split
    · next h =>
      by_cases hn : name = f.name
      · simp [hn]
      · simp [hn, Ne.symm hn, h]
    · next h =>
      by_cases hn : g.name = name
      · simp [hn, show name ≠ f.name from hn ▸ h]
      · simpa [hn] using ih

end Field

structure EnumValue where
  name : String
  description : Option String
  isDeprecated : Bool
  deprecationReason : Option String
deriving DecidableEq

def EnumValue.deprecation (v : EnumValue) : Deprecation :=
  .ofMark v.isDeprecated v.deprecationReason

/-- A type by its name. Its kind decides which of the lists can have members. -/
structure TypeDef where
  kind : Kind
  name : String
  description : Option String := none
  fields : List Field := []
  inputFields : List InputValue := []
  interfaces : List TypeRef := []
  enumValues : List EnumValue := []
  possibleTypes : List TypeRef := []
deriving DecidableEq

namespace TypeDef

/-- A repeated name keeps its first place and takes its last definition. -/
def addField (t : TypeDef) (f : Field) : TypeDef := { t with fields := f.put t.fields }

def addFields (t : TypeDef) (fs : List Field) : TypeDef := fs.foldl addField t

def field? (t : TypeDef) (name : String) : Option Field := t.fields.find? (·.name = name)

/-- References without a name are left out. -/
def interfaceNames (t : TypeDef) : List String := t.interfaces.filterMap TypeRef.typeName?

def possibleTypeNames (t : TypeDef) : List String := t.possibleTypes.filterMap TypeRef.typeName?

end TypeDef

end SchemaWalk
