/-! # Kinds of types -/
namespace SchemaWalk

inductive Kind where
  | scalar
  | object
  | interface
  | union
  | enum
  | inputObject
  | list
  | nonNull
deriving DecidableEq

namespace Kind

def all : List Kind := [.scalar, .object, .interface, .union, .enum, .inputObject, .list, .nonNull]

def wireName : Kind → String
  | .scalar => "SCALAR"
  | .object => "OBJECT"
  | .interface => "INTERFACE"
  | .union => "UNION"
  | .enum => "ENUM"
  | .inputObject => "INPUT_OBJECT"
  | .list => "LIST"
  | .nonNull => "NON_NULL"

def displayName : Kind → String
  | .scalar => "Scalar"
  | .object => "Object"
  | .interface => "Interface"
  | .union => "Union"
  | .enum => "Enum"
  | .inputObject => "InputObject"
  | .list => "List"
  | .nonNull => "NonNull"

/-- A wrapper has no name of its own and stands around another type. -/
def isWrapper : Kind → Bool
  | .list | .nonNull => true
  | _ => false

theorem mem_all (k : Kind) : k ∈ all := by cases k <;> decide

end Kind

end SchemaWalk
