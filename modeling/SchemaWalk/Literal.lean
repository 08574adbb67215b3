import SchemaWalk.Json.Reader

/-! # Literal values of arguments -/
namespace SchemaWalk

/-- An argument's value by its kind: whole numbers of 64 bits are integers and all other numbers
floats. A value of any other kind is kept as JSON. -/
inductive Literal where
  | boolean (b : Bool)
  | integer (n : Int64)
  | float (x : Float)
  | string (s : String)
  | json (v : Json.Value)

namespace Literal

def kind : Literal → String
  | .boolean _ => "boolean"
  | .integer _ => "integer"
  | .float _ => "float"
  | .string _ => "string"
  | .json .null => "null"
  | .json (.array _) => "list"
  | .json (.object _) => "object"
  | .json _ => "json"

/-- A value of JSON as a literal: an integer beyond 64 signed bits becomes the float next to it. -/
def ofValue : Json.Value → Literal
  | .boolean b => .boolean b
  | .number (.integer n) =>
    if n < Json.signBit then .integer (Int64.ofInt n) else .float (UInt64.ofNat n.toNat).toFloat
  | .number (.double x) => .float x
  | .string s => .string s
  | .null => .json .null
  | .array items => .json (.array items)
  | .object members => .json (.object members)

def toValue : Literal → Json.Value
  | .boolean b => .boolean b
  | .integer n => .number (.integer n.toInt)
  | .float x => .number (.double x)
  | .string s => .string s
  | .json v => v

def parse (text : List Char) : Except Json.Error Literal :=
  (Json.parse (Text.encode text)).map ofValue

/-- The literal inside a query document. Only booleans, integers and strings have a form there. -/
def render? : Literal → Option (List Char)
  | .boolean b => some (if b then "true" else "false").toList
  | .integer n => some (Json.integerText n.toInt)
  | .string s => some (Json.stringText s)
  | _ => none

/-- Literals of different kinds are different, also if one is kept as JSON and the other is not. -/
def same : Literal → Literal → Bool
  | .boolean a, .boolean b => a == b
  | .integer a, .integer b => a == b
  | .float a, .float b => a == b
  | .string a, .string b => a == b
  | .json a, .json b => a == b
  | _, _ => false

instance : BEq Literal := ⟨same⟩

end Literal

end SchemaWalk
