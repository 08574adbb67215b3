/-! # JSON values -/
namespace SchemaWalk.Json

/-- A number as read: an integer if 64 bits hold it, signed or not, and otherwise
the double next to it. -/
inductive Number where
  | integer (n : Int)
  | double (x : Float)
deriving DecidableEq

/-- Doubles are compared as numbers, so that the two zeros are equal. -/
def Number.same : Number → Number → Bool
  | .integer a, .integer b => a == b
  | .double a, .double b => a == b
  | _, _ => false

/-- A value as read. The members of an object stand in ascending order of their names. -/
inductive Value where
  | null
  | boolean (b : Bool)
  | number (n : Number)
  | string (s : String)
  | array (items : List Value)
  | object (members : List (String × Value))

mutual
def Value.same : Value → Value → Bool
  | .null, .null => true
  | .boolean a, .boolean b => a == b
  | .number a, .number b => a.same b
  | .string a, .string b => a == b
  | .array a, .array b => sameItems a b
  | .object a, .object b => sameMembers a b
  | _, _ => false

def Value.sameItems : List Value → List Value → Bool
  | [], [] => true
  | x :: xs, y :: ys => x.same y && sameItems xs ys
  | _, _ => false

def Value.sameMembers : List (String × Value) → List (String × Value) → Bool
  | [], [] => true
  | (k, x) :: xs, (l, y) :: ys => k == l && x.same y && sameMembers xs ys
  | _, _ => false
end

instance : BEq Value := ⟨Value.same⟩

instance : Inhabited Value := ⟨.null⟩

end SchemaWalk.Json
