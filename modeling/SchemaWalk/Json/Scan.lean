import SchemaWalk.Json.Fault

/-! # The small steps of reading JSON: blanks, fixed words, and the marks between values -/
namespace SchemaWalk.Json

abbrev Bytes := List UInt8

/-- A reader takes what it reads off the front of the bytes, and returns the rest. -/
abbrev Reader (α : Type) := Bytes → Except Fault (α × Bytes)

/-- Stops where `s` begins. -/
def refuse {α : Type} (cause : Cause) (s : Bytes) : Except Fault α := .error ⟨cause, s.length⟩

/-- Stops at the first byte of `s`, which counts as read. -/
def refuseNext {α : Type} (cause : Cause) (s : Bytes) : Except Fault α :=
  .error ⟨cause, s.length - 1⟩

def isBlank (b : UInt8) : Bool := b = 0x20 || b = 0x0A || b = 0x09 || b = 0x0D

def skipBlanks (s : Bytes) : Bytes := s.dropWhile isBlank

def word : Bytes → Reader Unit
  | [], s => .ok ((), s)
  | _ :: _, [] => refuse .endInValue []
  | b :: bs, c :: s => if b = c then word bs s else refuse .expectedWord s

/-- What follows the first letter of the word for the value null, and of those
for true and false. -/
def restOfNull : Reader Unit := word [0x75, 0x6C, 0x6C]

def restOfTrue : Reader Unit := word [0x72, 0x75, 0x65]

def restOfFalse : Reader Unit := word [0x61, 0x6C, 0x73, 0x65]

/-- Whether a list has another item. Leaves the bytes at that item, or at the closing bracket. -/
def nextItem (first : Bool) : Reader Bool := fun s =>
  match skipBlanks s with
  | [] => refuseNext .endInList []
  | b :: s =>
    if b = 0x5D then .ok (false, b :: s)
    else if first then .ok (true, b :: s)
    else if b = 0x2C then
      match skipBlanks s with
      | [] => refuseNext .endInValue []
      | c :: s => if c = 0x5D then refuseNext .trailingComma (c :: s) else .ok (true, c :: s)
    else refuseNext .expectedListEnd (b :: s)

/-- Whether an object has another member. Leaves the bytes at the quote of its name, or at the
closing brace. -/
def nextMember (first : Bool) : Reader Bool := fun s =>
  match skipBlanks s with
  | [] => refuseNext .endInObject []
  | b :: s =>
    if b = 0x7D then .ok (false, b :: s)
    else if first then if b = 0x22 then .ok (true, b :: s) else refuseNext .nameNotString (b :: s)
    else if b = 0x2C then
      match skipBlanks s with
      | [] => refuseNext .endInValue []
      | c :: s =>
        if c = 0x22 then .ok (true, c :: s)
        else if c = 0x7D then refuseNext .trailingComma (c :: s)
        else refuseNext .nameNotString (c :: s)
    else refuseNext .expectedObjectEnd (b :: s)

def colon : Reader Unit := fun s =>
  match skipBlanks s with
  | [] => refuseNext .endInObject []
  | b :: s => if b = 0x3A then .ok ((), s) else refuseNext .expectedColon (b :: s)

/-- The closing bracket after the last item that is wanted. -/
def endOfList : Reader Unit := fun s =>
  match skipBlanks s with
  | [] => refuseNext .endInList []
  | b :: s =>
    if b = 0x5D then .ok ((), s)
    else if b = 0x2C then
      match skipBlanks s with
      | 0x5D :: s => refuseNext .trailingComma (0x5D :: s)
      | s => refuseNext .trailingCharacters s
    else refuseNext .trailingCharacters (b :: s)

/-- Reads a whole input. The reader receives a bound on the steps of its loops: none takes a step
without a byte. -/
def readAll {α : Type} (reader : Nat → Reader α) (input : Bytes) : Except Fault α := do
  let (a, rest) ← reader (input.length + 1) input
  match skipBlanks rest with
  | [] => .ok a
  | rest => refuseNext .trailingCharacters rest

end SchemaWalk.Json
