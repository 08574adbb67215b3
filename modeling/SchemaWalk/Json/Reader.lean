import SchemaWalk.Dictionary
import SchemaWalk.Json.Numeral
import SchemaWalk.Json.StringReader

/-! # Reading JSON values -/
namespace SchemaWalk.Json

variable {α σ : Type}

/-- The items of a list after its opening bracket, up to the closing one. -/
def items (item : Reader α) : Nat → Bool → List α → Reader (List α)
  | 0, _, _, s => refuse .endInList s
  | steps + 1, first, before, s => do
    let (more, s) ← nextItem first s
    if more then
      let (x, s) ← item s
      items item steps false (x :: before) s
    else .ok (before.reverse, s.drop 1)

/-- The members of an object after its opening brace, up to the closing one; `member` reads what
follows a name. -/
def members (limit : Nat) (member : String → σ → Reader σ) : Nat → Bool → σ → Reader σ
  | 0, _, _, s => refuse .endInObject s
  | steps + 1, first, state, s => do
    let (more, s) ← nextMember first s
    if more then
      let (name, s) ← stringTail limit (s.drop 1)
      let (state, s) ← member name state s
      members limit member steps false state s
    else .ok (state, s.drop 1)

/-- Reads one value by its first byte, with the given readers for what follows an
opening bracket or brace. -/
def anyValue (limit : Nat) (list object : Reader Value) : Reader Value := fun s =>
  match skipBlanks s with
  | [] => refuseNext .endInValue []
  | b :: s =>
    if b = 0x6E then do
      let (_, s) ← restOfNull s
      .ok (.null, s)
    else if b = 0x74 then do
      let (_, s) ← restOfTrue s
      .ok (.boolean true, s)
    else if b = 0x66 then do
      let (_, s) ← restOfFalse s
      .ok (.boolean false, s)
    else if b = 0x22 then do
      let (t, s) ← stringTail limit s
      .ok (.string t, s)
    else if b = 0x2D || isDigit b then do
      let (n, s) ← number (b :: s)
      .ok (.number n, s)
    else if b = 0x5B then list s
    else if b = 0x7B then object s
    else refuseNext .expectedValue (b :: s)

/-- A value in which at most `depth` lists and objects stand inside each other. Of members with one
name the last one stays. -/
def value (limit : Nat) : Nat → Reader Value
  | 0 => anyValue limit (refuse .tooDeep) (refuse .tooDeep)
  | depth + 1 => anyValue limit
      (fun s => do
        let (xs, s) ← items (value limit depth) limit true [] s
        .ok (.array xs, s))
      (fun s => do
        let (ms, s) ← members limit (fun name ms s => do
          let (_, s) ← colon s
          let (x, s) ← value limit depth s
          .ok (insertEntry name x ms, s)) limit true [] s
        .ok (.object ms, s))

/-- How deep lists and objects may be nested. -/
def maxDepth : Nat := 127

def parse (input : Bytes) : Except Error Value :=
  (readAll (fun limit => value limit maxDepth) input).mapError (·.locate input)

end SchemaWalk.Json
