import SchemaWalk.Json.Numeral
import SchemaWalk.Json.StringReader

/-! # Passing over a JSON value of any depth without building it -/
namespace SchemaWalk.Json

inductive Container where
  | list
  | object
deriving DecidableEq

/-- An escape by its form alone: surrogates need no partner. -/
def skipEscape : Reader Unit
  | [] => refuse .endInString []
  | b :: s =>
    match shortEscape b with
    | some _ => .ok ((), s)
    | none =>
      if b = 0x75 then do
        let (_, s) ← hexQuad s
        .ok ((), s)
      else refuse .invalidEscape s

/-- The rest of a string after its opening quote, its bytes unchecked. -/
def skipString : Nat → Reader Unit
  | 0, s => refuse .endInString s
  | _ + 1, [] => refuse .endInString []
  | steps + 1, b :: s =>
    if b = 0x22 then .ok ((), s)
    else if b = 0x5C then do
      let (_, s) ← skipEscape s
      skipString steps s
    else if b < 0x20 then refuse .controlCharacter (b :: s)
    else skipString steps s

/-- A numeral of any size; one that breaks off is as invalid as any other. -/
def skipNumeral : Reader Unit := fun s =>
  match numeral s with
  | .ok (_, s) => .ok ((), s)
  | .error fault => .error { fault with cause := .invalidNumber }

def skipName (limit : Nat) : Reader Unit := fun s =>
  match skipBlanks s with
  | [] => refuseNext .endInObject []
  | b :: s =>
    if b = 0x22 then do
      let (_, s) ← skipString limit s
      colon s
    else refuseNext .nameNotString (b :: s)

/-- What comes after the first byte of a value: nothing more, or the inside of a container. -/
def skipStart (limit : Nat) : Reader (Option Container) := fun s =>
  match skipBlanks s with
  | [] => refuseNext .endInValue []
  | b :: s =>
    if b = 0x5B then .ok (some .list, s)
    else if b = 0x7B then .ok (some .object, s)
    else do
      let (_, s) ←
        if b = 0x6E then restOfNull s
        else if b = 0x74 then restOfTrue s
        else if b = 0x66 then restOfFalse s
        else if b = 0x22 then skipString limit s
        else if b = 0x2D || isDigit b then skipNumeral (b :: s)
        else refuseNext .expectedValue (b :: s)
      .ok (none, s)

/-- Whether the container goes on after a value (`fresh` is before the first one), with the bytes at
its next value. -/
def skipBetween (limit : Nat) (container : Container) (fresh : Bool) : Reader Bool := fun s =>
  let name (s : Bytes) : Except Fault (Bool × Bytes) :=
    match container with
    | .list => .ok (true, s)
    | .object => do
      let (_, s) ← skipName limit s
      .ok (true, s)
  match skipBlanks s with
  | [] => refuseNext (if container = .list then .endInList else .endInObject) []
  | b :: s =>
    if b = 0x2C && !fresh then name s
    else if b = (if container = .list then 0x5D else 0x7D) then .ok (false, s)
    else if fresh then name (b :: s)
    else refuseNext (if container = .list then .expectedListEnd else .expectedObjectEnd) (b :: s)

/-- What a skipping reader is about to meet, inside of the containers that are open. -/
inductive Due where
  | value
  | next (fresh : Bool)

def skipFrom (limit : Nat) : Nat → Due → List Container → Bytes → Except Fault Bytes
  | 0, _, _, s => .error ⟨.endInValue, s.length⟩
  | steps + 1, .value, enclosing, s => do
    let (inside, s) ← skipStart limit s
    match inside with
    | some container => skipFrom limit steps (.next true) (container :: enclosing) s
    | none => skipFrom limit steps (.next false) enclosing s
  | _ + 1, .next _, [], s => .ok s
  | steps + 1, .next fresh, container :: enclosing, s => do
    let (more, s) ← skipBetween limit container fresh s
    if more then skipFrom limit steps .value (container :: enclosing) s
    else skipFrom limit steps (.next false) enclosing s

/-- Passes over one value. A step for the value and one after it use up at least one byte
together. -/
def skip (limit : Nat) : Reader Unit := fun s => do
  let s ← skipFrom limit (2 * limit) .value [] s
  .ok ((), s)

end SchemaWalk.Json
