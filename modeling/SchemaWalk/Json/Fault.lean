import SchemaWalk.Json.Printer
import SchemaWalk.Text.Quoted

/-! # What can be wrong with a JSON text, and where -/
namespace SchemaWalk.Json

/-- How a message names a value that stands where something else is asked for. -/
def Value.description : Value → String
  | .null => "null"
  | .boolean b => s!"boolean `{b}`"
  | .number (.integer n) => s!"integer `{String.ofList (integerText n)}`"
  | .number (.double x) => s!"floating point `{String.ofList (doubleText x)}`"
  | .string s => s!"string {Text.quoted s}"
  | .array _ => "sequence"
  | .object _ => "map"

/-- The first four causes are those of a text that ends too early, the last five concern a text that
is not what is asked for, and those between break the grammar. -/
inductive Cause where
  | endInValue
  | endInList
  | endInObject
  | endInString
  | expectedValue
  | expectedWord
  | invalidNumber
  | numberOutOfRange
  | controlCharacter
  | invalidEscape
  | loneSurrogate
  | unpairedSurrogate
  | invalidUtf8
  | expectedListEnd
  | expectedObjectEnd
  | expectedColon
  | trailingComma
  | nameNotString
  | tooDeep
  | trailingCharacters
  | wrongType (found : Value) (expected : String)
  | wrongLength (length : Nat) (record : String) (members : Nat)
  | missingMember (name : String)
  | duplicateMember (name : String)
  | unknownVariant (text : String) (variants : List String)

inductive Category where
  | unfinished
  | malformed
  | unexpected
deriving DecidableEq

def Cause.category : Cause → Category
  | .endInValue | .endInList | .endInObject | .endInString => .unfinished
  | .wrongType .. | .wrongLength .. | .missingMember _ | .duplicateMember _ | .unknownVariant .. =>
    .unexpected
  | _ => .malformed

def Cause.message : Cause → String
  | .endInValue => "EOF while parsing a value"
  | .endInList => "EOF while parsing a list"
  | .endInObject => "EOF while parsing an object"
  | .endInString => "EOF while parsing a string"
  | .expectedValue => "expected value"
  | .expectedWord => "expected ident"
  | .invalidNumber => "invalid number"
  | .numberOutOfRange => "number out of range"
  | .controlCharacter => "control character (\\u0000-\\u001F) found while parsing a string"
  | .invalidEscape => "invalid escape"
  | .loneSurrogate => "lone leading surrogate in hex escape"
  | .unpairedSurrogate => "unexpected end of hex escape"
  | .invalidUtf8 => "invalid unicode code point"
  | .expectedListEnd => "expected `,` or `]`"
  | .expectedObjectEnd => "expected `,` or `\x7d`"
  | .expectedColon => "expected `:`"
  | .trailingComma => "trailing comma"
  | .nameNotString => "key must be a string"
  | .tooDeep => "recursion limit exceeded"
  | .trailingCharacters => "trailing characters"
  | .wrongType found expected => s!"invalid type: {found.description}, expected {expected}"
  | .wrongLength length record members =>
    let plural := if members = 1 then "" else "s"
    s!"invalid length {length}, expected struct {record} with {members} element{plural}"
  | .missingMember name => s!"missing field `{name}`"
  | .duplicateMember name => s!"duplicate field `{name}`"
  | .unknownVariant text variants =>
    let choices := ", ".intercalate (variants.map fun v => s!"`{v}`")
    s!"unknown variant `{text}`, expected one of {choices}"

/-- A cause, and how many bytes of the input were still unread when it showed. -/
structure Fault where
  cause : Cause
  unread : Nat

structure Error where
  cause : Cause
  line : Nat
  column : Nat

/-- Lines are counted from one; the column is the number of bytes read on the last of them. -/
def Fault.locate (input : List UInt8) (f : Fault) : Error :=
  let consumed := input.take (input.length - f.unread)
  ⟨f.cause, consumed.count 0x0A + 1, (consumed.reverse.takeWhile (· ≠ 0x0A)).length⟩

def Error.message (e : Error) : String := s!"{e.cause.message} at line {e.line} column {e.column}"

end SchemaWalk.Json
