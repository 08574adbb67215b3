import SchemaWalk.Json.Scan
import SchemaWalk.Text.Utf8

/-! # Reading the characters of a JSON string -/
namespace SchemaWalk.Json

def hexValue (b : UInt8) : Option Nat :=
  let n := b.toNat
  if 0x30 ≤ n && n ≤ 0x39 then some (n - 0x30)
  else if 0x41 ≤ n && n ≤ 0x46 then some (n - 0x37)
  else if 0x61 ≤ n && n ≤ 0x66 then some (n - 0x57)
  else none

/-- Four hexadecimal digits, read at once: fewer than four bytes are all used up. -/
def hexQuad : Reader Nat
  | a :: b :: c :: d :: s =>
    match hexValue a, hexValue b, hexValue c, hexValue d with
    | some a, some b, some c, some d => .ok (((a * 16 + b) * 16 + c) * 16 + d, s)
    | _, _, _, _ => refuse .invalidEscape s
  | _ => refuse .endInString []

def isHighSurrogate (n : Nat) : Bool := 0xD800 ≤ n && n ≤ 0xDBFF

def isLowSurrogate (n : Nat) : Bool := 0xDC00 ≤ n && n ≤ 0xDFFF

def lowHalf : Reader Nat
  | [] => refuse .endInString []
  | b :: s =>
    if b ≠ 0x5C then refuse .unpairedSurrogate s
    else match s with
      | [] => refuse .endInString []
      | c :: s =>
        if c ≠ 0x75 then refuse .unpairedSurrogate s
        else do
          let (n, s) ← hexQuad s
          if isLowSurrogate n then .ok (n, s) else refuse .loneSurrogate s

/-- The character that four digits name, or eight if the first four are a high surrogate. -/
def unicodeEscape : Reader Char := fun s => do
  let (n, s) ← hexQuad s
  if isLowSurrogate n then refuse .loneSurrogate s
  else if isHighSurrogate n then
    let (m, s) ← lowHalf s
    .ok (Char.ofNat (0x10000 + (n - 0xD800) * 0x400 + (m - 0xDC00)), s)
  else .ok (Char.ofNat n, s)

def shortEscape (b : UInt8) : Option Char :=
  if b = 0x22 then some '"'
  else if b = 0x5C then some '\\'
  else if b = 0x2F then some '/'
  else if b = 0x62 then some '\x08'
  else if b = 0x66 then some '\x0c'
  else if b = 0x6E then some '\n'
  else if b = 0x72 then some '\r'
  else if b = 0x74 then some '\t'
  else none

def escape : Reader Char
  | [] => refuse .endInString []
  | b :: s =>
    match shortEscape b with
    | some c => .ok (c, s)
    | none => if b = 0x75 then unicodeEscape s else refuse .invalidEscape s

/-- The rest of a string after its opening quote and the characters `before`, last one first. From
the first byte on that begins no character, `bad` counts the bytes that the string spells. It is
reported once the closing quote is found, at the place that lies as many bytes before the end. -/
def stringRest : Nat → Option Nat → List Char → Reader String
  | 0, _, _, s => refuse .endInString s
  | _ + 1, _, _, [] => refuse .endInString []
  | steps + 1, bad, before, b :: s =>
    if b = 0x22 then
      match bad with
      | none => .ok (String.ofList before.reverse, s)
      | some count => .error ⟨.invalidUtf8, s.length + count⟩
    else if b = 0x5C then do
      let (c, s) ← escape s
      stringRest steps (bad.map (· + c.utf8Size)) (c :: before) s
    else if b < 0x20 then refuse .controlCharacter s
    else match Text.decodeChar (b :: s) with
      | some (c, s) => stringRest steps (bad.map (· + c.utf8Size)) (c :: before) s
      | none => stringRest steps (some (bad.getD 0 + 1)) before s

/-- The string after an opening quote; `limit` bounds its length. -/
def stringTail (limit : Nat) : Reader String := stringRest limit none []

end SchemaWalk.Json
