import SchemaWalk.Decimal.Shortest
import SchemaWalk.Json.Value

/-! # JSON values as text, on one line or indented -/
namespace SchemaWalk.Json

/-- How a double is written: the range of its decimal exponent in which digits stand around a plain
point, beyond which the exponent is spelled out. -/
structure DoubleStyle where
  lowest : Int
  highest : Int

/-- Plain notation from `0.00001` up to sixteen digits before the point. -/
def doubleStyle : DoubleStyle := ⟨-5, 15⟩

def zeros (n : Nat) : List Char := List.replicate n '0'

def plainText (digits : List Char) (exponent : Int) : List Char :=
  let point := (digits.length : Int) + exponent
  if 0 ≤ exponent then digits ++ zeros exponent.toNat ++ ['.', '0']
  else if 0 < point then digits.take point.toNat ++ '.' :: digits.drop point.toNat
  else ['0', '.'] ++ zeros (-point).toNat ++ digits

def exponentText (digits : List Char) (leading : Int) : List Char :=
  let fraction := digits.drop 1
  digits.take 1 ++ (if fraction.isEmpty then [] else '.' :: fraction) ++
    ['e', if leading < 0 then '-' else '+'] ++ Nat.toDigits 10 leading.natAbs

def signBit : Nat := 0x8000000000000000

/-- A finite double in the fewest digits that read back, marked as no integer by a
point or an exponent. -/
def doubleText (x : Float) : List Char :=
  let bits := x.toBits.toNat
  let sign := if signBit ≤ bits then ['-'] else []
  let magnitude := Binary.ofBits (bits % signBit)
  if magnitude.significand = 0 then sign ++ ['0', '.', '0']
  else
    let decimal := magnitude.shortest
    let digits := Nat.toDigits 10 decimal.digits
    let leading := decimal.exponent + digits.length - 1
    sign ++
      (if doubleStyle.lowest ≤ leading && leading ≤ doubleStyle.highest then
          plainText digits decimal.exponent
        else exponentText digits leading)

def integerText (n : Int) : List Char :=
  if n < 0 then '-' :: Nat.toDigits 10 n.natAbs else Nat.toDigits 10 n.natAbs

def Number.text : Number → List Char
  | .integer n => integerText n
  | .double x => doubleText x

def hexDigit (n : Nat) : Char := Nat.digitChar (n % 16)

/-- A character inside a string: the quote, the backslash and the control characters below
the space are escaped. -/
def escaped (c : Char) : List Char :=
  if c = '"' then ['\\', '"']
  else if c = '\\' then ['\\', '\\']
  else if c = '\x08' then ['\\', 'b']
  else if c = '\x0c' then ['\\', 'f']
  else if c = '\n' then ['\\', 'n']
  else if c = '\r' then ['\\', 'r']
  else if c = '\t' then ['\\', 't']
  else if c.toNat < 0x20 then ['\\', 'u', '0', '0', hexDigit (c.toNat / 16), hexDigit c.toNat]
  else [c]

def stringText (s : String) : List Char := '"' :: s.toList.flatMap escaped ++ ['"']

mutual
def Value.compact : Value → List Char
  | .null => "null".toList
  | .boolean b => (if b then "true" else "false").toList
  | .number n => n.text
  | .string s => stringText s
  | .array items => '[' :: [','].intercalate (compactItems items) ++ [']']
  | .object members => '\x7b' :: [','].intercalate (compactMembers members) ++ ['\x7d']

def Value.compactItems : List Value → List (List Char)
  | [] => []
  | x :: xs => x.compact :: compactItems xs

def Value.compactMembers : List (String × Value) → List (List Char)
  | [] => []
  | (k, x) :: xs => (stringText k ++ ':' :: x.compact) :: compactMembers xs
end

def newline (level : Nat) : List Char := '\n' :: List.replicate (2 * level) ' '

/-- Parts on lines of their own between brackets, one level further in; without parts
the brackets touch. -/
def block (level : Nat) (opening closing : Char) (parts : List (List Char)) : List Char :=
  if parts.isEmpty then [opening, closing]
  else opening :: newline (level + 1) ++ (',' :: newline (level + 1)).intercalate parts ++
    newline level ++ [closing]

mutual
def Value.indented (level : Nat) : Value → List Char
  | .array items => block level '[' ']' (indentedItems (level + 1) items)
  | .object members => block level '\x7b' '\x7d' (indentedMembers (level + 1) members)
  | scalar => scalar.compact

def Value.indentedItems (level : Nat) : List Value → List (List Char)
  | [] => []
  | x :: xs => x.indented level :: indentedItems level xs

def Value.indentedMembers (level : Nat) : List (String × Value) → List (List Char)
  | [] => []
  | (k, x) :: xs => (stringText k ++ [':', ' '] ++ x.indented level) :: indentedMembers level xs
end

def Value.render (v : Value) : String := String.ofList v.compact

def Value.pretty (v : Value) : String := String.ofList (v.indented 0)

example : doubleText 1e15 = "1000000000000000.0".toList := by decide +kernel
example : doubleText 1e16 = "1e+16".toList := by decide +kernel
example : doubleText (-0.00001) = "-0.00001".toList := by decide +kernel
example : doubleText 1.5e-7 = "1.5e-7".toList := by decide +kernel

end SchemaWalk.Json
