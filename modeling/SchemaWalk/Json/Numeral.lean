import SchemaWalk.Json.Scan

/-! # Numerals of JSON and the numbers they stand for -/
namespace SchemaWalk.Json

/-- A numeral by its digits: the whole part, a fraction with at least one digit, and an exponent
with its sign. -/
structure Numeral where
  negative : Bool
  whole : List Nat
  fraction : Option (List Nat)
  exponent : Option (Bool × List Nat)
deriving DecidableEq

def isDigit (b : UInt8) : Bool := 0x30 ≤ b.toNat && b.toNat ≤ 0x39

def digits (s : Bytes) : List Nat × Bytes :=
  ((s.takeWhile isDigit).map fun b => b.toNat - 0x30, s.dropWhile isDigit)

/-- A zero stands alone; any other digit may be followed by more. -/
def wholePart : Reader (List Nat)
  | [] => refuse .endInValue []
  | b :: s =>
    if b = 0x30 then
      match s with
      | [] => .ok ([0], [])
      | d :: s => if isDigit d then refuseNext .invalidNumber (d :: s) else .ok ([0], d :: s)
    else if isDigit b then .ok (digits (b :: s))
    else refuse .invalidNumber s

def fractionPart : Reader (Option (List Nat))
  | [] => .ok (none, [])
  | b :: s =>
    if b = 0x2E then
      match digits s with
      | ([], []) => refuseNext .endInValue []
      | ([], rest) => refuseNext .invalidNumber rest
      | (ds, rest) => .ok (some ds, rest)
    else .ok (none, b :: s)

/-- Whether the exponent is negative, and the bytes after its sign. -/
def exponentSign : Bytes → Bool × Bytes
  | [] => (false, [])
  | b :: s => if b = 0x2B then (false, s) else if b = 0x2D then (true, s) else (false, b :: s)

def exponentPart : Reader (Option (Bool × List Nat))
  | [] => .ok (none, [])
  | b :: s =>
    if b = 0x65 || b = 0x45 then
      match exponentSign s with
      | (_, []) => refuse .endInValue []
      | (negative, d :: s) =>
        if isDigit d then
          let (ds, rest) := digits (d :: s)
          .ok (some (negative, ds), rest)
        else refuse .invalidNumber s
    else .ok (none, b :: s)

def numeral : Reader Numeral := fun s => do
  let (negative, s) := match s with
    | [] => (false, [])
    | b :: s => if b = 0x2D then (true, s) else (false, b :: s)
  let (whole, s) ← wholePart s
  let (fraction, s) ← fractionPart s
  let (exponent, s) ← exponentPart s
  .ok (⟨negative, whole, fraction, exponent⟩, s)

/-- The number that the digits continue `acc` to, as far as it stays below `bound`, and
the digits past that. -/
def gather (bound : Nat) : Nat → List Nat → Nat × List Nat
  | acc, [] => (acc, [])
  | acc, d :: ds => if acc * 10 + d < bound then gather bound (acc * 10 + d) ds else (acc, d :: ds)

def powerOfTen (k : Nat) : Float := Float.ofScientific 1 false k

/-- Division by `10 ^ k`, in steps of 308 where the power itself is no double. -/
def dividedByPower (f : Float) (k : Nat) : Float :=
  if k ≤ 308 then f / powerOfTen k
  else if f == 0 then f
  else dividedByPower (f / powerOfTen 308) (k - 308)
termination_by k

/-- The double for `significand * 10 ^ exponent`: significand and power are rounded first, then
their product or quotient. There is none beyond the largest double. -/
def double? (significand : Nat) (exponent : Int) : Option Float :=
  let f := (UInt64.ofNat significand).toFloat
  if exponent < 0 then some (dividedByPower f (-exponent).toNat)
  else if exponent ≤ 308 then
    let product := f * powerOfTen exponent.toNat
    if product.isInf then none else some product
  else if f == 0 then some f
  else none

namespace Numeral

/-- What 64 bits no longer hold. -/
def wordBound : Nat := 0x10000000000000000

/-- What an exponent never reaches. -/
def exponentBound : Nat := 0x80000000

/-- The leading digits that fit in 64 bits, and the power of ten of the last of them. Further digits
of the whole part only raise that power, and further digits of the fraction are dropped. -/
def scaled (n : Numeral) : Nat × Int :=
  let (whole, dropped) := gather wordBound 0 n.whole
  match n.fraction with
  | none => (whole, dropped.length)
  | some fraction =>
    let (significand, unused) := gather wordBound whole fraction
    (significand, (dropped.length : Int) - (fraction.length - unused.length : Nat))

/-- The exponent, if it is below `exponentBound`, and otherwise the number of its digits after the
one that exceeds. -/
def exponentValue (n : Numeral) : Except Nat Int :=
  match n.exponent with
  | none => .ok 0
  | some (negative, ds) =>
    match gather exponentBound 0 ds with
    | (e, []) => .ok (if negative then -e else e)
    | (_, _ :: excess) => .error excess.length

def signed (n : Numeral) (f : Float) : Float := if n.negative then -f else f

/-- A numeral without fraction and exponent is an integer if 64 bits hold it; minus
zero is not an integer. -/
def integer? (n : Numeral) : Option Int :=
  match n.fraction, n.exponent, gather wordBound 0 n.whole with
  | none, none, (whole, []) =>
    if !n.negative then some whole
    else if whole = 0 || signBit < whole then none
    else some (-whole)
  | _, _, _ => none

/-- The number, or how many digits of the numeral follow the place where it proves too large. -/
def value (n : Numeral) : Except Nat Number :=
  match n.integer? with
  | some i => .ok (.integer i)
  | none =>
    let (significand, power) := n.scaled
    match n.exponentValue with
    | .ok e =>
      match double? significand (power + e) with
      | some f => .ok (.double (n.signed f))
      | none => .error 0
    | .error excess =>
      if significand = 0 || n.exponent.any (·.1) then .ok (.double (n.signed 0)) else .error excess

end Numeral

def number : Reader Number := fun s => do
  let (n, rest) ← numeral s
  match n.value with
  | .ok v => .ok (v, rest)
  | .error excess => .error ⟨.numberOutOfRange, rest.length + excess⟩

end SchemaWalk.Json
