/-! # The fewest decimal digits that read back as a given double -/
namespace SchemaWalk

/-- The number `digits * 10 ^ exponent`. -/
structure Decimal where
  digits : Nat
  exponent : Int
deriving DecidableEq

/-- A finite double as `significand * 2 ^ exponent`, its sign left aside. -/
structure Binary where
  significand : Nat
  exponent : Int
deriving DecidableEq

/-- The leading bit of a significand, which the 64-bit format leaves out: 52 bits follow it. -/
def hiddenBit : Nat := 0x10000000000000

/-- Exponent and fraction fields of the 64-bit format; the lowest exponent has no hidden bit. -/
def Binary.ofBits (bits : Nat) : Binary :=
  let fraction : Nat := bits % hiddenBit
  let field : Nat := bits / hiddenBit % 0x800
  if field = 0 then ⟨fraction, -1074⟩ else ⟨hiddenBit + fraction, (field : Int) - 1075⟩

/-- Below a power of two the doubles lie twice as close as above it. -/
def Binary.isPowerBoundary (b : Binary) : Bool := b.significand = hiddenBit && b.exponent ≠ -1074

def digitCount (n : Nat) : Nat := (Nat.toDigits 10 n).length

/-- The `p` with `10 ^ p ≤ num / den < 10 ^ (p + 1)`, for positive `num` and `den`. -/
def leadingExponent (num den : Nat) : Int :=
  if den ≤ num then (digitCount (num / den) : Int) - 1 else -(digitCount ((den - 1) / num) : Int)

def overPowerOfTen (num den : Nat) (k : Int) : Nat × Nat :=
  if 0 ≤ k then (num, den * Nat.pow 10 k.toNat) else (num * Nat.pow 10 (-k).toNat, den)

def Binary.fraction (b : Binary) : Nat × Nat :=
  if 0 ≤ b.exponent then (b.significand * Nat.pow 2 b.exponent.toNat, 1)
  else (b.significand, Nat.pow 2 (-b.exponent).toNat)

/-- Whether `candidate` rounds to `b` when `b` is `num / den` in the candidate's unit. Half the gap
to the next double is `1 / (2 * significand)` of the value; an end of the interval belongs to an
even significand. -/
def Binary.isRoundedFrom (b : Binary) (num den candidate : Nat) : Bool :=
  let point := candidate * den
  let (gap, part) :=
    if num ≤ point then (point - num, 2 * b.significand)
    else (num - point, if b.isPowerBoundary then 4 * b.significand else 2 * b.significand)
  if b.significand % 2 = 0 then gap * part ≤ num else gap * part < num

/-- Of the two neighbours of `num / den` among the naturals, the one that rounds to `b`: the nearer
if both do, and the even one if they are equally near. -/
def Binary.neighbour? (b : Binary) (num den : Nat) : Option Nat :=
  let low := num / den
  let fits := b.isRoundedFrom num den
  let lowGap := num - low * den
  let highGap := (low + 1) * den - num
  if fits low && fits (low + 1) then
    some (if lowGap < highGap || (lowGap = highGap && low % 2 = 0) then low else low + 1)
  else if fits low then some low
  else if fits (low + 1) then some (low + 1)
  else none

/-- The first grid of `count`, `count + 1`, ... digits that has a point rounding to `b`. -/
def Binary.search (b : Binary) (leading : Int) : Nat → Nat → Decimal
  | 0, count =>
    let (num, den) := overPowerOfTen b.fraction.1 b.fraction.2 (leading - count)
    ⟨num / den, leading - count⟩
  | tries + 1, count =>
    let k := leading - count
    let (num, den) := overPowerOfTen b.fraction.1 b.fraction.2 k
    match b.neighbour? num den with
    | some digits => ⟨digits, k⟩
    | none => b.search leading tries (count + 1)

/-- Moves the zeros at the end of the digits into the exponent; `fuel` bounds their number. -/
def Decimal.strip : Nat → Decimal → Decimal
  | 0, d => d
  | fuel + 1, d =>
    if d.digits % 10 = 0 && d.digits ≠ 0 then strip fuel ⟨d.digits / 10, d.exponent + 1⟩ else d

/-- The shortest decimal that rounds to a positive `b`, nearest to `b` among those: seventeen digits
always suffice. -/
def Binary.shortest (b : Binary) : Decimal :=
  (b.search (leadingExponent b.fraction.1 b.fraction.2) 17 0).strip 18

example : (Binary.ofBits 1).shortest = ⟨5, -324⟩ := by decide +kernel
example : (Binary.ofBits 2).shortest = ⟨1, -323⟩ := by decide +kernel
example : (Binary.ofBits 0x3FB999999999999A).shortest = ⟨1, -1⟩ := by decide +kernel
example : (Binary.ofBits 0x7FEFFFFFFFFFFFFF).shortest = ⟨17976931348623157, 292⟩ := by
  decide +kernel

end SchemaWalk
