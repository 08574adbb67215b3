/-! # Sets of characters as ranges of code points -/
namespace SchemaWalk.Text

/-- The ranges below U+1000, from there to U+FFFF, and above, each with its first
and last code point. -/
structure CharSet where
  low : List (Nat × Nat)
  middle : List (Nat × Nat)
  high : List (Nat × Nat)

namespace CharSet

def rangesFor (set : CharSet) (n : Nat) : List (Nat × Nat) :=
  if n < 0x1000 then set.low else if n < 0x10000 then set.middle else set.high

def contains (set : CharSet) (c : Char) : Bool :=
  (set.rangesFor c.toNat).any fun (first, last) => first ≤ c.toNat && c.toNat ≤ last

end CharSet

end SchemaWalk.Text
