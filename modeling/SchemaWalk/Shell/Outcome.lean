/-! # What a line leads to, apart from a new position -/
namespace SchemaWalk

/-- A text for each of the two outputs, where there is one, and whether the session ends. -/
structure Outcome where
  output? : Option String := none
  failure? : Option String := none
  ends : Bool := false
deriving DecidableEq

namespace Outcome

@[match_pattern]
abbrev silent : Outcome := ⟨none, none, false⟩

@[match_pattern]
abbrev output (text : String) : Outcome := ⟨some text, none, false⟩

@[match_pattern]
abbrev failure (text : String) : Outcome := ⟨none, some text, false⟩

@[match_pattern]
abbrev exit : Outcome := ⟨none, none, true⟩

theorem output_inj {text other : String} : output text = output other ↔ text = other := by simp

end Outcome

end SchemaWalk
