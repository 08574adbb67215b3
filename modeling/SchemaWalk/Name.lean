/-! # Names of fields, arguments and types -/
namespace SchemaWalk.Name

def isStart (c : Char) : Bool := c.isAlpha || c = '_'

def isPart (c : Char) : Bool := isStart c || c.isDigit

/-- A start character and any number of further ones, which may be digits; nothing else, not even a
final newline. -/
def isNameText : List Char → Bool
  | [] => false
  | c :: s => isStart c && s.all isPart

def isName (s : String) : Bool := isNameText s.toList

theorem toNat_of_isPart {c : Char} (hc : isPart c = true) : 48 ≤ c.toNat ∧ c.toNat ≤ 122 := by
  change (((decide ('A'.val ≤ c.val ∧ c.val ≤ 'Z'.val) ||
      decide ('a'.val ≤ c.val) && decide (c.val ≤ 'z'.val)) || decide (c = '_')) ||
    decide ('0'.val ≤ c.val) && decide (c.val ≤ '9'.val)) = true at hc
  simp only [Bool.or_eq_true, Bool.and_eq_true, decide_eq_true_eq, UInt32.le_iff_toNat_le] at hc
  change ((65 ≤ c.toNat ∧ c.toNat ≤ 90 ∨ 97 ≤ c.toNat ∧ c.toNat ≤ 122) ∨ c = '_') ∨
    48 ≤ c.toNat ∧ c.toNat ≤ 57 at hc
  rcases hc with (hc | rfl) | hc
  · omega
  · decide
  · omega

theorem isPart_of_mem {s : List Char} (hs : isNameText s = true) {c : Char} (hc : c ∈ s) :
    isPart c = true := by
  cases s with
  | nil => cases hc
  | cons d s =>
    simp only [isNameText, Bool.and_eq_true, List.all_eq_true] at hs
    rcases List.mem_cons.1 hc with rfl | hc
    · simp [isPart, hs.1]
    · exact hs.2 c hc

theorem not_mem_of_isNameText {s : List Char} (hs : isNameText s = true) {c : Char}
    (hc : isPart c = false) : c ∉ s := by
  intro h
  rw [isPart_of_mem hs h] at hc
  cases hc

end SchemaWalk.Name
