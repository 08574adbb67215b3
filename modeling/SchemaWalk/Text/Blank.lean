/-! # Blank characters of text and their removal from both ends -/
namespace SchemaWalk.Text

/-- A blank has the Unicode property White_Space: 25 code points, none of them a zero-width one. -/
def isBlank (c : Char) : Bool :=
  let n := c.toNat
  (9 ≤ n && n ≤ 13) || n == 0x20 || n == 0x85 || n == 0xA0 || n == 0x1680 ||
    (0x2000 ≤ n && n ≤ 0x200A) || n == 0x2028 || n == 0x2029 || n == 0x202F || n == 0x205F ||
    n == 0x3000

def dropBlanks (s : List Char) : List Char := s.dropWhile isBlank

/-- The text without the blanks at its two ends. -/
def trim (s : List Char) : List Char := (dropBlanks (dropBlanks s).reverse).reverse

def isBlankText (s : List Char) : Bool := s.all isBlank

theorem trim_eq_self {s : List Char} (h : ∀ c ∈ s.head?, isBlank c = false)
    (h' : ∀ c ∈ s.getLast?, isBlank c = false) : trim s = s := by
  have keep : ∀ t : List Char, (∀ c ∈ t.head?, isBlank c = false) → dropBlanks t = t := by
    intro t ht
    cases t with
    | nil => rfl
    | cons c t => simp [dropBlanks, ht c (by simp)]
  rw [trim, keep s h, keep s.reverse (by simpa using h'), List.reverse_reverse]

theorem trim_cons {c : Char} (hc : isBlank c = true) (s : List Char) : trim (c :: s) = trim s := by
  have hdrop : dropBlanks (c :: s) = dropBlanks s := List.dropWhile_cons_of_pos hc
  rw [trim, hdrop, trim]

theorem dropBlanks_eq_nil_iff {s : List Char} : dropBlanks s = [] ↔ isBlankText s = true := by
  induction s with
  | nil => simp [dropBlanks, isBlankText]
  | cons c s ih =>
    rw [dropBlanks, isBlankText] at ih ⊢
    cases hc : isBlank c with
    | true => simp [hc, ih]
    | false => simp [hc]

theorem isBlankText_dropBlanks (s : List Char) : isBlankText (dropBlanks s) = isBlankText s := by
  induction s with
  | nil => rfl
  | cons c s ih =>
    rw [dropBlanks, isBlankText, isBlankText] at ih ⊢
    cases hc : isBlank c with
    | true => simp [hc, ih]
    | false => simp [hc]

theorem trim_eq_nil_iff {s : List Char} : trim s = [] ↔ isBlankText s = true := by
  rw [trim, List.reverse_eq_nil_iff, dropBlanks_eq_nil_iff, ← isBlankText_dropBlanks s, isBlankText,
    isBlankText, List.all_reverse]

end SchemaWalk.Text
