import SchemaWalk.Proofs.Json.ScalarText

/-! # The texts of JSON, without regard to how they are read -/
namespace SchemaWalk.Json

variable {α ν : Type}

def HexDigit (c : Char) (n : Nat) : Prop :=
  "0123456789abcdef".toList[n]? = some c ∨ "0123456789ABCDEF".toList[n]? = some c

inductive HexQuad : List Char → Nat → Prop
  | digits {a b c d : Char} {i j k l : Nat} (ha : HexDigit a i) (hb : HexDigit b j)
      (hc : HexDigit c k) (hd : HexDigit d l) :
      HexQuad [a, b, c, d] (((i * 16 + j) * 16 + k) * 16 + l)

def shortEscapes : List (Char × Char) :=
  [('"', '"'), ('\\', '\\'), ('/', '/'), ('b', '\x08'), ('f', '\x0c'), ('n', '\n'), ('r', '\r'),
    ('t', '\t')]

/-- The ways to write a character inside of a string. -/
inductive CharacterText (c : Char) : List Char → Prop
  | plain (hquote : c ≠ '"') (hslash : c ≠ '\\') (hcontrol : 0x20 ≤ c.toNat) : CharacterText c [c]
  | short {letter : Char} (h : (letter, c) ∈ shortEscapes) : CharacterText c ['\\', letter]
  | unicode {quad : List Char} (h : HexQuad quad c.toNat) : CharacterText c ('\\' :: 'u' :: quad)
  | surrogates {high low : List Char} {m n : Nat} (hhigh : HexQuad high m) (hlow : HexQuad low n)
      (hm : 0xD800 ≤ m ∧ m ≤ 0xDBFF) (hn : 0xDC00 ≤ n ∧ n ≤ 0xDFFF)
      (hc : c.toNat = 0x10000 + (m - 0xD800) * 0x400 + (n - 0xDC00)) :
      CharacterText c ('\\' :: 'u' :: high ++ '\\' :: 'u' :: low)

inductive CharactersText : List Char → List Char → Prop
  | nil : CharactersText [] []
  | cons {c : Char} {cs t ts : List Char} (h : CharacterText c t) (hs : CharactersText cs ts) :
      CharactersText (c :: cs) (t ++ ts)

inductive StringText (s : String) : List Char → Prop
  | quoted {t : List Char} (h : CharactersText s.toList t) : StringText s ('"' :: t ++ ['"'])

/-- What may stand between quotes by its form alone: a surrogate needs no partner here. -/
inductive Quotable : List Char → Prop
  | nil : Quotable []
  | plain {c : Char} {t : List Char} (hquote : c ≠ '"') (hslash : c ≠ '\\')
      (hcontrol : 0x20 ≤ c.toNat) (ht : Quotable t) : Quotable (c :: t)
  | short {letter c : Char} {t : List Char} (h : (letter, c) ∈ shortEscapes) (ht : Quotable t) :
      Quotable ('\\' :: letter :: t)
  | unicode {quad t : List Char} {n : Nat} (h : HexQuad quad n) (ht : Quotable t) :
      Quotable ('\\' :: 'u' :: quad ++ t)

inductive QuotedText (s : List Char) : List Char → Prop
  | quoted (h : Quotable s) : QuotedText s ('"' :: s ++ ['"'])

def Digits (s : List Char) : Prop := s ≠ [] ∧ ∀ c ∈ s, c.isDigit = true

/-- A zero stands alone. -/
inductive WholeText : List Char → Prop
  | zero : WholeText ['0']
  | digits {c : Char} {s : List Char} (hc : c ≠ '0') (h : Digits (c :: s)) : WholeText (c :: s)

inductive FractionText : List Char → Prop
  | none : FractionText []
  | digits {s : List Char} (h : Digits s) : FractionText ('.' :: s)

inductive ExponentText : List Char → Prop
  | none : ExponentText []
  | digits {e : Char} {sign s : List Char} (he : e = 'e' ∨ e = 'E')
      (hsign : sign = [] ∨ sign = ['+'] ∨ sign = ['-']) (h : Digits s) :
      ExponentText (e :: sign ++ s)

inductive NumberText : List Char → Prop
  | parts {sign whole fraction exponent : List Char} (hsign : sign = [] ∨ sign = ['-'])
      (hwhole : WholeText whole) (hfraction : FractionText fraction)
      (hexponent : ExponentText exponent) : NumberText (sign ++ (whole ++ (fraction ++ exponent)))

/-- Texts of the given things, with commas between them and blanks around each. -/
inductive Separated (part : α → List Char → Prop) : List α → List Char → Prop
  | one {x : α} {t before after : List Char} (ht : part x t) (hbefore : Gap before)
      (hafter : Gap after) : Separated part [x] (before ++ t ++ after)
  | cons {x : α} {xs : List α} {t ts before after : List Char} (ht : part x t)
      (hbefore : Gap before) (hafter : Gap after) (hts : Separated part xs ts) :
      Separated part (x :: xs) (before ++ t ++ after ++ ',' :: ts)

/-- The same between brackets, where there may also be none. -/
inductive Bracketed (opening closing : Char) (part : α → List Char → Prop) :
    List α → List Char → Prop
  | empty {gap : List Char} (hgap : Gap gap) :
      Bracketed opening closing part [] (opening :: gap ++ [closing])
  | parts {xs : List α} {ts : List Char} (h : Separated part xs ts) :
      Bracketed opening closing part xs (opening :: ts ++ [closing])

abbrev ListText (part : α → List Char → Prop) : List α → List Char → Prop := Bracketed '[' ']' part

inductive EntryText (nameText : ν → List Char → Prop) : ν × List Char → List Char → Prop
  | entry {name : ν} {t value before after : List Char} (ht : nameText name t)
      (hbefore : Gap before) (hafter : Gap after) :
      EntryText nameText (name, value) (t ++ before ++ ':' :: after ++ value)

abbrev ObjectText (nameText : ν → List Char → Prop) : List (ν × List Char) → List Char → Prop :=
  Bracketed '\x7b' '\x7d' (EntryText nameText)

def markText (b : Bool) : List Char := (if b then "true" else "false").toList

inductive ValueText : List Char → Prop
  | null : ValueText "null".toList
  | boolean (b : Bool) : ValueText (markText b)
  | number {t : List Char} (h : NumberText t) : ValueText t
  | string {s t : List Char} (h : QuotedText s t) : ValueText t
  | list {items : List (List Char)} {t : List Char} (hitems : ∀ v ∈ items, ValueText v)
      (h : ListText Eq items t) : ValueText t
  | object {entries : List (List Char × List Char)} {t : List Char}
      (hvalues : ∀ e ∈ entries, ValueText e.2) (h : ObjectText QuotedText entries t) : ValueText t

/-! ## Records -/

inductive OptionText : Option (List Char → Prop) → List Char → Prop
  | null : OptionText none "null".toList
  | some {texts : List Char → Prop} {t : List Char} (h : texts t) : OptionText (some texts) t

inductive ListOrNullText (textOf : α → List Char → Prop) : List α → List Char → Prop
  | null : ListOrNullText textOf [] "null".toList
  | list {xs : List α} {t : List Char} (h : ListText textOf xs t) : ListOrNullText textOf xs t

/-- A part of a record: the name of its member, the texts of its value, and when
it may be left out. -/
structure Part where
  name : String
  texts : List Char → Prop
  mayOmit : Prop

namespace Part

def required (name : String) (texts : List Char → Prop) : Part := ⟨name, texts, False⟩

def maybe (name : String) (texts : Option (List Char → Prop)) : Part :=
  ⟨name, OptionText texts, texts = none⟩

def many (name : String) (textOf : α → List Char → Prop) (xs : List α) : Part :=
  ⟨name, ListOrNullText textOf xs, xs = []⟩

def mark (name : String) (b : Bool) : Part := ⟨name, (· = markText b), b = false⟩

end Part

/-- Entries that tell every part once, or not at all if it may be left out.
There may be any others. -/
structure Tells (parts : List Part) (entries : List (String × List Char)) : Prop where
  told : ∀ p ∈ parts, ∀ e ∈ entries, e.1 = p.name → p.texts e.2
  once : ∀ p ∈ parts, (entries.map (·.1)).count p.name ≤ 1
  omitted : ∀ p ∈ parts, p.name ∉ entries.map (·.1) → p.mayOmit
  others : ∀ e ∈ entries, (∀ p ∈ parts, p.name ≠ e.1) → ValueText e.2

inductive RecordText (parts : List Part) : List Char → Prop
  | object {entries : List (String × List Char)} {t : List Char} (h : Tells parts entries)
      (ht : ObjectText StringText entries t) : RecordText parts t

/-! ## First characters and lengths -/

/-- The first character of a string, a list or an object. -/
def Opening (t : List Char) : Prop := ∃ c s, t = c :: s ∧ (c = '"' ∨ c = '[' ∨ c = '\x7b')

theorem StringText.opening {s : String} {t : List Char} (h : StringText s t) : Opening t := by
  obtain ⟨h⟩ := h
  exact ⟨_, _, rfl, .inl rfl⟩

theorem Bracketed.eq_cons {opening closing : Char} {part : α → List Char → Prop} {xs : List α}
    {t : List Char} (h : Bracketed opening closing part xs t) : ∃ s, t = opening :: s := by
  cases h with
  | empty => exact ⟨_, rfl⟩
  | parts => exact ⟨_, rfl⟩

theorem listText_opening {part : α → List Char → Prop} {xs : List α} {t : List Char}
    (h : ListText part xs t) : Opening t := by
  obtain ⟨s, rfl⟩ := h.eq_cons
  exact ⟨_, s, rfl, .inr (.inl rfl)⟩

theorem objectText_opening {nameText : ν → List Char → Prop} {entries : List (ν × List Char)}
    {t : List Char} (h : ObjectText nameText entries t) : Opening t := by
  obtain ⟨s, rfl⟩ := h.eq_cons
  exact ⟨_, s, rfl, .inr (.inr rfl)⟩

theorem RecordText.opening {parts : List Part} {t : List Char} (h : RecordText parts t) :
    Opening t := by
  obtain ⟨-, ht⟩ := h
  exact objectText_opening ht

theorem Separated.length_le {part : α → List Char → Prop} {xs : List α} {ts : List Char}
    (h : Separated part xs ts) (hpart : ∀ x t, part x t → t ≠ []) : xs.length ≤ ts.length := by
  induction h with
  | one ht =>
    have := List.length_pos_iff.2 (hpart _ _ ht)
    simp only [List.length_singleton, List.length_append]
    omega
  | cons ht _ _ _ ih =>
    simp only [List.length_cons, List.length_append]
    omega

end SchemaWalk.Json
