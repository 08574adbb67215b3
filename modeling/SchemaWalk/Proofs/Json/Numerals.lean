import SchemaWalk.Proofs.Json.Grammar

/-! # The texts of a numeral, and how each of them is read -/
namespace SchemaWalk.Json

open Text

inductive FractionOf : Option (List Nat) → List Char → Prop
  | none : FractionOf none []
  | digits {s : List Char} (h : Digits s) : FractionOf (some (digitValues s)) ('.' :: s)

inductive ExponentOf : Option (Bool × List Nat) → List Char → Prop
  | none : ExponentOf none []
  | digits {e : Char} {negative : Bool} {sign s : List Char} (he : e = 'e' ∨ e = 'E')
      (hsign : negative = false ∧ (sign = [] ∨ sign = ['+']) ∨ negative = true ∧ sign = ['-'])
      (h : Digits s) : ExponentOf (some (negative, digitValues s)) (e :: sign ++ s)

/-- A numeral with one of its texts: the exponent may be marked by either letter, and a plus may
stand before its digits. -/
inductive Numeral.Spelled : Numeral → List Char → Prop
  | parts {negative : Bool} {fraction : Option (List Nat)} {exponent : Option (Bool × List Nat)}
      {w f e : List Char} (hwhole : WholeText w) (hfraction : FractionOf fraction f)
      (hexponent : ExponentOf exponent e) :
      Spelled ⟨negative, digitValues w, fraction, exponent⟩
        ((if negative then ['-'] else []) ++ (w ++ (f ++ e)))

/-! ## What is spelled is a number of the grammar -/

theorem FractionOf.fractionText {fraction : Option (List Nat)} {t : List Char}
    (h : FractionOf fraction t) : FractionText t := by
  cases h with
  | none => exact .none
  | digits h => exact .digits h

theorem ExponentOf.exponentText {exponent : Option (Bool × List Nat)} {t : List Char}
    (h : ExponentOf exponent t) : ExponentText t := by
  cases h with
  | none => exact .none
  | digits he hsign h =>
    exact .digits he (by rcases hsign with ⟨-, rfl | rfl⟩ | ⟨-, rfl⟩ <;> simp) h

theorem FractionText.exists_fractionOf {t : List Char} (h : FractionText t) :
    ∃ fraction, FractionOf fraction t := by
  cases h with
  | none => exact ⟨_, .none⟩
  | digits h => exact ⟨_, .digits h⟩

theorem ExponentText.exists_exponentOf {t : List Char} (h : ExponentText t) :
    ∃ exponent, ExponentOf exponent t := by
  cases h with
  | none => exact ⟨_, .none⟩
  | digits he hsign h =>
    rcases hsign with hsign | hsign | hsign
    · exact ⟨_, .digits he (.inl ⟨rfl, .inl hsign⟩) h⟩
    · exact ⟨_, .digits he (.inl ⟨rfl, .inr hsign⟩) h⟩
    · exact ⟨_, .digits he (.inr ⟨rfl, hsign⟩) h⟩

theorem numberText_iff {t : List Char} : NumberText t ↔ ∃ n : Numeral, n.Spelled t := by
  constructor
  · rintro @⟨sign, w, f, e, hsign, hwhole, hfraction, hexponent⟩
    obtain ⟨fraction, hfraction⟩ := hfraction.exists_fractionOf
    obtain ⟨exponent, hexponent⟩ := hexponent.exists_exponentOf
    rcases hsign with rfl | rfl
    · exact ⟨⟨false, _, fraction, exponent⟩, .parts hwhole hfraction hexponent⟩
    · exact ⟨⟨true, _, fraction, exponent⟩, .parts hwhole hfraction hexponent⟩
  · rintro ⟨n, @⟨negative, _, _, _, _, _, hwhole, hfraction, hexponent⟩⟩
    exact .parts (by cases negative <;> simp) hwhole hfraction.fractionText hexponent.exponentText

/-! ## Reading -/

theorem Digits.eq_cons {t : List Char} (h : Digits t) :
    ∃ b u, encode t = b :: u ∧ isDigit b = true := by
  obtain ⟨c, cs, rfl⟩ := List.exists_cons_of_ne_nil h.1
  obtain ⟨b, hb, hd, -⟩ := encode_digit (h.2 c List.mem_cons_self)
  rw [encode_cons, encode_nil, List.append_nil] at hb
  exact ⟨b, encode cs, by rw [encode_cons, hb]; rfl, hd⟩

theorem WholeText.eq_cons {t : List Char} (h : WholeText t) :
    ∃ b u, encode t = b :: u ∧ isDigit b = true := by
  cases h with
  | zero => exact ⟨0x30, [], rfl, rfl⟩
  | digits _ h => exact h.eq_cons

theorem WholeText.read {t : List Char} (h : WholeText t) {s : Bytes}
    (hs : ∀ b ∈ s.head?, isDigit b = false) :
    wholePart (encode t ++ s) = .ok (digitValues t, s) := by
  cases h with
  | zero => exact wholePart_zero hs
  | digits hc h => exact wholePart_digits hc h.2 hs

theorem FractionOf.read {fraction : Option (List Nat)} {t : List Char} (h : FractionOf fraction t)
    {s : Bytes} (hs : ∀ b ∈ s.head?, isDigit b = false ∧ b ≠ 0x2E) :
    fractionPart (encode t ++ s) = .ok (fraction, s) := by
  cases h with
  | none =>
    cases s with
    | nil => rfl
    | cons b s => simp [fractionPart, (hs b (by simp)).2]
  | @digits t h =>
    have hdigits := digits_encode t h.2 fun b hb => (hs b hb).1
    obtain ⟨c, cs, rfl⟩ := List.exists_cons_of_ne_nil h.1
    rw [encode_cons, show String.utf8EncodeChar '.' = [0x2E] from rfl, List.singleton_append,
      List.cons_append, fractionPart, if_pos rfl, hdigits]
    rfl

theorem exponentSign_encode {negative : Bool} {sign : List Char}
    (hsign : negative = false ∧ (sign = [] ∨ sign = ['+']) ∨ negative = true ∧ sign = ['-'])
    {b : UInt8} (hb : isDigit b = true) (s : Bytes) :
    exponentSign (encode sign ++ b :: s) = (negative, b :: s) := by
  rcases hsign with ⟨rfl, rfl | rfl⟩ | ⟨rfl, rfl⟩
  · have hplus : b ≠ 0x2B := by rintro rfl; exact absurd hb (by decide)
    have hminus : b ≠ 0x2D := by rintro rfl; exact absurd hb (by decide)
    simp [exponentSign, hplus, hminus]
  · rfl
  · rfl

theorem ExponentOf.read {exponent : Option (Bool × List Nat)} {t : List Char}
    (h : ExponentOf exponent t) {s : Bytes} (hs : Stops s) :
    exponentPart (encode t ++ s) = .ok (exponent, s) := by
  cases h with
  | none =>
    cases s with
    | nil => rfl
    | cons b s => simp [exponentPart, (hs b (by simp)).2.2]
  | @digits e negative sign t he hsign h =>
    have hdigits := digits_encode t h.2 fun b hb => (hs b hb).1
    obtain ⟨b, u, hu, hb⟩ := h.eq_cons
    have hnegative := exponentSign_encode hsign hb (u ++ s)
    rw [hu, List.cons_append] at hdigits
    have hmark : ∃ d, String.utf8EncodeChar e = [d] ∧ (d = 0x65 || d = 0x45) = true := by
      rcases he with rfl | rfl <;> exact ⟨_, rfl, rfl⟩
    obtain ⟨d, hd, hmark⟩ := hmark
    rw [List.cons_append, encode_cons, encode_append, hd, hu, List.singleton_append,
      List.cons_append, List.append_assoc, List.cons_append, exponentPart, if_pos hmark, hnegative]
    simp only [hb, if_true, hdigits]

theorem ExponentText.head {t : List Char} (h : ExponentText t) {s : Bytes} (hs : Stops s) :
    ∀ b ∈ (encode t ++ s).head?, isDigit b = false ∧ b ≠ 0x2E := by
  cases h with
  | none => exact fun b hb => ⟨(hs b hb).1, (hs b hb).2.1⟩
  | digits he => rcases he with rfl | rfl <;> · rintro b ⟨⟩; decide

theorem FractionText.head {t : List Char} (h : FractionText t) {s : Bytes}
    (hs : ∀ b ∈ s.head?, isDigit b = false) : ∀ b ∈ (encode t ++ s).head?, isDigit b = false := by
  cases h with
  | none => exact hs
  | digits => rintro b ⟨⟩; decide

theorem Numeral.Spelled.read {n : Numeral} {t : List Char} (h : n.Spelled t) {s : Bytes}
    (hs : Stops s) : numeral (encode t ++ s) = .ok (n, s) := by
  obtain @⟨negative, fraction, exponent, w, f, e, hwhole, hfraction, hexponent⟩ := h
  have hpoint := hexponent.exponentText.head hs
  have he := hexponent.read hs
  have hf := hfraction.read hpoint
  have hw := hwhole.read (hfraction.fractionText.head fun b hb => (hpoint b hb).1)
  simp only [encode_append, List.append_assoc]
  cases negative with
  | false =>
    obtain ⟨b, u, hu, hb⟩ := hwhole.eq_cons
    have hminus : b ≠ 0x2D := by rintro rfl; exact absurd hb (by decide)
    rw [hu, List.cons_append] at hw
    rw [hu]
    simp [numeral, hminus, bind, Except.bind, hw, hf, he]
  | true =>
    rw [if_pos rfl, show encode ['-'] = [0x2D] from rfl, List.singleton_append]
    simp [numeral, bind, Except.bind, hw, hf, he]

theorem NumberText.read {t : List Char} (h : NumberText t) {s : Bytes} (hs : Stops s) :
    ∃ n, numeral (encode t ++ s) = .ok (n, s) := by
  obtain ⟨n, h⟩ := numberText_iff.1 h
  exact ⟨n, h.read hs⟩

theorem NumberText.eq_cons {t : List Char} (h : NumberText t) :
    ∃ b u, encode t = b :: u ∧ (b = 0x2D ∨ isDigit b = true) := by
  obtain @⟨sign, whole, fraction, exponent, hsign, hwhole, -, -⟩ := h
  rcases hsign with rfl | rfl
  · obtain ⟨b, u, hu, hb⟩ := hwhole.eq_cons
    exact ⟨b, _, by rw [List.nil_append, encode_append, hu]; rfl, .inr hb⟩
  · exact ⟨0x2D, _, rfl, .inl rfl⟩

end SchemaWalk.Json
