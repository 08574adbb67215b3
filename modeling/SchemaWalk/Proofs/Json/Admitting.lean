import SchemaWalk.Proofs.Json.Returning
import SchemaWalk.Proofs.Json.Skipping

/-! # What readers take off the front of a text: only what the grammar knows -/
namespace SchemaWalk.Json

open Text

variable {α β σ : Type} {limit : Nat}

/-- What the reader takes off the front of a text has the form that belongs to its result. -/
def Admits (reader : Reader α) (form : α → List Char → Prop) : Prop :=
  ∀ ⦃t a s⦄, reader (encode t) = .ok (a, s) → ∃ u v, t = u ++ v ∧ s = encode v ∧ form a u

theorem Admits.mapped {reader : Reader α} {form : α → List Char → Prop}
    (hreader : Admits reader form) {f : α → β} {t : List Char} {b : β} {s : Bytes}
    (h : (reader (encode t) >>= fun x => .ok (f x.1, x.2)) = .ok (b, s)) :
    ∃ a u v, t = u ++ v ∧ s = encode v ∧ b = f a ∧ form a u := by
  obtain ⟨⟨a, r⟩, ha, hb⟩ := exists_ok_of_bind h
  cases hb
  obtain ⟨u, v, ht, hs, hu⟩ := hreader ha
  exact ⟨a, u, v, ht, hs, rfl, hu⟩

theorem eq_cons_of_encode {c : Char} {t : List Char} {s : Bytes}
    (h : encode t = String.utf8EncodeChar c ++ s) : ∃ v, t = c :: v ∧ s = encode v := by
  have hdecode := decodeChar_utf8EncodeChar c s
  rw [← h] at hdecode
  cases t with
  | nil => cases hdecode
  | cons d v =>
    rw [encode_cons, decodeChar_utf8EncodeChar] at hdecode
    cases hdecode
    exact ⟨v, rfl, rfl⟩

theorem eq_cons_of_byte {c : Char} {b : UInt8} (hc : String.utf8EncodeChar c = [b]) {t : List Char}
    {s : Bytes} (h : encode t = b :: s) : ∃ v, t = c :: v ∧ s = encode v := by
  apply eq_cons_of_encode
  rw [hc, h]
  rfl

/-! ## Blanks and words -/

theorem exists_gap (t : List Char) :
    ∃ gap v, t = gap ++ v ∧ Gap gap ∧ skipBlanks (encode t) = encode v := by
  induction t with
  | nil => exact ⟨[], [], rfl, gap_nil, rfl⟩
  | cons c t ih =>
    obtain ⟨b, s, he, -⟩ := head_utf8EncodeChar c
    have hbytes : encode (c :: t) = b :: (s ++ encode t) := by
      rw [encode_cons, he, List.cons_append]
    cases hb : isBlank b with
    | false =>
      exact ⟨[], c :: t, rfl, gap_nil,
        by rw [hbytes, skipBlanks, List.dropWhile_cons_of_neg (by simp [hb])]⟩
    | true =>
      have hc : c = ' ' ∨ c = '\n' ∨ c = '\t' ∨ c = '\r' := by
        simp only [isBlank, Bool.or_eq_true, decide_eq_true_eq] at hb
        rcases hb with ((rfl | rfl) | rfl) | rfl
        · obtain ⟨v, hv, -⟩ := eq_cons_of_byte (c := ' ') rfl hbytes
          exact .inl (List.cons.inj hv).1
        · obtain ⟨v, hv, -⟩ := eq_cons_of_byte (c := '\n') rfl hbytes
          exact .inr (.inl (List.cons.inj hv).1)
        · obtain ⟨v, hv, -⟩ := eq_cons_of_byte (c := '\t') rfl hbytes
          exact .inr (.inr (.inl (List.cons.inj hv).1))
        · obtain ⟨v, hv, -⟩ := eq_cons_of_byte (c := '\r') rfl hbytes
          exact .inr (.inr (.inr (List.cons.inj hv).1))
      obtain ⟨gap, v, rfl, hgap, hskip⟩ := ih
      have hgap' : Gap (c :: gap) := List.forall_mem_cons.2 ⟨hc, hgap⟩
      refine ⟨c :: gap, v, rfl, hgap', ?_⟩
      rw [← List.cons_append, encode_append, hgap'.skipBlanks, ← hgap.skipBlanks, ← encode_append,
        hskip]

theorem admits_word {w : List Char}
    (hw : w.all (fun c => (String.utf8EncodeChar c).length == 1) = true) :
    Admits (word (encode w)) fun _ u => u = w := by
  induction w with
  | nil =>
    rintro t a s ⟨⟩
    exact ⟨[], t, rfl, rfl, rfl⟩
  | cons c w ih =>
    intro t a s h
    rw [List.all_cons, Bool.and_eq_true, beq_iff_eq] at hw
    obtain ⟨hc, hw⟩ := hw
    obtain ⟨b, hb⟩ := List.length_eq_one_iff.1 hc
    rw [encode_cons, hb, List.singleton_append] at h
    cases he : encode t with
    | nil => rw [he] at h; cases h
    | cons d rest =>
      rw [he, word] at h
      by_cases hbd : b = d
      · subst hbd
        obtain ⟨v, rfl, rfl⟩ := eq_cons_of_byte hb he
        rw [if_pos rfl] at h
        obtain ⟨u, v', rfl, hs, rfl⟩ := ih hw h
        exact ⟨c :: u, v', rfl, hs, rfl⟩
      · rw [if_neg hbd] at h
        cases h

theorem admits_restOfNull : Admits restOfNull fun _ u => u = "ull".toList :=
  admits_word (w := "ull".toList) (by decide)

theorem admits_restOfTrue : Admits restOfTrue fun _ u => u = "rue".toList :=
  admits_word (w := "rue".toList) (by decide)

theorem admits_restOfFalse : Admits restOfFalse fun _ u => u = "alse".toList :=
  admits_word (w := "alse".toList) (by decide)

/-! ## Numerals -/

theorem exists_digit {b : UInt8} (hb : isDigit b = true) :
    ∃ c : Char, String.utf8EncodeChar c = [b] ∧ c.isDigit = true := by
  have hall : ∀ n < 10, String.utf8EncodeChar (Char.ofNat (0x30 + n)) = [UInt8.ofNat (0x30 + n)] ∧
      (Char.ofNat (0x30 + n)).isDigit = true := by decide
  simp only [isDigit, Bool.and_eq_true, decide_eq_true_eq] at hb
  have h := hall (b.toNat - 0x30) (by omega)
  rw [show 0x30 + (b.toNat - 0x30) = b.toNat by omega, UInt8.ofNat_toNat] at h
  exact ⟨_, h⟩

theorem exists_digits (t : List Char) :
    ∃ u v, t = u ++ v ∧ (∀ c ∈ u, c.isDigit = true) ∧
      digits (encode t) = (digitValues u, encode v) := by
  have hsplit : ∃ u v, t = u ++ v ∧ (∀ c ∈ u, c.isDigit = true) ∧
      ∀ b ∈ (encode v).head?, isDigit b = false := by
    induction t with
    | nil => exact ⟨[], [], rfl, by simp, by simp⟩
    | cons c t ih =>
      obtain ⟨b, s, he, -⟩ := head_utf8EncodeChar c
      have hbytes : encode (c :: t) = b :: (s ++ encode t) := by
        rw [encode_cons, he, List.cons_append]
      cases hb : isDigit b with
      | false => exact ⟨[], c :: t, rfl, by simp, by simp [he, hb]⟩
      | true =>
        obtain ⟨d, hd, hdigit⟩ := exists_digit hb
        obtain ⟨_, hv, -⟩ := eq_cons_of_byte hd hbytes
        obtain rfl := (List.cons.inj hv).1
        obtain ⟨u, v, rfl, hu, hv⟩ := ih
        exact ⟨c :: u, v, rfl, List.forall_mem_cons.2 ⟨hdigit, hu⟩, hv⟩
  obtain ⟨u, v, rfl, hu, hv⟩ := hsplit
  exact ⟨u, v, rfl, hu, by rw [encode_append, digits_encode u hu hv]⟩

theorem exists_digits_cons {b : UInt8} {t : List Char} {s : Bytes} (he : encode t = b :: s)
    (hb : isDigit b = true) :
    ∃ c u v, t = c :: u ++ v ∧ String.utf8EncodeChar c = [b] ∧ Digits (c :: u) ∧
      digits (encode t) = (digitValues (c :: u), encode v) := by
  obtain ⟨c, hc, -⟩ := exists_digit hb
  obtain ⟨w, hw, -⟩ := eq_cons_of_byte hc he
  obtain ⟨u, v, rfl, hu, hdigits⟩ := exists_digits t
  cases u with
  | nil =>
    have hnone := congrArg (fun x => x.2.length) hdigits
    simp only [List.nil_append] at he hnone
    have hle := (s.dropWhile_sublist isDigit).length_le
    simp only [digits, he, List.dropWhile_cons_of_pos hb, List.length_cons] at hnone
    omega
  | cons d u =>
    obtain rfl := (List.cons.inj hw).1
    exact ⟨d, u, v, rfl, hc, ⟨by simp, hu⟩, hdigits⟩

theorem admits_wholePart : Admits wholePart fun ds u => WholeText u ∧ ds = digitValues u := by
  intro t ds s h
  cases he : encode t with
  | nil => rw [he] at h; cases h
  | cons b rest =>
    by_cases hzero : b = 0x30
    · subst hzero
      obtain ⟨v, rfl, rfl⟩ := eq_cons_of_byte (c := '0') rfl he
      have hread : ds = [0] ∧ s = encode v := by
        cases hv : encode v with
        | nil =>
          rw [he, hv] at h
          cases h
          exact ⟨rfl, rfl⟩
        | cons d rest =>
          cases hd : isDigit d with
          | false =>
            simp only [he, hv, wholePart, hd, if_true, Bool.false_eq_true, if_false] at h
            cases h
            exact ⟨rfl, rfl⟩
          | true =>
            simp only [he, hv, wholePart, hd, if_true] at h
            cases h
      obtain ⟨rfl, rfl⟩ := hread
      exact ⟨['0'], v, rfl, rfl, .zero, rfl⟩
    · cases hb : isDigit b with
      | false =>
        simp only [he, wholePart, if_neg hzero, hb, Bool.false_eq_true, if_false] at h
        cases h
      | true =>
        obtain ⟨c, u, v, rfl, hc, hu, hdigits⟩ := exists_digits_cons he hb
        simp only [he, wholePart, if_neg hzero, hb, if_true] at h
        rw [← he, hdigits] at h
        cases h
        refine ⟨c :: u, v, rfl, rfl, .digits ?_ hu, rfl⟩
        rintro rfl
        exact hzero (List.singleton_inj.1 hc.symm)

theorem admits_fractionPart : Admits fractionPart FractionOf := by
  intro t fraction s h
  cases he : encode t with
  | nil =>
    rw [he] at h
    cases h
    exact ⟨[], t, rfl, he.symm, .none⟩
  | cons b rest =>
    by_cases hpoint : b = 0x2E
    · subst hpoint
      obtain ⟨v, rfl, rfl⟩ := eq_cons_of_byte (c := '.') rfl he
      obtain ⟨u, w, rfl, hu, hdigits⟩ := exists_digits v
      simp only [he, fractionPart, if_true, hdigits] at h
      cases u with
      | nil =>
        cases hw : encode w with
        | nil => rw [hw] at h; cases h
        | cons => rw [hw] at h; cases h
      | cons c u =>
        cases h
        exact ⟨'.' :: c :: u, w, rfl, rfl, .digits ⟨by simp, hu⟩⟩
    · simp only [he, fractionPart, if_neg hpoint] at h
      cases h
      exact ⟨[], t, rfl, he.symm, .none⟩

theorem exists_sign (t : List Char) : ∃ negative sign v, t = sign ++ v ∧
    exponentSign (encode t) = (negative, encode v) ∧
    (negative = false ∧ (sign = [] ∨ sign = ['+']) ∨ negative = true ∧ sign = ['-']) := by
  cases he : encode t with
  | nil => exact ⟨false, [], t, rfl, by rw [he]; rfl, .inl ⟨rfl, .inl rfl⟩⟩
  | cons b rest =>
    by_cases hplus : b = 0x2B
    · subst hplus
      obtain ⟨v, rfl, rfl⟩ := eq_cons_of_byte (c := '+') rfl he
      exact ⟨false, ['+'], v, rfl, rfl, .inl ⟨rfl, .inr rfl⟩⟩
    · by_cases hminus : b = 0x2D
      · subst hminus
        obtain ⟨v, rfl, rfl⟩ := eq_cons_of_byte (c := '-') rfl he
        exact ⟨true, ['-'], v, rfl, rfl, .inr ⟨rfl, rfl⟩⟩
      · exact ⟨false, [], t, rfl, by rw [exponentSign, if_neg hplus, if_neg hminus, he],
          .inl ⟨rfl, .inl rfl⟩⟩

theorem admits_exponentPart : Admits exponentPart ExponentOf := by
  intro t exponent s h
  cases he : encode t with
  | nil =>
    rw [he] at h
    cases h
    exact ⟨[], t, rfl, he.symm, .none⟩
  | cons b rest =>
    cases hmark : b = 0x65 || b = 0x45 with
    | false =>
      simp only [he, exponentPart, hmark, Bool.false_eq_true, if_false] at h
      cases h
      exact ⟨[], t, rfl, he.symm, .none⟩
    | true =>
      have hletter : ∃ e, String.utf8EncodeChar e = [b] ∧ (e = 'e' ∨ e = 'E') := by
        simp only [Bool.or_eq_true, decide_eq_true_eq] at hmark
        rcases hmark with rfl | rfl
        · exact ⟨'e', rfl, .inl rfl⟩
        · exact ⟨'E', rfl, .inr rfl⟩
      obtain ⟨e, hbe, hletter⟩ := hletter
      obtain ⟨v, rfl, rfl⟩ := eq_cons_of_byte hbe he
      obtain ⟨negative, sign, w, rfl, hexponent, hsign⟩ := exists_sign v
      simp only [he, exponentPart, hmark, if_true, hexponent] at h
      cases hw : encode w with
      | nil => rw [hw] at h; cases h
      | cons d rest =>
        cases hd : isDigit d with
        | false =>
          simp only [hw, hd, Bool.false_eq_true, if_false] at h
          cases h
        | true =>
          obtain ⟨c, u, v, rfl, -, hu, hdigits⟩ := exists_digits_cons hw hd
          simp only [hw, hd, if_true] at h
          rw [← hw, hdigits] at h
          cases h
          exact ⟨e :: sign ++ (c :: u), v, by simp, rfl, .digits hletter hsign hu⟩

theorem admits_numeral : Admits numeral Numeral.Spelled := by
  intro t n s h
  have hparts : ∀ (negative : Bool) (v : List Char),
      (wholePart (encode v) >>= fun x => fractionPart x.2 >>= fun y => exponentPart y.2 >>= fun z =>
        .ok (⟨negative, x.1, y.1, z.1⟩, z.2)) = .ok (n, s) →
      ∃ u v', v = u ++ v' ∧ s = encode v' ∧ n.Spelled ((if negative then ['-'] else []) ++ u) := by
    intro negative v h
    obtain ⟨⟨ds, r⟩, hds, h⟩ := exists_ok_of_bind h
    obtain ⟨w, v, rfl, rfl, hw, rfl⟩ := admits_wholePart hds
    obtain ⟨⟨fraction, r⟩, hfraction, h⟩ := exists_ok_of_bind h
    obtain ⟨f, v, rfl, rfl, hf⟩ := admits_fractionPart hfraction
    obtain ⟨⟨exponent, r⟩, hexponent, h⟩ := exists_ok_of_bind h
    obtain ⟨e, v, rfl, rfl, he⟩ := admits_exponentPart hexponent
    cases h
    exact ⟨w ++ (f ++ e), v, by simp, rfl, .parts hw hf he⟩
  cases he : encode t with
  | nil => rw [he] at h; cases h
  | cons b rest =>
    by_cases hminus : b = 0x2D
    · subst hminus
      obtain ⟨v, rfl, rfl⟩ := eq_cons_of_byte (c := '-') rfl he
      obtain ⟨u, v', rfl, hs, hu⟩ := hparts true v h
      exact ⟨'-' :: u, v', rfl, hs, hu⟩
    · simp only [he, numeral, if_neg hminus] at h
      rw [← he] at h
      exact hparts false t h

/-! ## Strings -/

theorem exists_hexDigit {b : UInt8} {n : Nat} (h : hexValue b = some n) :
    ∃ c, String.utf8EncodeChar c = [b] ∧ HexDigit c n := by
  have hall : ∀ m < 0x100, ∀ d ∈ hexValue (UInt8.ofNat m),
      String.utf8EncodeChar (Char.ofNat m) = [UInt8.ofNat m] ∧
        ("0123456789abcdef".toList[d]? = some (Char.ofNat m) ∨
          "0123456789ABCDEF".toList[d]? = some (Char.ofNat m)) := by
    decide +kernel
  have hb := hall b.toNat b.toNat_lt n
  rw [UInt8.ofNat_toNat] at hb
  exact ⟨_, hb h⟩

theorem admits_hexQuad : Admits hexQuad fun n u => HexQuad u n := by
  intro t n s h
  rcases he : encode t with _ | ⟨a, _ | ⟨b, _ | ⟨c, _ | ⟨d, r⟩⟩⟩⟩
  iterate 4 rw [he] at h; cases h
  rw [he, hexQuad] at h
  cases ha : hexValue a with
  | none => simp only [ha] at h; cases h
  | some i =>
  cases hb : hexValue b with
  | none => simp only [ha, hb] at h; cases h
  | some j =>
  cases hc : hexValue c with
  | none => simp only [ha, hb, hc] at h; cases h
  | some k =>
  cases hd : hexValue d with
  | none => simp only [ha, hb, hc, hd] at h; cases h
  | some l =>
  simp only [ha, hb, hc, hd] at h
  cases h
  obtain ⟨a', ha', hi⟩ := exists_hexDigit ha
  obtain ⟨b', hb', hj⟩ := exists_hexDigit hb
  obtain ⟨c', hc', hk⟩ := exists_hexDigit hc
  obtain ⟨d', hd', hl⟩ := exists_hexDigit hd
  obtain ⟨t, rfl, h₁⟩ := eq_cons_of_byte ha' he
  obtain ⟨t, rfl, h₂⟩ := eq_cons_of_byte hb' h₁.symm
  obtain ⟨t, rfl, h₃⟩ := eq_cons_of_byte hc' h₂.symm
  obtain ⟨t, rfl, rfl⟩ := eq_cons_of_byte hd' h₃.symm
  exact ⟨[a', b', c', d'], t, rfl, rfl, .digits hi hj hk hl⟩

theorem admits_lowHalf :
    Admits lowHalf fun n u => ∃ quad, HexQuad quad n ∧ u = '\\' :: 'u' :: quad := by
  intro t n s h
  rcases he : encode t with _ | ⟨b, _ | ⟨c, r⟩⟩
  · rw [he] at h
    cases h
  · rw [he, lowHalf] at h
    split at h <;> cases h
  · rw [he] at h
    by_cases hb : b = 0x5C
    · by_cases hc : c = 0x75
      · subst hb hc
        obtain ⟨t, rfl, h₁⟩ := eq_cons_of_byte utf8EncodeChar_slash he
        obtain ⟨t, rfl, rfl⟩ := eq_cons_of_byte utf8EncodeChar_u h₁.symm
        obtain ⟨⟨m, r⟩, hm, h⟩ := exists_ok_of_bind h
        obtain ⟨quad, v, rfl, rfl, hquad⟩ := admits_hexQuad hm
        cases hlow : isLowSurrogate m with
        | false => simp only [hlow, Bool.false_eq_true, if_false] at h; cases h
        | true =>
          simp only [hlow, if_true] at h
          cases h
          exact ⟨'\\' :: 'u' :: quad, v, rfl, rfl, quad, hquad, rfl⟩
      · simp only [lowHalf, hb, ne_eq, not_true_eq_false, if_false, hc, not_false_eq_true, if_true]
          at h
        cases h
    · simp only [lowHalf, ne_eq, hb, not_false_eq_true, if_true] at h
      cases h

theorem admits_unicodeEscape :
    Admits unicodeEscape fun _ u => ∀ w, Quotable w → Quotable ('\\' :: 'u' :: u ++ w) := by
  intro t c s h
  obtain ⟨⟨n, r⟩, hn, h⟩ := exists_ok_of_bind h
  obtain ⟨quad, v, rfl, rfl, hquad⟩ := admits_hexQuad hn
  cases hlow : isLowSurrogate n with
  | true => simp only [hlow, if_true] at h; cases h
  | false =>
    cases hhigh : isHighSurrogate n with
    | false =>
      simp only [hlow, hhigh, Bool.false_eq_true, if_false] at h
      cases h
      exact ⟨quad, v, rfl, rfl, fun w hw => .unicode hquad hw⟩
    | true =>
      simp only [hlow, hhigh, Bool.false_eq_true, if_false, if_true] at h
      obtain ⟨⟨m, r⟩, hm, hc⟩ := exists_ok_of_bind h
      obtain rfl : r = s := (Prod.mk.inj (Except.ok.inj hc)).2
      obtain ⟨u, v, rfl, rfl, low, hlow, rfl⟩ := admits_lowHalf hm
      refine ⟨quad ++ '\\' :: 'u' :: low, v, by rw [List.append_assoc], rfl, fun w hw => ?_⟩
      have hpair := Quotable.unicode hquad (.unicode hlow hw)
      simpa using hpair

theorem exists_letter {b : UInt8} {c : Char} (h : shortEscape b = some c) :
    ∃ letter, String.utf8EncodeChar letter = [b] ∧ (letter, c) ∈ shortEscapes := by
  have hall : ∀ m < 0x100, (shortEscape (UInt8.ofNat m)).all (fun d =>
      String.utf8EncodeChar (Char.ofNat m) = [UInt8.ofNat m] ∧
        (Char.ofNat m, d) ∈ shortEscapes) = true := by
    decide +kernel
  have hb := hall b.toNat b.toNat_lt
  rw [UInt8.ofNat_toNat, h, Option.all_some, decide_eq_true_eq] at hb
  exact ⟨_, hb⟩

theorem admits_escape : Admits escape fun _ u => ∀ w, Quotable w → Quotable ('\\' :: u ++ w) := by
  intro t c s h
  cases he : encode t with
  | nil => rw [he] at h; cases h
  | cons b r =>
    cases hb : shortEscape b with
    | some d =>
      simp only [he, escape, hb] at h
      cases h
      obtain ⟨letter, hletter, hmem⟩ := exists_letter hb
      obtain ⟨v, rfl, rfl⟩ := eq_cons_of_byte hletter he
      exact ⟨[letter], v, rfl, rfl, fun w hw => .short hmem hw⟩
    | none =>
      simp only [he, escape, hb] at h
      by_cases hu : b = 0x75
      · subst hu
        obtain ⟨v, rfl, rfl⟩ := eq_cons_of_byte utf8EncodeChar_u he
        rw [if_pos rfl] at h
        obtain ⟨u, v, rfl, rfl, hu⟩ := admits_unicodeEscape h
        exact ⟨'u' :: u, v, rfl, rfl, hu⟩
      · rw [if_neg hu] at h
        cases h

theorem stringRest_control {c : Char} (hc : c.toNat < 0x20) (steps : Nat) (before : List Char)
    (s : Bytes) :
    stringRest (steps + 1) none before (encode [c] ++ s) = refuse .controlCharacter s := by
  have hall : ∀ n < 0x20, String.utf8EncodeChar (Char.ofNat n) = [UInt8.ofNat n] ∧
      UInt8.ofNat n ≠ 0x22 ∧ UInt8.ofNat n ≠ 0x5C ∧ UInt8.ofNat n < 0x20 := by decide
  have h := hall c.toNat hc
  rw [Char.ofNat_toNat] at h
  obtain ⟨hbyte, hquote, hslash, hcontrol⟩ := h
  rw [encode_cons, encode_nil, hbyte, List.append_nil, List.singleton_append, stringRest,
    if_neg hquote, if_neg hslash, if_pos hcontrol]

/-- By induction on the steps: each takes a character, or an escape for one. -/
theorem admits_stringRest (steps : Nat) (before : List Char) :
    Admits (stringRest steps none before) fun _ u => ∃ q, Quotable q ∧ u = q ++ ['"'] := by
  induction steps generalizing before with
  | zero =>
    intro t a s h
    cases h
  | succ steps ih =>
    intro t a s h
    cases t with
    | nil => cases h
    | cons c t =>
      by_cases hquote : c = '"'
      · subst hquote
        cases h
        exact ⟨['"'], t, rfl, rfl, [], .nil, rfl⟩
      by_cases hslash : c = '\\'
      · subst hslash
        obtain ⟨⟨d, r⟩, hd, h⟩ := exists_ok_of_bind h
        obtain ⟨u, v, rfl, rfl, hu⟩ := admits_escape hd
        obtain ⟨_, v, rfl, rfl, q, hq, rfl⟩ := ih (d :: before) h
        exact ⟨'\\' :: u ++ q ++ ['"'], v, by simp, rfl, _, hu q hq, rfl⟩
      rw [← List.singleton_append, encode_append] at h
      by_cases hcontrol : c.toNat < 0x20
      · rw [stringRest_control hcontrol] at h
        cases h
      · rw [stringRest_plain hquote hslash (by omega)] at h
        obtain ⟨_, v, rfl, rfl, q, hq, rfl⟩ := ih (c :: before) h
        exact ⟨c :: q ++ ['"'], v, rfl, rfl, _, .plain hquote hslash (by omega) hq, rfl⟩

end SchemaWalk.Json
