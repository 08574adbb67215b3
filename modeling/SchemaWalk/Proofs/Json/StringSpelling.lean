import SchemaWalk.Json.Record
import SchemaWalk.Proofs.Json.Grammar

/-! # Reading strings in all of their spellings -/
namespace SchemaWalk.Json

open Text

theorem HexDigit.encode {c : Char} {n : Nat} (h : HexDigit c n) :
    ∃ b, String.utf8EncodeChar c = [b] ∧ hexValue b = some n := by
  have hall : ∀ digits ∈ ["0123456789abcdef".toList, "0123456789ABCDEF".toList],
      (digits.zipIdx.all fun d => String.utf8EncodeChar d.1 = [UInt8.ofNat d.1.toNat] &&
        hexValue (UInt8.ofNat d.1.toNat) = some d.2) = true := by
    decide
  have hmem : ∃ digits ∈ ["0123456789abcdef".toList, "0123456789ABCDEF".toList],
      (c, n) ∈ digits.zipIdx := by
    rcases h with h | h
    · exact ⟨_, by simp, List.mk_mem_zipIdx_iff_getElem?.2 h⟩
    · exact ⟨_, by simp, List.mk_mem_zipIdx_iff_getElem?.2 h⟩
  obtain ⟨digits, hdigits, hmem⟩ := hmem
  have hdigit := List.all_eq_true.1 (hall digits hdigits) (c, n) hmem
  simp only [Bool.and_eq_true, decide_eq_true_eq] at hdigit
  exact ⟨_, hdigit⟩

theorem HexQuad.read {t : List Char} {n : Nat} (h : HexQuad t n) (s : Bytes) :
    hexQuad (encode t ++ s) = .ok (n, s) := by
  cases h with
  | digits ha hb hc hd =>
    obtain ⟨a, ha, hi⟩ := ha.encode
    obtain ⟨b, hb, hj⟩ := hb.encode
    obtain ⟨c, hc, hk⟩ := hc.encode
    obtain ⟨d, hd, hl⟩ := hd.encode
    simp only [encode_cons, encode_nil, ha, hb, hc, hd, List.cons_append, List.nil_append, hexQuad,
      hi, hj, hk, hl]

theorem encode_short {letter c : Char} (h : (letter, c) ∈ shortEscapes) :
    ∃ b, String.utf8EncodeChar letter = [b] ∧ shortEscape b = some c := by
  have hall : ∀ e ∈ shortEscapes, String.utf8EncodeChar e.1 = [UInt8.ofNat e.1.toNat] ∧
      shortEscape (UInt8.ofNat e.1.toNat) = some e.2 := by decide
  exact ⟨_, hall _ h⟩

theorem utf8EncodeChar_u : String.utf8EncodeChar 'u' = [0x75] := rfl

theorem utf8EncodeChar_slash : String.utf8EncodeChar '\\' = [0x5C] := rfl

theorem utf8EncodeChar_quote : String.utf8EncodeChar '"' = [0x22] := rfl

theorem unicodeEscape_surrogates {c : Char} {high low : List Char} {m n : Nat}
    (hhigh : HexQuad high m) (hlow : HexQuad low n) (hm : 0xD800 ≤ m ∧ m ≤ 0xDBFF)
    (hn : 0xDC00 ≤ n ∧ n ≤ 0xDFFF) (hc : c.toNat = 0x10000 + (m - 0xD800) * 0x400 + (n - 0xDC00))
    (s : Bytes) : unicodeEscape (encode (high ++ '\\' :: 'u' :: low) ++ s) = .ok (c, s) := by
  have hm₁ : isLowSurrogate m = false := by simp [isLowSurrogate]; omega
  have hm₂ : isHighSurrogate m = true := by simp [isHighSurrogate]; omega
  have hn₁ : isLowSurrogate n = true := by simp [isLowSurrogate]; omega
  have hfirst := hhigh.read (encode ('\\' :: 'u' :: low) ++ s)
  have hhalf : lowHalf (encode ('\\' :: 'u' :: low) ++ s) = .ok (n, s) := by
    rw [encode_cons, encode_cons, utf8EncodeChar_slash, utf8EncodeChar_u]
    simp [lowHalf, hlow.read s, hn₁, bind, Except.bind]
  rw [encode_append, List.append_assoc, unicodeEscape, hfirst]
  simp only [bind, Except.bind, hm₁, hm₂, hhalf, ← hc, Char.ofNat_toNat]
  rfl

theorem CharacterText.read {c : Char} {t : List Char} (h : CharacterText c t) (steps : Nat)
    (before : List Char) (s : Bytes) :
    stringRest (steps + 1) none before (encode t ++ s) = stringRest steps none (c :: before) s := by
  cases h with
  | plain hquote hslash hcontrol => exact stringRest_plain hquote hslash hcontrol steps before s
  | short h =>
    obtain ⟨b, hb, hc⟩ := encode_short h
    apply stringRest_escape
    rw [encode_cons, hb]
    simp [escape, hc]
  | unicode h =>
    apply stringRest_escape
    rw [encode_cons, utf8EncodeChar_u]
    exact unicodeEscape_of_hexQuad (h.read s)
  | surrogates hhigh hlow hm hn hc =>
    rw [List.cons_append, List.cons_append]
    apply stringRest_escape
    rw [encode_cons, utf8EncodeChar_u]
    exact unicodeEscape_surrogates hhigh hlow hm hn hc s

theorem CharacterText.ne_nil {c : Char} {t : List Char} (h : CharacterText c t) : t ≠ [] := by
  cases h <;> simp

theorem CharactersText.length_le {cs t : List Char} (h : CharactersText cs t) :
    cs.length ≤ t.length := by
  induction h with
  | nil => exact Nat.le_refl 0
  | cons h _ ih =>
    have := List.length_pos_iff.2 h.ne_nil
    simp only [List.length_cons, List.length_append]
    omega

theorem CharactersText.read {cs t : List Char} (h : CharactersText cs t) {steps : Nat}
    (hsteps : cs.length < steps) (before : List Char) (s : Bytes) :
    stringRest steps none before (encode t ++ 0x22 :: s) =
      .ok (String.ofList (before.reverse ++ cs), s) := by
  obtain ⟨steps, rfl⟩ := Nat.exists_eq_add_of_le' (Nat.one_le_of_lt hsteps)
  induction h generalizing steps before with
  | nil => simp [stringRest]
  | @cons c cs t ts h hs ih =>
    rw [encode_append, List.append_assoc, h.read]
    have hless : cs.length < steps := Nat.lt_of_succ_lt_succ hsteps
    obtain ⟨steps, rfl⟩ := Nat.exists_eq_add_of_le' (Nat.one_le_of_lt hless)
    rw [ih (c :: before) steps hless, List.reverse_cons, List.append_assoc,
      List.singleton_append]

theorem length_le_encode (t : List Char) : t.length ≤ (encode t).length := by
  induction t with
  | nil => exact Nat.le_refl 0
  | cons c t ih =>
    have := c.utf8Size_pos
    rw [encode_cons, List.length_append, String.length_utf8EncodeChar, List.length_cons]
    omega

theorem StringText.tail {a : String} {t : List Char} (h : StringText a t) {limit : Nat}
    (hlimit : (encode t).length < limit) (s : Bytes) :
    ∃ u, encode t = 0x22 :: u ∧ stringTail limit (u ++ s) = .ok (a, s) := by
  obtain @⟨t, h⟩ := h
  refine ⟨encode t ++ [0x22], ?_, ?_⟩
  · rw [List.cons_append, encode_cons, encode_append, encode_cons, utf8EncodeChar_quote]
    rfl
  · have hsteps : a.toList.length < limit := by
      have := h.length_le
      have := length_le_encode t
      rw [List.cons_append, encode_cons, encode_append, List.length_append, List.length_append]
        at hlimit
      omega
    rw [stringTail, List.append_assoc, List.singleton_append, h.read hsteps, List.reverse_nil,
      List.nil_append, String.ofList_toList]

end SchemaWalk.Json
