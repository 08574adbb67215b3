import SchemaWalk.Json.Reader

/-! # Reading back the text of a string -/
namespace SchemaWalk.Json

open Text

theorem head_utf8EncodeChar (c : Char) :
    ∃ b s, String.utf8EncodeChar c = b :: s ∧
      ((c.toNat < 0x80 ∧ b.toNat = c.toNat) ∨ 0xC0 ≤ b.toNat) := by
  have hc := toNat_lt c
  have hv : c.val.toNat = c.toNat := rfl
  simp only [String.utf8EncodeChar, hv]
  split
  · exact ⟨_, _, rfl, .inl ⟨by omega, by simp; omega⟩⟩
  · split
    · exact ⟨_, _, rfl, .inr (by simp; omega)⟩
    · split
      · exact ⟨_, _, rfl, .inr (by simp; omega)⟩
      · exact ⟨_, _, rfl, .inr (by simp; omega)⟩

theorem encode_hexDigit (n : Nat) :
    ∃ b, encode [hexDigit n] = [b] ∧ hexValue b = some (n % 16) := by
  have h : ∀ m < 16, encode [Nat.digitChar m] = [UInt8.ofNat (Nat.digitChar m).toNat] ∧
      hexValue (UInt8.ofNat (Nat.digitChar m).toNat) = some m := by decide
  exact ⟨_, h (n % 16) (Nat.mod_lt n (by decide))⟩

/-- Four digits for a character stand for it: characters are not surrogates. -/
theorem unicodeEscape_of_hexQuad {c : Char} {s t : Bytes} (h : hexQuad s = .ok (c.toNat, t)) :
    unicodeEscape s = .ok (c, t) := by
  have hvalid : c.toNat < 0xD800 ∨ 0xDFFF < c.toNat := (toNat_bounds c).imp_right And.left
  have hlow : isLowSurrogate c.toNat = false := by simp [isLowSurrogate]; omega
  have hhigh : isHighSurrogate c.toNat = false := by simp [isHighSurrogate]; omega
  rw [unicodeEscape, h]
  simp [bind, Except.bind, hlow, hhigh, Char.ofNat_toNat]

theorem unicodeEscape_control {c : Char} (hc : c.toNat < 0x20) (s : Bytes) :
    unicodeEscape (encode ['0', '0', hexDigit (c.toNat / 16), hexDigit c.toNat] ++ s) =
      .ok (c, s) := by
  obtain ⟨b₁, he₁, hv₁⟩ := encode_hexDigit (c.toNat / 16)
  obtain ⟨b₂, he₂, hv₂⟩ := encode_hexDigit c.toNat
  have hbytes : encode ['0', '0', hexDigit (c.toNat / 16), hexDigit c.toNat] =
      [0x30, 0x30, b₁, b₂] := by
    rw [show ['0', '0', hexDigit (c.toNat / 16), hexDigit c.toNat] =
      ['0', '0'] ++ ([hexDigit (c.toNat / 16)] ++ [hexDigit c.toNat]) from rfl, encode_append,
      encode_append, he₁, he₂]
    rfl
  rw [hbytes]
  apply unicodeEscape_of_hexQuad
  simp only [List.cons_append, List.nil_append, hexQuad, show hexValue 0x30 = some 0 from rfl, hv₁,
    hv₂]
  congr 2
  omega

theorem stringRest_plain {c : Char} (hq : c ≠ '"') (hb : c ≠ '\\') (hs : 0x20 ≤ c.toNat)
    (steps : Nat) (before : List Char) (s : Bytes) :
    stringRest (steps + 1) none before (encode [c] ++ s) =
      stringRest steps none (c :: before) s := by
  obtain ⟨b, t, he, hhead⟩ := head_utf8EncodeChar c
  have hdecode := decodeChar_utf8EncodeChar c s
  have hne : ∀ d : UInt8, d.toNat < 0x80 → d.toNat ≠ c.toNat → b ≠ d := by
    intro d hd hdc hbd
    subst hbd
    omega
  have hc : ∀ d : Char, c ≠ d → d.toNat ≠ c.toNat := fun d hd h => hd (Char.toNat_inj.1 h.symm)
  have h₁ : b ≠ 0x22 := hne _ (by decide) (hc '"' hq)
  have h₂ : b ≠ 0x5C := hne _ (by decide) (hc '\\' hb)
  have h₃ : ¬b < 0x20 := by
    rw [UInt8.lt_iff_toNat_lt]
    simp only [UInt8.reduceToNat]
    omega
  simp only [encode_cons, encode_nil, List.append_nil, he, List.cons_append] at hdecode ⊢
  simp [stringRest, h₁, h₂, h₃, hdecode]

theorem stringRest_escape {c : Char} {e : List Char} {s : Bytes}
    (he : escape (encode e ++ s) = .ok (c, s)) (steps : Nat) (before : List Char) :
    stringRest (steps + 1) none before (encode ('\\' :: e) ++ s) =
      stringRest steps none (c :: before) s := by
  rw [encode_cons, show String.utf8EncodeChar '\\' = [0x5C] from rfl, List.singleton_append,
    List.cons_append]
  simp [stringRest, he, bind, Except.bind]

def escapeCharacters : List Char := "\"\\bfnrtu0123456789abcdef".toList

theorem hexDigit_mem (n : Nat) : hexDigit n ∈ escapeCharacters := by
  have hdigit : ∀ m < 16, Nat.digitChar m ∈ escapeCharacters := by decide
  exact hdigit _ (Nat.mod_lt n (by decide))

theorem escaped_cases (c : Char) :
    (∃ d b, escaped c = ['\\', d] ∧ d ∈ escapeCharacters ∧ encode [d] = [b] ∧
      shortEscape b = some c) ∨
      (c.toNat < 0x20 ∧
        escaped c = ['\\', 'u', '0', '0', hexDigit (c.toNat / 16), hexDigit c.toNat]) ∨
      (c ≠ '"' ∧ c ≠ '\\' ∧ 0x20 ≤ c.toNat ∧ escaped c = [c]) := by
  by_cases hshort : c ∈ ['"', '\\', '\x08', '\x0c', '\n', '\r', '\t']
  · left
    simp only [List.mem_cons, List.not_mem_nil, or_false] at hshort
    rcases hshort with rfl | rfl | rfl | rfl | rfl | rfl | rfl
      <;> exact ⟨_, _, rfl, by decide, rfl, rfl⟩
  · right
    simp only [List.mem_cons, List.not_mem_nil, or_false, not_or] at hshort
    obtain ⟨h₁, h₂, h₃, h₄, h₅, h₆, h₇⟩ := hshort
    by_cases hc : c.toNat < 0x20
    · exact .inl ⟨hc, by simp [escaped, h₁, h₂, h₃, h₄, h₅, h₆, h₇, hc]⟩
    · exact .inr ⟨h₁, h₂, by omega, by simp [escaped, h₁, h₂, h₃, h₄, h₅, h₆, h₇, hc]⟩

theorem escaped_ne_nil (c : Char) : escaped c ≠ [] := by
  rcases escaped_cases c with ⟨d, b, he, -⟩ | ⟨-, he⟩ | ⟨-, -, -, he⟩ <;> simp [he]

theorem stringRest_escaped (c : Char) (steps : Nat) (before : List Char) (s : Bytes) :
    stringRest (steps + 1) none before (encode (escaped c) ++ s) =
      stringRest steps none (c :: before) s := by
  rcases escaped_cases c with ⟨d, b, he, -, hd, hb⟩ | ⟨hc, he⟩ | ⟨hq, hb, hc, he⟩
  · rw [he]
    exact stringRest_escape (by simp [hd, escape, hb]) steps before
  · rw [he]
    refine stringRest_escape ?_ steps before
    have := unicodeEscape_control hc s
    simp only [encode_cons, show String.utf8EncodeChar 'u' = [0x75] from rfl]
    simpa [escape, shortEscape] using this
  · rw [he]
    exact stringRest_plain hq hb hc steps before s

theorem mem_escaped {c d : Char} (h : d ∈ escaped c) :
    d ∈ escapeCharacters ∨ d = c ∧ 0x20 ≤ c.toNat ∧ escaped c = [c] := by
  have hescape : ∀ s : List Char, escaped c = '\\' :: s → (∀ e ∈ s, e ∈ escapeCharacters) →
      d ∈ escapeCharacters := by
    intro s he hs
    rw [he] at h
    rcases List.mem_cons.1 h with rfl | h
    · decide
    · exact hs d h
  rcases escaped_cases c with ⟨e, b, he, hmem, -⟩ | ⟨-, he⟩ | ⟨-, -, hc, he⟩
  · exact .inl (hescape _ he (by simpa using hmem))
  · refine .inl (hescape _ he ?_)
    simp only [List.forall_mem_cons, hexDigit_mem, List.not_mem_nil, false_imp_iff, implies_true,
      and_true]
    decide
  · rw [he] at h
    exact .inr ⟨by simpa using h, hc, he⟩

theorem escaped_eq_of_mem {c d : Char} (h : d ∈ escaped c) (hd : d ∉ escapeCharacters) :
    d = c ∧ escaped c = [c] := by
  obtain ⟨hdc, -, he⟩ := (mem_escaped h).resolve_left hd
  exact ⟨hdc, he⟩

theorem stringRest_text {t : List Char} {steps : Nat} (hn : t.length < steps) (before : List Char)
    (s : Bytes) :
    stringRest steps none before (encode (t.flatMap escaped) ++ 0x22 :: s) =
      .ok (String.ofList (before.reverse ++ t), s) := by
  induction t generalizing steps before with
  | nil =>
    cases steps with
    | zero => omega
    | succ steps => simp [stringRest]
  | cons c t ih =>
    cases steps with
    | zero => omega
    | succ steps =>
      rw [List.flatMap_cons, encode_append, List.append_assoc, stringRest_escaped,
        ih (by simp only [List.length_cons] at hn; omega)]
      simp

theorem stringRest_unterminated (t : List Char) (steps : Nat) (before : List Char) :
    ∃ fault, stringRest steps none before (encode (t.flatMap escaped)) = .error fault := by
  induction t generalizing steps before with
  | nil => cases steps <;> exact ⟨_, rfl⟩
  | cons c t ih =>
    cases steps with
    | zero => exact ⟨_, rfl⟩
    | succ steps =>
      rw [List.flatMap_cons, encode_append, stringRest_escaped]
      exact ih steps (c :: before)

end SchemaWalk.Json
