import SchemaWalk.Json.Reader

/-! # Reading back the text of an integer -/
namespace SchemaWalk.Json

open Text

/-- Bytes that do not continue a numeral. -/
def Stops (s : Bytes) : Prop := ∀ b ∈ s.head?, isDigit b = false ∧ b ≠ 0x2E ∧ b ≠ 0x65 ∧ b ≠ 0x45

theorem encode_digit {c : Char} (hc : c.isDigit = true) :
    ∃ b, encode [c] = [b] ∧ isDigit b = true ∧ b.toNat = c.toNat := by
  simp only [Char.isDigit, Bool.and_eq_true, decide_eq_true_eq] at hc
  have h₁ : 48 ≤ c.toNat := hc.1
  have h₂ : c.toNat ≤ 57 := hc.2
  have hv : c.val.toNat = c.toNat := rfl
  have hb : (UInt8.ofNat c.toNat).toNat = c.toNat := by simp; omega
  refine ⟨UInt8.ofNat c.toNat, ?_, ?_, hb⟩
  · simp [String.utf8EncodeChar, hv, show c.toNat ≤ 127 by omega]
  · simp [isDigit, hb, h₁, h₂]

def digitValues (cs : List Char) : List Nat := cs.map fun c => c.toNat - '0'.toNat

theorem digits_encode (cs : List Char) (hcs : ∀ c ∈ cs, c.isDigit = true) {s : Bytes}
    (hs : ∀ b ∈ s.head?, isDigit b = false) : digits (encode cs ++ s) = (digitValues cs, s) := by
  induction cs with
  | nil =>
    cases s with
    | nil => rfl
    | cons b s => simp [digits, digitValues, hs b (by simp)]
  | cons c cs ih =>
    obtain ⟨b, he, hd, hv⟩ := encode_digit (hcs c (by simp))
    have hrest := ih fun c hc => hcs c (List.mem_cons_of_mem _ hc)
    simp only [encode_cons, encode_nil, List.append_nil] at he
    simp only [digits, Prod.mk.injEq] at hrest
    rw [encode_cons, he, List.append_assoc, List.singleton_append]
    simp only [digits, List.takeWhile_cons_of_pos hd, List.dropWhile_cons_of_pos hd, List.map_cons,
      hrest.1, hrest.2, hv]
    rfl

theorem head_toDigits {n : Nat} (hn : n ≠ 0) : ∃ c cs, Nat.toDigits 10 n = c :: cs ∧ c ≠ '0' := by
  induction n using Nat.strongRecOn with
  | ind n ih =>
    by_cases hlt : n < 10
    · have hdigit : ∀ m < 10, m ≠ 0 → Nat.digitChar m ≠ '0' := by decide
      exact ⟨_, _, Nat.toDigits_of_lt_base hlt, hdigit n hlt hn⟩
    · obtain ⟨c, cs, hcs, hc⟩ := ih (n / 10) (by omega) (by omega)
      exact ⟨c, _, by rw [Nat.toDigits_of_base_le (by decide) (by omega), hcs]; rfl, hc⟩

theorem head_encode_toDigits (n : Nat) :
    ∃ b s, encode (Nat.toDigits 10 n) = b :: s ∧ isDigit b = true := by
  obtain ⟨c, cs, hcs⟩ := List.exists_cons_of_ne_nil (Nat.toDigits_ne_nil (n := n) (b := 10))
  have hc : c.isDigit = true :=
    Nat.isDigit_of_mem_toDigits (by decide) (by decide) (hcs ▸ List.mem_cons_self)
  obtain ⟨b, he, hb, -⟩ := encode_digit hc
  rw [encode_cons, encode_nil, List.append_nil] at he
  exact ⟨b, encode cs, by rw [hcs, encode_cons, he]; rfl, hb⟩

theorem wholePart_zero {s : Bytes} (hs : ∀ b ∈ s.head?, isDigit b = false) :
    wholePart (encode ['0'] ++ s) = .ok ([0], s) := by
  cases s with
  | nil => rfl
  | cons b s => simp [wholePart, String.utf8EncodeChar, hs b (by simp)]

theorem wholePart_digits {c : Char} {cs : List Char} (hc : c ≠ '0')
    (hcs : ∀ d ∈ c :: cs, d.isDigit = true) {s : Bytes} (hs : ∀ b ∈ s.head?, isDigit b = false) :
    wholePart (encode (c :: cs) ++ s) = .ok (digitValues (c :: cs), s) := by
  have hdigits := digits_encode (c :: cs) hcs hs
  obtain ⟨b, he, hd, hv⟩ := encode_digit (hcs c List.mem_cons_self)
  simp only [encode_cons, encode_nil, List.append_nil] at he
  rw [encode_cons, he, List.append_assoc, List.singleton_append] at hdigits ⊢
  have hne : b ≠ 0x30 := by
    intro hb
    subst hb
    exact hc (Char.toNat_inj.1 hv.symm)
  simp only [wholePart, hne, hd, if_false, if_true, hdigits]

theorem wholePart_toDigits (n : Nat) {s : Bytes} (hs : Stops s) :
    wholePart (encode (Nat.toDigits 10 n) ++ s) = .ok (digitValues (Nat.toDigits 10 n), s) := by
  have hstop : ∀ b ∈ s.head?, isDigit b = false := fun b hb => (hs b hb).1
  by_cases hn : n = 0
  · subst hn
    exact wholePart_zero hstop
  · obtain ⟨c, cs, hcs, hc⟩ := head_toDigits hn
    have hdigit : ∀ d ∈ c :: cs, d.isDigit = true := fun d hd =>
      Nat.isDigit_of_mem_toDigits (by decide) (by decide) (hcs ▸ hd)
    rw [hcs]
    exact wholePart_digits hc hdigit hstop

/-- The number that the digits continue `acc` to. -/
def readOff (acc : Nat) (ds : List Nat) : Nat := ds.foldl (fun acc d => acc * 10 + d) acc

theorem readOff_append (acc : Nat) (ds es : List Nat) :
    readOff acc (ds ++ es) = readOff (readOff acc ds) es :=
  List.foldl_append

theorem readOff_digitValues (cs : List Char) (acc : Nat) :
    readOff acc (digitValues cs) = Nat.ofDigitChars 10 cs acc := by
  induction cs generalizing acc with
  | nil => rfl
  | cons c cs ih => rw [Nat.ofDigitChars_cons, Nat.mul_comm, ← ih]; rfl

theorem readOff_toDigits (n : Nat) : readOff 0 (digitValues (Nat.toDigits 10 n)) = n := by
  rw [readOff_digitValues, Nat.ofDigitChars_ten_toDigits]

theorem le_readOff (ds : List Nat) (acc : Nat) : acc ≤ readOff acc ds := by
  induction ds generalizing acc with
  | nil => exact Nat.le_refl acc
  | cons d ds ih =>
    have hdigit : acc ≤ acc * 10 + d := by omega
    exact Nat.le_trans hdigit (ih _)

theorem gather_of_lt {bound : Nat} (ds : List Nat) (acc : Nat) (h : readOff acc ds < bound) :
    gather bound acc ds = (readOff acc ds, []) := by
  induction ds generalizing acc with
  | nil => rfl
  | cons d ds ih =>
    have hlt : acc * 10 + d < bound := Nat.lt_of_le_of_lt (le_readOff ds _) h
    rw [gather, if_pos hlt]
    exact ih _ h

theorem numeral_plain (negative : Bool) {s rest : Bytes} {whole : List Nat} (hs : Stops rest)
    (hw : wholePart s = .ok (whole, rest)) (hsign : negative = false → ∀ b ∈ s.head?, b ≠ 0x2D) :
    numeral ((if negative then [0x2D] else []) ++ s) =
      .ok (⟨negative, whole, none, none⟩, rest) := by
  have hfraction : fractionPart rest = .ok (none, rest) := by
    cases rest with
    | nil => rfl
    | cons b t => simp [fractionPart, (hs b (by simp)).2.1]
  have hexponent : exponentPart rest = .ok (none, rest) := by
    cases rest with
    | nil => rfl
    | cons b t => simp [exponentPart, (hs b (by simp)).2.2.1, (hs b (by simp)).2.2.2]
  cases negative with
  | true => simp [numeral, bind, Except.bind, hw, hfraction, hexponent]
  | false =>
    cases s with
    | nil => simp [wholePart, refuse] at hw
    | cons b t =>
      have hb : b ≠ 0x2D := hsign rfl b (by simp)
      simp [numeral, bind, Except.bind, hb, hw, hfraction, hexponent]

theorem integer?_plain (negative : Bool) {m : Nat} (hm : m < Numeral.wordBound)
    (hsign : negative = true → m ≠ 0 ∧ m ≤ signBit) :
    Numeral.integer? ⟨negative, digitValues (Nat.toDigits 10 m), none, none⟩ =
      some (if negative then -(m : Int) else m) := by
  have hgather := gather_of_lt (digitValues (Nat.toDigits 10 m)) 0 (by rwa [readOff_toDigits])
  rw [readOff_toDigits] at hgather
  cases negative with
  | false => simp [Numeral.integer?, hgather]
  | true =>
    obtain ⟨h₁, h₂⟩ := hsign rfl
    simp [Numeral.integer?, hgather, h₁, Nat.not_lt.2 h₂]

theorem number_integerText {n : Int} (hlow : -(signBit : Int) ≤ n) (hhigh : n < Numeral.wordBound)
    {s : Bytes} (hs : Stops s) : number (encode (integerText n) ++ s) = .ok (.integer n, s) := by
  have hwhole := wholePart_toDigits n.natAbs hs
  have hbound : n.natAbs < Numeral.wordBound := by
    simp only [signBit, Numeral.wordBound] at *
    omega
  by_cases hn : n < 0
  · have hread := numeral_plain true hs hwhole (by simp)
    have hvalue := integer?_plain true hbound (fun _ => ⟨by omega, by omega⟩)
    have htext : encode (integerText n) = [0x2D] ++ encode (Nat.toDigits 10 n.natAbs) := by
      rw [integerText, if_pos hn, encode_cons]
      rfl
    rw [if_pos rfl, ← List.append_assoc, ← htext] at hread
    rw [number, hread]
    simp only [bind, Except.bind, Numeral.value, hvalue, if_true]
    rw [show -(n.natAbs : Int) = n by omega]
  · have hfirst : ∀ b ∈ (encode (Nat.toDigits 10 n.natAbs) ++ s).head?, b ≠ 0x2D := by
      obtain ⟨b, t, he, hb⟩ := head_encode_toDigits n.natAbs
      rw [he]
      rintro _ ⟨⟩ rfl
      exact absurd hb (by decide)
    have hread := numeral_plain false hs hwhole (fun _ => hfirst)
    have hvalue := integer?_plain false hbound (by simp)
    have htext : encode (integerText n) = encode (Nat.toDigits 10 n.natAbs) := by
      rw [integerText, if_neg hn]
    rw [if_neg (by decide), List.nil_append, ← htext] at hread
    rw [number, hread]
    simp only [bind, Except.bind, Numeral.value, hvalue]
    rw [if_neg (by decide), show (n.natAbs : Int) = n by omega]

end SchemaWalk.Json
