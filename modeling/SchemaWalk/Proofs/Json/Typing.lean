import SchemaWalk.Proofs.Json.Accepted
import SchemaWalk.Proofs.Json.Magnitude

/-! # Which literal a text is: integers of 64 bits, floats for all other numbers -/
namespace SchemaWalk

open Text Json

namespace Json

theorem Numeral.value_eq_integer_iff {n : Numeral} {i : Int} :
    n.value = .ok (.integer i) ↔ n.integer? = some i := by
  rw [value]
  cases n.integer? with
  | some j => simp
  | none =>
    simp only [reduceCtorEq, iff_false]
    cases n.exponentValue with
    | ok e => simp only; cases double? n.scaled.1 (n.scaled.2 + e) <;> simp
    | error excess => simp only; split <;> simp

theorem parse_numeral {n : Numeral} {t : List Char} (h : Between n.Spelled t) :
    (∀ m, n.value = .ok m → Json.parse (encode t) = .ok (.number m)) ∧
      ∀ excess, n.value = .error excess → ∃ e, Json.parse (encode t) = .error e := by
  obtain ⟨before, u, after, hbefore, hu, hafter, rfl⟩ := h
  obtain ⟨b, s, hb, hfirst⟩ := (numberText_iff.2 ⟨n, hu⟩).eq_cons
  have hread : ∀ limit list object, anyValue limit list object (encode u ++ encode after) =
      number (encode u ++ encode after) >>= fun x => .ok (.number x.1, x.2) := by
    intro limit list object
    rw [hb, List.cons_append]
    exact anyValue_number hfirst limit list object _
  have hnumeral := hu.read hafter.stops
  constructor
  · intro m hm
    have hnumber : number (encode u ++ encode after) = .ok (m, encode after) := by
      rw [number, hnumeral]
      simp only [bind, Except.bind, hm]
    apply parse_of_anyValue hbefore hafter
    intro limit list object _
    rw [hread, hnumber]
    rfl
  · intro excess hexcess
    have hnumber : ∃ fault, number (encode u ++ encode after) = .error fault := by
      rw [number, hnumeral]
      simp only [bind, Except.bind, hexcess]
      exact ⟨_, rfl⟩
    obtain ⟨fault, hfault⟩ := hnumber
    rw [List.append_assoc]
    apply parse_error_of_anyValue hbefore
    intro limit list object
    exact ⟨fault, by rw [encode_append, hread, hfault]; rfl⟩

/-- As many zeros after the point as the exponent makes up for. -/
theorem exists_refused_one {m : Nat} (hm : Numeral.exponentBound ≤ m + 1) :
    ∃ n : Numeral, n.Spelled
      (['0'] ++ ('.' :: (List.replicate m '0' ++ ['1']) ++ 'e' :: Nat.toDigits 10 (m + 1))) ∧
      n.magnitude = 1 ∧ ∃ excess, n.value = .error excess := by
  have hzeros : ∀ k, readOff 0 (digitValues (List.replicate k '0')) = 0 := by
    intro k
    induction k with
    | zero => rfl
    | succ k ih => exact ih
  have hfraction : Digits (List.replicate m '0' ++ ['1']) := by
    refine ⟨by simp, ?_⟩
    intro c hc
    rcases List.mem_append.1 hc with hc | hc
    · rw [List.eq_of_mem_replicate hc]
      rfl
    · rw [List.mem_singleton.1 hc]
      rfl
  have hexponent : Digits (Nat.toDigits 10 (m + 1)) :=
    ⟨Nat.toDigits_ne_nil, fun c hc => Nat.isDigit_of_mem_toDigits (by decide) (by decide) hc⟩
  let n : Numeral := ⟨false, digitValues ['0'], some (digitValues (List.replicate m '0' ++ ['1'])),
    some (false, digitValues (Nat.toDigits 10 (m + 1)))⟩
  have hcoefficient : n.coefficient = 1 := by
    simp only [n, Numeral.coefficient, Option.getD_some]
    rw [readOff_append, show readOff 0 (digitValues ['0']) = 0 from rfl, digitValues,
      List.map_append, ← digitValues, readOff_append, hzeros]
    rfl
  have hwritten : n.writtenExponent = (m + 1 : Nat) := by
    simp only [n, Numeral.writtenExponent, Bool.false_eq_true, if_false, readOff_toDigits]
  have hlast : n.lastPower = 0 := by
    rw [Numeral.lastPower, hwritten]
    simp [n, digitValues]
  refine ⟨n, .parts .zero (.digits hfraction) (.digits (.inl rfl) (.inl ⟨rfl, .inl rfl⟩) hexponent),
    ?_, ?_⟩
  · rw [Numeral.magnitude, hcoefficient, hlast]
    simp
  · have hscaled : n.scaled.1 = 1 := by
      rw [Numeral.scaled_of_lt (by rw [hcoefficient]; decide), hcoefficient]
    exact Numeral.exists_error_of_exponent (by rw [hwritten]; exact_mod_cast hm)
      (by rw [hscaled]; decide)

end Json

namespace Literal

theorem parse_eq_ok_iff {t : List Char} {l : Literal} :
    parse t = .ok l ↔ ∃ v, Json.parse (encode t) = .ok v ∧ ofValue v = l := by
  rw [parse]
  cases Json.parse (encode t) <;> simp [Except.map]

theorem parse_eq_error_iff {t : List Char} {e : Json.Error} :
    parse t = .error e ↔ Json.parse (encode t) = .error e := by
  rw [parse]
  cases Json.parse (encode t) <;> simp [Except.map]

theorem ofValue_eq_integer_iff {v : Value} {i : Int64} :
    ofValue v = .integer i ↔
      ∃ m : Int, v = .number (.integer m) ∧ m < signBit ∧ Int64.ofInt m = i := by
  cases v with
  | number m =>
    cases m with
    | integer m =>
      rw [ofValue]
      split <;> simp_all
    | double x => simp [ofValue]
  | _ => simp [ofValue]

theorem ofValue_eq_json {v w : Value} (h : ofValue w = .json v) :
    v = .null ∨ (∃ items, v = .array items) ∨ ∃ members, v = .object members := by
  cases w with
  | null => cases h; exact .inl rfl
  | array items => cases h; exact .inr (.inl ⟨items, rfl⟩)
  | object members => cases h; exact .inr (.inr ⟨members, rfl⟩)
  | number m =>
    cases m with
    | integer m =>
      rw [ofValue] at h
      split at h <;> cases h
    | double x => cases h
  | boolean b => cases h
  | string s => cases h

/-- An integer literal is a numeral without fraction and exponent, not minus zero, that
stands for this integer. -/
theorem parse_eq_integer_iff {t : List Char} {i : Int64} :
    parse t = .ok (.integer i) ↔
      ∃ n : Numeral, Between n.Spelled t ∧ n.IsWhole ∧ n.exact = i.toInt := by
  rw [parse_eq_ok_iff]
  constructor
  · rintro ⟨v, hv, hi⟩
    obtain ⟨m, rfl, hm, rfl⟩ := ofValue_eq_integer_iff.1 hi
    obtain ⟨before, u, after, hbefore, hu, hafter, rfl⟩ := textOf_of_parse hv
    obtain ⟨n, hspelled, hvalue⟩ := hu.numeral _ rfl
    obtain ⟨hwhole, hexact, hlow, -⟩ :=
      Numeral.integer?_eq_some_iff.1 (Numeral.value_eq_integer_iff.1 hvalue)
    have hbits : (Int64.ofInt m).toInt = m := Int64.toInt_ofInt_of_le
      (by simp only [signBit] at hlow; omega) (by simp only [signBit] at hm; omega)
    exact ⟨n, ⟨before, u, after, hbefore, hspelled, hafter, rfl⟩, hwhole, by rw [hexact, hbits]⟩
  · rintro ⟨n, hn, hwhole, hexact⟩
    have hlow := i.le_toInt
    have hhigh := i.toInt_lt
    have hinteger : n.integer? = some i.toInt := Numeral.integer?_eq_some_iff.2
      ⟨hwhole, hexact, by simp only [signBit]; omega, by simp only [Numeral.wordBound]; omega⟩
    refine ⟨_, (parse_numeral hn).1 _ (Numeral.value_eq_integer_iff.2 hinteger), ?_⟩
    exact ofValue_eq_integer_iff.2 ⟨_, rfl, by simp only [signBit]; omega, Int64.ofInt_toInt i⟩

/-- A numeral that is no integer of 64 bits is read as a float, or as nothing: neither a wrapped nor
a cut off integer comes of it. -/
theorem parse_other_number {n : Numeral} {t : List Char} (hn : Between n.Spelled t)
    (hother : ¬(n.IsWhole ∧ -2 ^ 63 ≤ n.exact ∧ n.exact < 2 ^ 63)) :
    ((∃ x, parse t = .ok (.float x)) ∨ ∃ e, parse t = .error e) ∧
      (n.Held → n.writtenExponent < 2 ^ 31 ∨ n.coefficient = 0 →
        ∃ x, parse t = .ok (.float x)) := by
  obtain ⟨hok, herror⟩ := parse_numeral hn
  have hfloat : ∀ m, n.value = .ok m → ∃ x, parse t = .ok (.float x) := by
    intro m hm
    cases m with
    | double x => exact ⟨x, parse_eq_ok_iff.2 ⟨_, hok _ hm, rfl⟩⟩
    | integer i =>
      obtain ⟨hwhole, hexact, hlow, -⟩ :=
        Numeral.integer?_eq_some_iff.1 (Numeral.value_eq_integer_iff.1 hm)
      have hhigh : ¬i < signBit := by
        intro hlt
        have hlow' : ((-2 ^ 63 : Int) : ℚ) ≤ i := Int.cast_le.2 hlow
        have hlt' : (i : ℚ) < ((2 ^ 63 : Int) : ℚ) := Int.cast_lt.2 hlt
        push_cast at hlow' hlt'
        apply hother
        rw [hexact]
        exact ⟨hwhole, hlow', hlt'⟩
      exact ⟨_, parse_eq_ok_iff.2 ⟨_, hok _ hm, by rw [ofValue, if_neg hhigh]⟩⟩
  constructor
  · cases hvalue : n.value with
    | ok m => exact .inl (hfloat m hvalue)
    | error excess =>
      obtain ⟨e, he⟩ := herror excess hvalue
      exact .inr ⟨e, parse_eq_error_iff.2 he⟩
  · intro hheld hexponent
    cases hinteger : n.integer? with
    | some i => exact hfloat _ (Numeral.value_eq_integer_iff.2 hinteger)
    | none =>
      obtain ⟨x, hx⟩ := Numeral.exists_value_double hinteger hheld hexponent
      exact hfloat _ hx

/-- A text is an integer literal exactly if it is a numeral of one. Every other number that is held
by a double is a float; what is kept as JSON is a null, a list or an object; and what is not one
value is refused. -/
theorem typed_by_form (t : List Char) :
    (∀ i : Int64, parse t = .ok (.integer i) ↔
      ∃ n : Numeral, Between n.Spelled t ∧ n.IsWhole ∧ n.exact = i.toInt) ∧
      (∀ n : Numeral, Between n.Spelled t → ¬(n.IsWhole ∧ -2 ^ 63 ≤ n.exact ∧ n.exact < 2 ^ 63) →
        ((∃ x, parse t = .ok (.float x)) ∨ ∃ e, parse t = .error e) ∧
          (n.Held → n.writtenExponent < 2 ^ 31 ∨ n.coefficient = 0 →
            ∃ x, parse t = .ok (.float x))) ∧
      (∀ v, parse t = .ok (.json v) →
        v = .null ∨ (∃ items, v = .array items) ∨ ∃ members, v = .object members) ∧
      (∀ l, parse t = .ok l → l.kind ≠ "json") ∧
      (¬Between ValueText t → ∃ e, parse t = .error e) := by
  have hjson : ∀ v, parse t = .ok (.json v) →
      v = .null ∨ (∃ items, v = .array items) ∨ ∃ members, v = .object members := by
    intro v hv
    obtain ⟨w, -, hw⟩ := parse_eq_ok_iff.1 hv
    exact ofValue_eq_json hw
  refine ⟨fun i => parse_eq_integer_iff, fun n => parse_other_number, hjson, ?_, ?_⟩
  · intro l hl
    cases l with
    | json v => rcases hjson v hl with rfl | ⟨items, rfl⟩ | ⟨members, rfl⟩ <;> simp [kind]
    | _ => simp [kind]
  · intro hnone
    cases hparse : Json.parse (encode t) with
    | error e => exact ⟨e, parse_eq_error_iff.2 hparse⟩
    | ok v =>
      obtain ⟨before, u, after, hbefore, hu, hafter, ht⟩ := textOf_of_parse hparse
      exact absurd ⟨before, u, after, hbefore, hu.form, hafter, ht⟩ hnone

/-- A number in the range of the doubles may be refused: near its end, where significand and power
are both rounded up, and where an exponent is too long although zeros make up for it. -/
theorem refused_in_range :
    (∀ t ∈ ["17976931348623156225e289".toList, "1797693134862315649e290".toList],
      ∃ n : Numeral, n.Spelled t ∧ n.magnitude ≤ largestDouble ∧ ∃ e, parse t = .error e) ∧
    ∃ (t : List Char) (n : Numeral), n.Spelled t ∧ n.magnitude = 1 ∧ ∃ e, parse t = .error e := by
  have hrefused : ∀ {n : Numeral} {t : List Char}, n.Spelled t →
      (∃ excess, n.value = .error excess) → ∃ e, parse t = .error e := by
    rintro n t hn ⟨excess, hexcess⟩
    have hbetween : Between n.Spelled t := ⟨[], t, [], gap_nil, hn, gap_nil, by simp⟩
    obtain ⟨e, he⟩ := (parse_numeral hbetween).2 excess hexcess
    exact ⟨e, parse_eq_error_iff.2 he⟩
  have hlarge : ∀ (c : Char) (ds es : List Char), c ≠ '0' → Digits (c :: ds) → Digits es →
      readOff 0 (digitValues (c :: ds)) * 10 ^ readOff 0 (digitValues es) ≤ largestDouble →
      Numeral.value ⟨false, digitValues (c :: ds), none, some (false, digitValues es)⟩ = .error 0 →
      ∃ n : Numeral, n.Spelled (c :: ds ++ 'e' :: es) ∧ n.magnitude ≤ largestDouble ∧
        ∃ e, parse (c :: ds ++ 'e' :: es) = .error e := by
    intro c ds es hc hds hes hle hvalue
    have hn : Numeral.Spelled ⟨false, digitValues (c :: ds), none, some (false, digitValues es)⟩
        (c :: ds ++ 'e' :: es) :=
      .parts (.digits hc hds) .none (.digits (.inl rfl) (.inl ⟨rfl, .inl rfl⟩) hes)
    refine ⟨_, hn, ?_, hrefused hn ⟨0, hvalue⟩⟩
    simp only [Numeral.magnitude, Numeral.coefficient, Numeral.lastPower, Numeral.writtenExponent,
      Option.getD_none, List.append_nil, List.length_nil, Bool.false_eq_true, if_false,
      Int.natCast_zero, Int.sub_zero, zpow_natCast]
    exact_mod_cast hle
  refine ⟨List.forall_mem_cons.2 ⟨?_, List.forall_mem_singleton.2 ?_⟩, ?_⟩
  · exact hlarge '1' "7976931348623156225".toList "289".toList (by decide)
      ⟨by decide, List.all_eq_true.1 (by decide)⟩ ⟨by decide, List.all_eq_true.1 (by decide)⟩
      (by decide +kernel) (by decide +kernel)
  · exact hlarge '1' "797693134862315649".toList "290".toList (by decide)
      ⟨by decide, List.all_eq_true.1 (by decide)⟩ ⟨by decide, List.all_eq_true.1 (by decide)⟩
      (by decide +kernel) (by decide +kernel)
  · obtain ⟨n, hn, hone, hexcess⟩ :=
      exists_refused_one (show Numeral.exponentBound ≤ Numeral.exponentBound - 1 + 1 by decide)
    exact ⟨_, n, hn, hone, hrefused hn hexcess⟩

end Literal

end SchemaWalk
