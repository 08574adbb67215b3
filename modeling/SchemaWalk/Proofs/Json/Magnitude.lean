import Mathlib.Algebra.Order.Field.Power
import Mathlib.Algebra.Order.Field.Rat
import Mathlib.Data.Int.CharZero
import SchemaWalk.Proofs.Json.Doubles
import SchemaWalk.Proofs.Json.IntegerText

/-! # The number that a numeral spells, and what is kept of it -/
namespace SchemaWalk.Json

/-! ## Gathering digits -/

variable {bound : Nat}

/-- The digits that are gathered, the others, and why the first of these does not belong to them. -/
theorem gather_spec (bound acc : Nat) (ds : List Nat) :
    ∃ taken rest, gather bound acc ds = (readOff acc taken, rest) ∧ ds = taken ++ rest ∧
      ∀ d ∈ rest.head?, bound ≤ readOff acc taken * 10 + d := by
  induction ds generalizing acc with
  | nil => exact ⟨[], [], rfl, rfl, by simp⟩
  | cons d ds ih =>
    by_cases hlt : acc * 10 + d < bound
    · obtain ⟨taken, rest, hgather, rfl, hrest⟩ := ih (acc * 10 + d)
      exact ⟨d :: taken, rest, by rw [gather, if_pos hlt, hgather]; rfl, rfl, hrest⟩
    · refine ⟨[], d :: ds, by rw [gather, if_neg hlt]; rfl, rfl, ?_⟩
      rintro _ ⟨⟩
      exact Nat.not_lt.1 hlt

theorem gather_lt {acc : Nat} (hacc : acc < bound) (ds : List Nat) :
    (gather bound acc ds).1 < bound := by
  induction ds generalizing acc with
  | nil => exact hacc
  | cons d ds ih =>
    rw [gather]
    split
    · next hlt => exact ih hlt
    · exact hacc

theorem mul_pow_le_readOff (ds : List Nat) (acc : Nat) : acc * 10 ^ ds.length ≤ readOff acc ds := by
  induction ds generalizing acc with
  | nil => simp [readOff]
  | cons d ds ih =>
    calc
      acc * 10 ^ (ds.length + 1) = acc * 10 * 10 ^ ds.length := by
        rw [Nat.pow_succ, Nat.mul_comm (10 ^ _), Nat.mul_assoc]
      _ ≤ (acc * 10 + d) * 10 ^ ds.length := Nat.mul_le_mul_right _ (Nat.le_add_right _ d)
      _ ≤ readOff acc (d :: ds) := ih (acc * 10 + d)

theorem gather_cases {acc : Nat} (hacc : acc < bound) (ds : List Nat) :
    readOff acc ds < bound ∧ gather bound acc ds = (readOff acc ds, []) ∨
      bound ≤ readOff acc ds ∧ ∃ taken d rest, gather bound acc ds = (taken, d :: rest) := by
  rcases Nat.lt_or_ge (readOff acc ds) bound with hlt | hge
  · exact .inl ⟨hlt, gather_of_lt ds acc hlt⟩
  · refine .inr ⟨hge, ?_⟩
    have hsmall := gather_lt hacc ds
    obtain ⟨taken, rest, hgather, rfl, -⟩ := gather_spec bound acc ds
    rw [hgather] at hsmall ⊢
    cases rest with
    | nil =>
      rw [List.append_nil] at hge
      exact absurd hsmall (Nat.not_lt.2 hge)
    | cons d rest => exact ⟨_, d, rest, rfl⟩

namespace Numeral

variable (n : Numeral)

/-- All digits, those of the fraction included, as one whole number. -/
def coefficient : Nat := readOff 0 (n.whole ++ n.fraction.getD [])

/-- The exponent as it is written. -/
def writtenExponent : Int :=
  match n.exponent with
  | none => 0
  | some (negative, ds) => if negative then -(readOff 0 ds : Int) else readOff 0 ds

/-- The power of ten that the last digit counts. -/
def lastPower : Int := n.writtenExponent - (n.fraction.getD []).length

def magnitude : ℚ := n.coefficient * 10 ^ n.lastPower

/-- The number that the numeral spells. -/
def exact : ℚ := if n.negative then -n.magnitude else n.magnitude

/-- An integer is written without fraction and exponent, and it is not minus zero. -/
def IsWhole : Prop :=
  n.fraction = none ∧ n.exponent = none ∧ (n.negative = true → n.coefficient ≠ 0)

theorem exact_of_isWhole {n : Numeral} (h : n.IsWhole) :
    n.exact = ((if n.negative then -(n.coefficient : Int) else n.coefficient : Int) : ℚ) := by
  obtain ⟨hfraction, hexponent, -⟩ := h
  have hpower : n.lastPower = 0 := by simp [lastPower, writtenExponent, hfraction, hexponent]
  rw [exact, magnitude, hpower, zpow_zero, mul_one]
  split <;> simp

theorem integer?_eq_some_iff {n : Numeral} {i : Int} :
    n.integer? = some i ↔ n.IsWhole ∧ n.exact = i ∧ -(signBit : Int) ≤ i ∧ i < wordBound := by
  have hsome : n.integer? = some i ↔
      n.IsWhole ∧ i = (if n.negative then -(n.coefficient : Int) else n.coefficient) ∧
        -(signBit : Int) ≤ i ∧ i < wordBound := by
    obtain ⟨negative, whole, fraction, exponent⟩ := n
    cases fraction with
    | some fraction => simp [integer?, IsWhole]
    | none =>
    cases exponent with
    | some exponent => simp [integer?, IsWhole]
    | none =>
    simp only [IsWhole, coefficient, Option.getD_none, List.append_nil, true_and]
    rcases gather_cases (show 0 < wordBound by decide) whole
      with ⟨hlt, hgather⟩ | ⟨hge, taken, d, rest, hgather⟩
    · cases negative with
      | false =>
        simp only [integer?, hgather, Bool.not_false, if_true, Option.some.injEq,
          Bool.false_eq_true, false_imp_iff, if_false, true_and]
        omega
      | true =>
        simp only [integer?, hgather, Bool.not_true, Bool.false_eq_true, if_false, Bool.or_eq_true,
          decide_eq_true_eq, true_imp_iff, if_true]
        split
        · simp only [reduceCtorEq, false_iff]
          omega
        · simp only [Option.some.injEq]
          have : signBit < wordBound := by decide
          omega
    · have hnone : integer? ⟨negative, whole, none, none⟩ = none := by simp only [integer?, hgather]
      rw [hnone]
      have : signBit < wordBound := by decide
      cases negative <;> simp only [reduceCtorEq, false_iff, Bool.false_eq_true, if_false, if_true]
        <;> omega
  rw [hsome]
  apply and_congr_right
  intro h
  rw [exact_of_isWhole h, Int.cast_inj, eq_comm]

theorem scaled_eq :
    n.scaled =
      ((gather wordBound (gather wordBound 0 n.whole).1 (n.fraction.getD [])).1,
        ((gather wordBound 0 n.whole).2.length : Int) -
          ((n.fraction.getD []).length -
            (gather wordBound (gather wordBound 0 n.whole).1 (n.fraction.getD [])).2.length :
            Nat)) := by
  rw [scaled]
  cases n.fraction with
  | none => simp [gather]
  | some fraction => rfl

theorem scaled_lt : n.scaled.1 < wordBound := by
  rw [scaled_eq]
  exact gather_lt (gather_lt (by decide) _) _

theorem scaled_of_lt {n : Numeral} (h : n.coefficient < wordBound) :
    n.scaled = (n.coefficient, -((n.fraction.getD []).length : Int)) := by
  rw [coefficient, readOff_append] at h
  have hwhole := gather_of_lt n.whole 0 (Nat.lt_of_le_of_lt (le_readOff _ _) h)
  have hfraction := gather_of_lt (n.fraction.getD []) _ h
  rw [scaled_eq, hwhole, hfraction, coefficient, readOff_append]
  simp

/-- The significand stands for the first digits, and its power for where they end. One digit of the
whole part that is dropped may be replaced by a smaller one of the fraction. -/
theorem scaled_spec :
    ∃ x : Nat, n.scaled.2 = (x : Int) - (n.fraction.getD []).length ∧
      n.scaled.1 * 10 ^ x ≤ n.coefficient := by
  have hlt := n.scaled_lt
  rw [scaled_eq] at hlt
  rw [scaled_eq, coefficient]
  generalize n.whole = whole, n.fraction.getD [] = fraction at hlt
  obtain ⟨taken, dropped, hwhole, rfl, hdropped⟩ := gather_spec wordBound 0 whole
  rw [hwhole] at hlt ⊢
  obtain ⟨used, unused, hfraction, rfl, -⟩ := gather_spec wordBound (readOff 0 taken) fraction
  rw [hfraction] at hlt ⊢
  generalize hw : readOff 0 taken = w at *
  generalize hs : readOff w used = s at *
  refine ⟨dropped.length + unused.length, by simp only [List.length_append]; omega, ?_⟩
  have hdigits : s * 10 ^ dropped.length ≤ readOff (readOff w dropped) used := by
    cases dropped with
    | nil => simp [readOff, ← hs]
    | cons d rest =>
      cases used with
      | nil => exact hs ▸ mul_pow_le_readOff (d :: rest) w
      | cons u us =>
        have hle : s ≤ w * 10 + d := Nat.le_trans (Nat.le_of_lt hlt) (hdropped d rfl)
        calc
          s * 10 ^ (rest.length + 1) ≤ (w * 10 + d) * 10 ^ (rest.length + 1) :=
            Nat.mul_le_mul_right _ hle
          _ = (w * 10 + d) * 10 ^ rest.length * 10 ^ 1 := by rw [Nat.pow_add, Nat.mul_assoc]
          _ ≤ readOff w (d :: rest) * 10 ^ (u :: us).length :=
            Nat.mul_le_mul (mul_pow_le_readOff rest _) (Nat.pow_le_pow_right (by decide) (by simp))
          _ ≤ readOff (readOff w (d :: rest)) (u :: us) := mul_pow_le_readOff _ _
  simp only [readOff_append, hw]
  calc
    s * 10 ^ (dropped.length + unused.length) = s * 10 ^ dropped.length * 10 ^ unused.length := by
        rw [Nat.pow_add, Nat.mul_assoc]
    _ ≤ readOff (readOff w dropped) used * 10 ^ unused.length := Nat.mul_le_mul_right _ hdigits
    _ ≤ readOff (readOff (readOff w dropped) used) unused := mul_pow_le_readOff _ _

theorem exponentValue_eq_ok {n : Numeral} {e : Int} (h : n.exponentValue = .ok e) :
    e = n.writtenExponent ∧ e < exponentBound := by
  rw [exponentValue] at h
  rw [writtenExponent]
  cases hexponent : n.exponent with
  | none =>
    rw [hexponent] at h
    cases h
    exact ⟨rfl, by decide⟩
  | some x =>
    obtain ⟨negative, ds⟩ := x
    rcases gather_cases (show 0 < exponentBound by decide) ds
      with ⟨hlt, hgather⟩ | ⟨-, taken, d, rest, hgather⟩
    · simp only [hexponent, hgather] at h
      simp only [← Except.ok.inj h]
      cases negative <;> simp only [Bool.false_eq_true, if_true, if_false, true_and] <;> omega
    · simp only [hexponent, hgather] at h
      cases h

theorem exponentValue_eq_error {n : Numeral} {excess : Nat} (h : n.exponentValue = .error excess) :
    n.exponent.any (·.1) = true ∨ exponentBound ≤ n.writtenExponent := by
  rw [exponentValue] at h
  cases hexponent : n.exponent with
  | none => rw [hexponent] at h; cases h
  | some x =>
    obtain ⟨negative, ds⟩ := x
    cases negative with
    | true => exact .inl rfl
    | false =>
      right
      rw [writtenExponent, hexponent]
      rcases gather_cases (show 0 < exponentBound by decide) ds with ⟨-, hgather⟩ | ⟨hge, -⟩
      · simp only [hexponent, hgather] at h
        cases h
      · simpa using hge

theorem scaled_le_magnitude :
    n.scaled.1 * (10 : ℚ) ^ (n.scaled.2 + n.writtenExponent) ≤ n.magnitude := by
  obtain ⟨x, hpower, hle⟩ := n.scaled_spec
  have hsum : n.scaled.2 + n.writtenExponent = x + n.lastPower := by
    rw [hpower, lastPower]
    omega
  have hle' : (n.scaled.1 : ℚ) * 10 ^ x ≤ n.coefficient := by exact_mod_cast hle
  rw [hsum, zpow_add₀ (by decide), zpow_natCast, ← mul_assoc, magnitude]
  exact mul_le_mul_of_nonneg_right hle' (zpow_nonneg (by decide) _)

/-- The number does not exceed the largest double, and does not come so near to it that two
roundings may lead beyond. -/
def Held : Prop :=
  n.magnitude ≤ largestDouble ∧
    (n.magnitude < 17976931348623156225 * 10 ^ 289 ∨ n.coefficient < 1797693134862315649)

end Numeral

theorem le_largestFactor {s k : Nat} (hpos : 0 < s) (hword : s < Numeral.wordBound)
    (hlargest : s * 10 ^ k ≤ largestDouble)
    (hnear : s * 10 ^ k < 17976931348623156225 * 10 ^ 289 ∨ s < 1797693134862315649) :
    k ≤ 308 ∧ s ≤ largestFactor k := by
  have hk : k ≤ 308 := by
    obtain ⟨x, hx, hbound⟩ : ∃ x, x = 309 ∧ largestDouble < 10 ^ x := ⟨309, rfl, by decide +kernel⟩
    apply Nat.le_of_not_lt
    intro hlt
    have hle : 10 ^ x ≤ s * 10 ^ k :=
      Nat.le_trans (Nat.pow_le_pow_right (by decide) (by omega)) (Nat.le_mul_of_pos_left _ hpos)
    exact absurd (Nat.lt_of_le_of_lt hlargest hbound) (Nat.not_lt.2 hle)
  have hdiv : s ≤ largestDouble / 10 ^ k :=
    (Nat.le_div_iff_mul_le (Nat.pow_pos (by decide))).2 hlargest
  obtain ⟨x, hx, hnear⟩ : ∃ x, x = 289 ∧
      (s * 10 ^ k < 17976931348623156225 * 10 ^ x ∨ s < 1797693134862315649) := ⟨289, rfl, hnear⟩
  have hfactor : ∀ j, k = x + j → s * 10 ^ j < 17976931348623156225 ∨ s < 1797693134862315649 := by
    rintro j rfl
    apply hnear.imp_left
    intro h
    rw [Nat.add_comm, Nat.pow_add, ← Nat.mul_assoc] at h
    exact Nat.lt_of_mul_lt_mul_right h
  clear hlargest hnear
  refine ⟨hk, ?_⟩
  rw [largestFactor]
  split
  · omega
  · split
    · have := hfactor 0 (by omega)
      omega
    · split
      · have := hfactor 1 (by omega)
        omega
      · exact hdiv

theorem Numeral.exists_value_double {n : Numeral} (hinteger : n.integer? = none) (hheld : n.Held)
    (hexponent : n.writtenExponent < exponentBound ∨ n.coefficient = 0) :
    ∃ x, n.value = .ok (.double x) := by
  obtain ⟨hlargest, hnear⟩ := hheld
  have hkept : n.coefficient < wordBound → n.scaled.1 = n.coefficient :=
    fun h => congrArg Prod.fst (scaled_of_lt h)
  rw [value, hinteger]
  cases hvalue : n.exponentValue with
  | error excess =>
    have hgone : (n.scaled.1 = 0 || n.exponent.any (·.1)) = true := by
      simp only [Bool.or_eq_true, decide_eq_true_eq]
      rcases exponentValue_eq_error hvalue with hnegative | hlarge
      · exact .inr hnegative
      · have hzero : n.coefficient = 0 := hexponent.resolve_left (by omega)
        exact .inl ((hkept (by rw [hzero]; decide)).trans hzero)
    simp only [hgone, if_true]
    exact ⟨_, rfl⟩
  | ok e =>
    obtain ⟨rfl, -⟩ := exponentValue_eq_ok hvalue
    have hdouble : ∃ f, double? n.scaled.1 (n.scaled.2 + n.writtenExponent) = some f := by
      apply exists_double?
      by_cases hs : n.scaled.1 = 0
      · exact .inl hs
      by_cases hneg : n.scaled.2 + n.writtenExponent < 0
      · exact .inr (.inl hneg)
      obtain ⟨k, hk⟩ := Int.eq_ofNat_of_zero_le (Int.not_lt.1 hneg)
      have hscaled := n.scaled_le_magnitude
      rw [hk, zpow_natCast] at hscaled
      have hproduct : n.scaled.1 * 10 ^ k ≤ largestDouble := by
        exact_mod_cast hscaled.trans hlargest
      have hnear' : n.scaled.1 * 10 ^ k < 17976931348623156225 * 10 ^ 289 ∨
          n.scaled.1 < 1797693134862315649 := by
        apply hnear.imp
        · intro h
          exact_mod_cast hscaled.trans_lt h
        · intro h
          rw [hkept (by rw [wordBound]; omega)]
          exact h
      have hfactor := le_largestFactor (Nat.pos_of_ne_zero hs) n.scaled_lt hproduct hnear'
      rw [hk]
      exact .inr (.inr ⟨by omega, hfactor.2⟩)
    obtain ⟨f, hf⟩ := hdouble
    simp only [hf]
    exact ⟨_, rfl⟩

theorem Numeral.exists_error_of_exponent {n : Numeral}
    (hexponent : exponentBound ≤ n.writtenExponent) (hscaled : n.scaled.1 ≠ 0) :
    ∃ excess, n.value = .error excess := by
  have hinteger : n.integer? = none := by
    cases h : n.integer? with
    | none => rfl
    | some i =>
      obtain ⟨⟨-, hnone, -⟩, -⟩ := integer?_eq_some_iff.1 h
      rw [writtenExponent, hnone] at hexponent
      exact absurd hexponent (by decide)
  have hsign : n.exponent.any (·.1) = false := by
    rw [writtenExponent] at hexponent
    cases h : n.exponent with
    | none => rfl
    | some x =>
      obtain ⟨negative, ds⟩ := x
      cases negative with
      | false => rfl
      | true =>
        simp only [h, if_true] at hexponent
        have : 0 < exponentBound := by decide
        omega
  rw [value, hinteger]
  cases hvalue : n.exponentValue with
  | ok e =>
    obtain ⟨rfl, hlt⟩ := exponentValue_eq_ok hvalue
    omega
  | error excess =>
    simp only [hscaled, hsign, decide_false, Bool.or_false, Bool.false_eq_true, if_false]
    exact ⟨excess, rfl⟩

end SchemaWalk.Json
