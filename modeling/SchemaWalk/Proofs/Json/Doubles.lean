import Mathlib.Algebra.Ring.Nat
import SchemaWalk.Json.Numeral

/-! # Which products of doubles are finite, told by natural numbers

A double from `2 ^ -52` on is counted here in units of `2 ^ -52`, and a product of two in units of
`2 ^ -104`. -/
namespace SchemaWalk.Json

open Float.Model Float.Model.UnpackedFloat

/-! ## Rounding -/

/-- The whole number next to `m / 2 ^ n`, and the even one where two are equally near. -/
def nearest (m n : Nat) : Nat :=
  if 2 ^ n < 2 * (m % 2 ^ n) ∨ 2 ^ n = 2 * (m % 2 ^ n) ∧ m / 2 ^ n % 2 = 1 then m / 2 ^ n + 1
  else m / 2 ^ n

/-- The number of 53 bits, and zeros after them, that is next to `m`. -/
def rounded (m : Nat) : Nat := nearest m (m.log2 - 52) * 2 ^ (m.log2 - 52)

theorem div_le_nearest (m n : Nat) : m / 2 ^ n ≤ nearest m n := by
  rw [nearest]
  split <;> omega

theorem nearest_le_div_add_one (m n : Nat) : nearest m n ≤ m / 2 ^ n + 1 := by
  rw [nearest]
  split <;> omega

theorem nearest_mono {m m' : Nat} (h : m ≤ m') (n : Nat) : nearest m n ≤ nearest m' n := by
  have hdiv : m / 2 ^ n ≤ m' / 2 ^ n := Nat.div_le_div_right h
  rcases Nat.lt_or_eq_of_le hdiv with hlt | heq
  · exact Nat.le_trans (nearest_le_div_add_one m n) (Nat.le_trans hlt (div_le_nearest m' n))
  · have hmod : m % 2 ^ n ≤ m' % 2 ^ n := by
      have h₁ := Nat.div_add_mod m (2 ^ n)
      have h₂ := Nat.div_add_mod m' (2 ^ n)
      rw [heq] at h₁
      omega
    rw [nearest, nearest, heq]
    split <;> split <;> omega

theorem nearest_mul (m n j : Nat) : nearest (m * 2 ^ j) (n + j) = nearest m n := by
  have hpos : 0 < 2 ^ j := Nat.two_pow_pos j
  have hdiv : m * 2 ^ j / 2 ^ (n + j) = m / 2 ^ n := by
    rw [Nat.pow_add, Nat.mul_div_mul_right _ _ hpos]
  have hmod : m * 2 ^ j % 2 ^ (n + j) = m % 2 ^ n * 2 ^ j := by
    rw [Nat.pow_add, Nat.mul_mod_mul_right]
  rw [nearest, nearest, hdiv, hmod, Nat.pow_add, ← Nat.mul_assoc]
  simp only [Nat.mul_lt_mul_right hpos, Nat.mul_left_inj (Nat.ne_of_gt hpos)]

theorem nearest_bounds {m : Nat} (h : 2 ^ 52 ≤ m) :
    2 ^ 52 ≤ nearest m (m.log2 - 52) ∧ nearest m (m.log2 - 52) ≤ 2 ^ 53 := by
  have hm : m ≠ 0 := by omega
  have hlog : 52 ≤ m.log2 := (Nat.le_log2 hm).2 h
  have hlow : 2 ^ 52 * 2 ^ (m.log2 - 52) ≤ m := by
    rw [← Nat.pow_add, Nat.add_sub_cancel' hlog]
    exact Nat.log2_self_le hm
  have hhigh : m < 2 ^ 53 * 2 ^ (m.log2 - 52) := by
    rw [← Nat.pow_add, show 53 + (m.log2 - 52) = m.log2 + 1 by omega]
    exact Nat.lt_log2_self
  have h₁ := (Nat.le_div_iff_mul_le (Nat.two_pow_pos _)).2 hlow
  have h₂ := (Nat.div_lt_iff_lt_mul (Nat.two_pow_pos _)).2 hhigh
  have h₃ := div_le_nearest m (m.log2 - 52)
  have h₄ := nearest_le_div_add_one m (m.log2 - 52)
  omega

theorem log2_mul_two_pow {m : Nat} (hm : m ≠ 0) (j : Nat) : (m * 2 ^ j).log2 = m.log2 + j := by
  have hpos : 0 < 2 ^ j := Nat.two_pow_pos j
  rw [Nat.log2_eq_iff (Nat.mul_ne_zero hm (Nat.ne_of_gt hpos)), Nat.pow_add, Nat.add_right_comm,
    Nat.pow_add]
  exact ⟨Nat.mul_le_mul_right _ (Nat.log2_self_le hm),
    Nat.mul_lt_mul_of_pos_right Nat.lt_log2_self hpos⟩

theorem rounded_mul {m : Nat} (h : 2 ^ 52 ≤ m) (j : Nat) :
    rounded (m * 2 ^ j) = rounded m * 2 ^ j := by
  have hm : m ≠ 0 := by omega
  have hlog : 52 ≤ m.log2 := (Nat.le_log2 hm).2 h
  have hshift : (m * 2 ^ j).log2 - 52 = m.log2 - 52 + j := by
    rw [log2_mul_two_pow hm]
    omega
  rw [rounded, hshift, nearest_mul, Nat.pow_add, ← Nat.mul_assoc, ← rounded]

theorem rounded_mono {m m' : Nat} (hm : 2 ^ 52 ≤ m) (h : m ≤ m') : rounded m ≤ rounded m' := by
  have hlog : m.log2 ≤ m'.log2 :=
    (Nat.le_log2 (by omega)).2 (Nat.le_trans (Nat.log2_self_le (by omega)) h)
  rcases Nat.lt_or_eq_of_le hlog with hlt | heq
  · have hlow := (nearest_bounds (Nat.le_trans hm h)).1
    have hhigh := (nearest_bounds hm).2
    have h52 : 52 ≤ m.log2 := (Nat.le_log2 (by omega)).2 hm
    calc rounded m ≤ 2 ^ 53 * 2 ^ (m.log2 - 52) := Nat.mul_le_mul_right _ hhigh
      _ = 2 ^ 52 * 2 ^ (m.log2 - 51) := by rw [← Nat.pow_add, ← Nat.pow_add]; congr 1; omega
      _ ≤ 2 ^ 52 * 2 ^ (m'.log2 - 52) :=
        Nat.mul_le_mul_left _ (Nat.pow_le_pow_right (by decide) (by omega))
      _ ≤ rounded m' := Nat.mul_le_mul_right _ hlow
  · rw [rounded, rounded, heq]
    exact Nat.mul_le_mul_right _ (nearest_mono h _)

theorem le_rounded {m : Nat} (h : 2 ^ 52 ≤ m) : 2 ^ 52 ≤ rounded m :=
  Nat.le_trans (nearest_bounds h).1 (Nat.le_mul_of_pos_right _ (Nat.two_pow_pos _))

/-! ## The doubles themselves -/

/-- The bits that are shifted out, one at a time, leave the last of them and whether
any before it was set. -/
theorem shift_succ (m k : Nat) : (ExtendedMantissa.mk m false false) >>> (k + 1) =
    ⟨m / 2 ^ (k + 1), m / 2 ^ k % 2 != 0, m % 2 ^ k != 0⟩ := by
  induction k with
  | zero => simp [HShiftRight.hShiftRight, Nat.repeat, ExtendedMantissa.shiftRightOne, Nat.mod_one]
  | succ k ih =>
    change ((ExtendedMantissa.mk m false false) >>> (k + 1)).shiftRightOne = _
    rw [ih, ExtendedMantissa.shiftRightOne, Nat.div_div_eq_div_mul, ← Nat.pow_succ]
    congr 1
    have hmod : m % 2 ^ (k + 1) = m % 2 ^ k + 2 ^ k * (m / 2 ^ k % 2) := by
      rw [Nat.pow_succ, Nat.mod_mul]
    rcases Nat.mod_two_eq_zero_or_one (m / 2 ^ k) with hbit | hbit <;> simp [hmod, hbit]

theorem roundedMantissa_shift (m n : Nat) :
    ((ExtendedMantissa.mk m false false) >>> n).roundedMantissa = nearest m n := by
  cases n with
  | zero =>
    have hmod : m % 1 = 0 := Nat.mod_one m
    simp [HShiftRight.hShiftRight, Nat.repeat, ExtendedMantissa.roundedMantissa,
      ExtendedMantissa.accuracy, Accuracy.roundToNearestEven, nearest, hmod]
  | succ k =>
    have hmod : m % 2 ^ (k + 1) = m % 2 ^ k + 2 ^ k * (m / 2 ^ k % 2) := by
      rw [Nat.pow_succ, Nat.mod_mul]
    have hlt : m % 2 ^ k < 2 ^ k := Nat.mod_lt m (Nat.two_pow_pos k)
    have hbit := Nat.mod_two_eq_zero_or_one (m / 2 ^ k)
    rw [shift_succ, nearest, hmod, Nat.pow_succ]
    generalize m / (2 ^ k * 2) = q at *
    generalize m / 2 ^ k % 2 = bit at *
    generalize m % 2 ^ k = rest at *
    generalize 2 ^ k = unit at *
    rcases hbit with rfl | rfl
    · rw [if_neg (by omega)]
      by_cases hrest : rest = 0
      · rw [hrest]
        rfl
      · rw [bne_iff_ne.2 hrest]
        rfl
    · by_cases hrest : rest = 0
      · have htie : (ExtendedMantissa.mk q (1 != 0) (0 != 0)).roundedMantissa = q + q % 2 := rfl
        rw [hrest, htie]
        split <;> omega
      · rw [if_pos (by omega), bne_iff_ne.2 hrest]
        rfl

/-- A mantissa has 53 bits, unless the exponent would go below `-1074`. -/
theorem targetExponent_totalExponent (m : Nat) (e : Int) :
    Format.binary64.targetExponent (totalExponent m e) = max (m.log2 + 1 + e - 53) (-1074) := rfl

theorem shiftToTargetExponent_exact {m : Nat} {e : Int} (hm : 2 ^ 52 ≤ m)
    (he : -1074 ≤ e + (m.log2 - 52 : Nat)) :
    shiftToTargetExponent Format.binary64 m e .exact =
      ((ExtendedMantissa.mk m false false) >>> (m.log2 - 52), e + (m.log2 - 52 : Nat)) := by
  have hlog : 52 ≤ m.log2 := (Nat.le_log2 (by omega)).2 hm
  have htarget : (Format.binary64.targetExponent (totalExponent m e) - e).toNat = m.log2 - 52 := by
    rw [targetExponent_totalExponent]
    omega
  rw [shiftToTargetExponent, shiftToExponent, htarget]
  rfl

/-- The mantissa is rounded, and what it has become is shifted to its exponent once more. -/
theorem roundWithAccuracy_of_shifted (sign : Sign) {m r : Nat} {e e₁ e₂ : Int}
    {shifted : ExtendedMantissa}
    (hfirst : shiftToTargetExponent Format.binary64 m e .exact = (shifted, e₁))
    (hsecond : shiftToTargetExponent Format.binary64 shifted.roundedMantissa e₁ .exact =
      (⟨r, false, false⟩, e₂)) (hr : 0 < r) :
    roundWithAccuracy Format.binary64 sign m e .exact = .finite sign r e₂ hr := by
  rw [roundWithAccuracy, hfirst]
  dsimp only
  rw [hsecond]
  exact dif_neg (Nat.ne_of_gt hr)

/-- What a number of at least 53 bits is rounded to: a mantissa of 53 bits, with the power
of two that it lost. -/
theorem roundWithAccuracy_exact (sign : Sign) {m : Nat} {e : Int} (hm : 2 ^ 52 ≤ m)
    (he : -1074 ≤ e + (m.log2 - 52 : Nat)) :
    ∃ (r i : Nat) (hr : 0 < r),
      roundWithAccuracy Format.binary64 sign m e .exact = .finite sign r (e + i) hr ∧ 2 ^ 52 ≤ r ∧
        r < 2 ^ 53 ∧ r * 2 ^ i = rounded m := by
  obtain ⟨hlow, hhigh⟩ := nearest_bounds hm
  -- Rounding up may lead to `2 ^ 53`, which is shifted once more.
  rcases Nat.lt_or_eq_of_le hhigh with hlt | heq
  · have hbits : (nearest m (m.log2 - 52)).log2 = 52 := (Nat.log2_eq_iff (by omega)).2 ⟨hlow, hlt⟩
    have hsecond : shiftToTargetExponent Format.binary64 (nearest m (m.log2 - 52))
        (e + (m.log2 - 52 : Nat)) .exact =
        (ExtendedMantissa.mk (nearest m (m.log2 - 52)) false false, e + (m.log2 - 52 : Nat)) := by
      rw [shiftToTargetExponent_exact hlow (by omega), hbits, Nat.sub_self, Int.natCast_zero,
        Int.add_zero]
      rfl
    refine ⟨nearest m (m.log2 - 52), m.log2 - 52, by omega, ?_, hlow, hlt, rfl⟩
    apply roundWithAccuracy_of_shifted sign (shiftToTargetExponent_exact hm he)
    rw [roundedMantissa_shift, hsecond]
  · have hsecond : shiftToTargetExponent Format.binary64 (2 ^ 53) (e + (m.log2 - 52 : Nat)) .exact =
        (ExtendedMantissa.mk (2 ^ 52) false false, e + (m.log2 - 52 + 1 : Nat)) := by
      rw [shiftToTargetExponent_exact (by decide) (by rw [Nat.log2_two_pow]; omega),
        Nat.log2_two_pow, Int.natCast_add, ← Int.add_assoc]
      rfl
    refine ⟨2 ^ 52, m.log2 - 52 + 1, by decide, ?_, Nat.le_refl _, by decide, ?_⟩
    · apply roundWithAccuracy_of_shifted sign (shiftToTargetExponent_exact hm he)
      rw [roundedMantissa_shift, heq, hsecond]
    · rw [rounded, heq, ← Nat.pow_add, ← Nat.pow_add]
      congr 1
      omega

/-- The exponent is packed with a bias of 1023, and counts from the first of 53 bits. -/
theorem pack_finite (sign : Sign) {m biased : Nat} {e : Int} (hm : 0 < m)
    (hbiased : e + 1075 = biased) :
    UnpackedFloat.pack Format.binary64 (.finite sign m e hm) =
      if 2 ^ 11 ≤ biased + 1 then packedInfinity Format.binary64 sign
      else if m.log2 + 1 = 53 then
        packComponents Format.binary64 sign (BitVec.ofNat 11 biased) (BitVec.ofNat 52 m)
      else packComponents Format.binary64 sign 0#11 (BitVec.ofNat 52 m) := by
  have hbias : Format.binary64.exponentBias = 1023 := rfl
  obtain rfl : biased = (e + Format.binary64.exponentBias + (52 : Nat)).toNat := by omega
  rfl

theorem unpack_packedInfinity (sign : Sign) :
    ∃ sign', UnpackedFloat.unpack Format.binary64 (packedInfinity Format.binary64 sign) =
      .infinity sign' :=
  ⟨_, (if_pos unpackExponent_packComponents).trans (if_pos unpackMantissa_packComponents)⟩

/-- Exponents other than the two that stand for something else are of doubles with 53 bits. -/
theorem unpack_of_exponent {b : BitVec Format.binary64.numBits} {m : Nat} {e : Int}
    (hmax : unpackExponent b ≠ -1#11) (hzero : unpackExponent b ≠ 0#11)
    (hmantissa : (1#1 ++ unpackMantissa b).toNat = m)
    (hexponent : ((unpackExponent b).toNat : Int) - 1075 = e) :
    ∃ sign hm, UnpackedFloat.unpack Format.binary64 b = .finite sign m e hm := by
  subst hmantissa hexponent
  exact ⟨_, _, (if_neg hmax).trans (if_neg hzero)⟩

theorem unpack_pack_eq (x : UnpackedFloat) : (Float.Model.pack x).unpack =
    UnpackedFloat.unpack Format.binary64 (UnpackedFloat.pack Format.binary64 x) := rfl

/-- A mantissa of 53 bits is packed without its first bit, and unpacked with it. -/
theorem unpack_pack (sign : Sign) {m : Nat} {e : Int} (hm : 0 < m) (hlow : 2 ^ 52 ≤ m)
    (hhigh : m < 2 ^ 53) (he : -1074 ≤ e) (he' : e < 972) :
    ∃ sign' hm', (Float.Model.pack (.finite sign m e hm)).unpack = .finite sign' m e hm' := by
  have hbits : m.log2 = 52 := (Nat.log2_eq_iff (by omega)).2 ⟨hlow, hhigh⟩
  obtain ⟨biased, hbiased⟩ := Int.eq_ofNat_of_zero_le (show 0 ≤ e + 1075 by omega)
  have hexponent : (BitVec.ofNat 11 biased).toNat = biased := by
    rw [BitVec.toNat_ofNat, Nat.mod_eq_of_lt (by omega)]
  have hne : ∀ c : BitVec 11, c.toNat ≠ biased → BitVec.ofNat 11 biased ≠ c := by
    rintro _ hc rfl
    exact hc hexponent
  have hmax : BitVec.ofNat 11 biased ≠ -1#11 :=
    hne _ (by simp only [BitVec.reduceNeg, BitVec.reduceToNat]; omega)
  have hzero : BitVec.ofNat 11 biased ≠ 0#11 := hne _ (by simp only [BitVec.reduceToNat]; omega)
  have hmantissa : (1#1 ++ BitVec.ofNat 52 m).toNat = m := by
    rw [BitVec.toNat_append, BitVec.toNat_ofNat, BitVec.toNat_ofNat,
      ← Nat.shiftLeft_add_eq_or_of_lt (Nat.mod_lt m (Nat.two_pow_pos 52)), Nat.shiftLeft_eq]
    omega
  rw [unpack_pack_eq, pack_finite sign hm hbiased, if_neg (by omega), if_pos (by rw [hbits])]
  refine unpack_of_exponent ?_ ?_ ?_ ?_
  · rwa [unpackExponent_packComponents]
  · rwa [unpackExponent_packComponents]
  · rwa [unpackMantissa_packComponents]
  · rw [unpackExponent_packComponents, hexponent]
    omega

theorem isInf_pack (sign : Sign) {m : Nat} {e : Int} (hm : 0 < m) (hlow : 2 ^ 52 ≤ m)
    (hhigh : m < 2 ^ 53) (he : -1074 ≤ e) :
    (Float.Model.pack (.finite sign m e hm)).isInf = decide (972 ≤ e) := by
  rw [Float.Model.isInf]
  by_cases hmax : 972 ≤ e
  · obtain ⟨biased, hbiased⟩ := Int.eq_ofNat_of_zero_le (show 0 ≤ e + 1075 by omega)
    obtain ⟨sign', hunpack⟩ := unpack_packedInfinity sign
    rw [unpack_pack_eq, pack_finite sign hm hbiased, if_pos (by omega), hunpack,
      decide_eq_true hmax]
    rfl
  · obtain ⟨sign', hm', hunpack⟩ := unpack_pack sign hm hlow hhigh he (by omega)
    rw [hunpack, decide_eq_false hmax]
    rfl

/-- A double with a mantissa of 53 bits, by its number of units of `2 ^ -52`. -/
def Measures (f : Float) (units : Nat) : Prop :=
  ∃ (sign : Sign) (m i : Nat) (hm : 0 < m), f.toModel.unpack = .finite sign m ((i : Int) - 52) hm ∧
    2 ^ 52 ≤ m ∧ m < 2 ^ 53 ∧ m * 2 ^ i = units

theorem two_pow_le_mul_iff {r n x : Nat} (hlow : 2 ^ 52 ≤ r) (hhigh : r < 2 ^ 53) :
    2 ^ x ≤ r * 2 ^ n ↔ x ≤ 52 + n := by
  constructor
  · intro h
    have hlt : 2 ^ x < 2 ^ (53 + n) := by
      rw [Nat.pow_add]
      exact Nat.lt_of_le_of_lt h (Nat.mul_lt_mul_of_pos_right hhigh (Nat.two_pow_pos n))
    have := (Nat.pow_lt_pow_iff_right (by decide)).1 hlt
    omega
  · intro h
    calc 2 ^ x ≤ 2 ^ (52 + n) := Nat.pow_le_pow_right (by decide) h
      _ = 2 ^ 52 * 2 ^ n := Nat.pow_add 2 52 n
      _ ≤ r * 2 ^ n := Nat.mul_le_mul_right _ hlow

theorem mul_finite (sign sign' : Sign) {m m' : Nat} (e e' : Int) (hm : 0 < m) (hm' : 0 < m') :
    UnpackedFloat.mul Format.binary64 (.finite sign m e hm) (.finite sign' m' e' hm') =
      roundWithAccuracy Format.binary64 (sign * sign') (m * m') (e + e') .exact := rfl

theorem isInf_mul {f g : Float} {a b : Nat} (hf : Measures f a) (hg : Measures g b) :
    (f * g).isInf = decide (2 ^ 1128 ≤ rounded (a * b)) := by
  obtain ⟨sign, m, i, hm, hunpack, hlow, hhigh, rfl⟩ := hf
  obtain ⟨sign', m', i', hm', hunpack', hlow', hhigh', rfl⟩ := hg
  have hproduct : 2 ^ 52 ≤ m * m' := Nat.le_trans hlow (Nat.le_mul_of_pos_right m hm')
  obtain ⟨r, k, hr, hround, hrlow, hrhigh, hrounded⟩ := roundWithAccuracy_exact (sign * sign')
    (e := ((i : Int) - 52) + ((i' : Int) - 52)) hproduct (by omega)
  have hmul : (f * g).isInf = (Float.Model.pack (.finite (sign * sign') r
      (((i : Int) - 52) + ((i' : Int) - 52) + k) hr)).isInf := by
    change (Float.Model.pack
      (UnpackedFloat.mul Format.binary64 f.toModel.unpack g.toModel.unpack)).isInf = _
    rw [hunpack, hunpack', mul_finite, hround]
  have hunits : rounded (m * 2 ^ i * (m' * 2 ^ i')) = r * 2 ^ (k + i + i') := by
    rw [Nat.mul_mul_mul_comm, ← Nat.pow_add, rounded_mul hproduct, ← hrounded, Nat.mul_assoc,
      ← Nat.pow_add, Nat.add_assoc]
  rw [hmul, isInf_pack _ hr hrlow hrhigh (by omega), hunits]
  refine decide_eq_decide.2 (Iff.trans ?_ (two_pow_le_mul_iff (x := 1128) hrlow hrhigh).symm)
  omega

theorem measures_pack (sign : Sign) {r i units x : Nat} (hr : 0 < r) (hlow : 2 ^ 52 ≤ r)
    (hhigh : r < 2 ^ 53) (hunits : r * 2 ^ i = units) (hbound : units < 2 ^ x) (hx : x ≤ 1076) :
    Measures (.ofModel (Float.Model.pack (.finite sign r ((i : Int) - 52) hr))) units := by
  have hi : ¬x ≤ 52 + i := by
    rw [← two_pow_le_mul_iff hlow hhigh, hunits]
    exact Nat.not_le.2 hbound
  obtain ⟨sign', hr', hunpack⟩ :=
    unpack_pack sign hr hlow hhigh (show -1074 ≤ (i : Int) - 52 by omega) (by omega)
  exact ⟨sign', r, i, hr', hunpack, hlow, hhigh, hunits⟩

theorem rounded_lt {m x : Nat} (hm : 2 ^ 52 ≤ m) (h : m < 2 ^ x) : rounded m < 2 ^ (x + 1) := by
  have hlog : m.log2 < x := (Nat.log2_lt (by omega)).2 h
  have h52 : 52 ≤ m.log2 := (Nat.le_log2 (by omega)).2 hm
  calc rounded m ≤ 2 ^ 53 * 2 ^ (m.log2 - 52) := Nat.mul_le_mul_right _ (nearest_bounds hm).2
    _ = 2 ^ (m.log2 + 1) := by rw [← Nat.pow_add]; congr 1; omega
    _ < 2 ^ (x + 1) := Nat.pow_lt_pow_right (by decide) (by omega)

/-- As many powers of two as leave 53 bits or more are taken in, and then the number is rounded. -/
theorem measures_toFloat {s : Nat} (hpos : 0 < s) (hs : s < Numeral.wordBound) :
    Measures (UInt64.ofNat s).toFloat (rounded (s * 2 ^ 52)) := by
  obtain ⟨a, ha⟩ : ∃ a, a = 52 - s.log2 := ⟨_, rfl⟩
  have hbits : 2 ^ 52 ≤ s * 2 ^ a := by
    calc 2 ^ 52 ≤ 2 ^ (s.log2 + a) := Nat.pow_le_pow_right (by decide) (by omega)
      _ = 2 ^ s.log2 * 2 ^ a := Nat.pow_add 2 _ _
      _ ≤ s * 2 ^ a := Nat.mul_le_mul_right _ (Nat.log2_self_le (by omega))
  obtain ⟨r, i, hr, hround, hlow, hhigh, hunits⟩ :=
    roundWithAccuracy_exact .positive (e := 0 - (a : Int)) hbits (by omega)
  have hmodel : (UInt64.ofNat s).toFloat =
      .ofModel (Float.Model.pack (.finite .positive r (((i + (52 - a) : Nat) : Int) - 52) hr)) := by
    have htarget : (0 - Format.binary64.targetExponent (totalExponent s 0)).toNat = a := by
      rw [targetExponent_totalExponent]
      omega
    have hcompare : compare (s : Int) 0 = .gt := Int.compare_eq_gt.2 (by omega)
    have hnormal : UnpackedFloat.normalize Format.binary64 s 0 .positive =
        roundWithAccuracy Format.binary64 .positive (s * 2 ^ a) (0 - a) .exact := by
      rw [UnpackedFloat.normalize, hcompare]
      simp only [UnpackedFloat.round, decreaseExponent, Int.toNat_natCast, htarget,
        Nat.shiftLeft_eq]
    have hexponent : ((i + (52 - a) : Nat) : Int) - 52 = 0 - a + i := by omega
    change Float.ofModel (Float.Model.pack
      (UnpackedFloat.normalize Format.binary64 ((UInt64.ofNat s).toNat : Int) 0 .positive)) = _
    rw [UInt64.toNat_ofNat_of_lt' hs, hnormal, hround, hexponent]
  have hrounded : r * 2 ^ (i + (52 - a)) = rounded (s * 2 ^ 52) := by
    rw [Nat.pow_add, ← Nat.mul_assoc, hunits, ← rounded_mul hbits, Nat.mul_assoc, ← Nat.pow_add,
      Nat.add_sub_cancel' (by omega)]
  have hbound : s * 2 ^ 52 < 2 ^ 116 := Nat.mul_lt_mul_of_pos_right hs (Nat.two_pow_pos 52)
  rw [hmodel]
  exact measures_pack _ hr hlow hhigh hrounded (rounded_lt (Nat.le_mul_of_pos_left _ hpos) hbound)
    (by decide)

def units? : UnpackedFloat → Option Nat
  | .finite _ m e _ =>
    if 2 ^ 52 ≤ m ∧ m < 2 ^ 53 ∧ -52 ≤ e then some (m * 2 ^ (e + 52).toNat) else none
  | _ => none

theorem units?_finite (sign : Sign) {m : Nat} (e : Int) (hm : 0 < m) :
    units? (.finite sign m e hm) =
      if 2 ^ 52 ≤ m ∧ m < 2 ^ 53 ∧ -52 ≤ e then some (m * 2 ^ (e + 52).toNat) else none := rfl

theorem measures_of_units? {f : Float} {units : Nat} (h : units? f.toModel.unpack = some units) :
    Measures f units := by
  cases hunpack : f.toModel.unpack with
  | finite sign m e hm =>
    rw [hunpack, units?_finite] at h
    split at h
    · next hbounds =>
      obtain ⟨hlow, hhigh, he⟩ := hbounds
      refine ⟨sign, m, (e + 52).toNat, hm, ?_, hlow, hhigh, Option.some.inj h⟩
      have hexponent : ((e + 52).toNat : Int) - 52 = e := by omega
      rw [hunpack, hexponent]
    · cases h
  | _ => rw [hunpack] at h; cases h

/-- Up to the power 22 the doubles are those of a table, and from there on they are rounded. -/
theorem measures_powerOfTen {k : Nat} (hk : k ≤ 308) :
    Measures (powerOfTen k) (rounded (10 ^ k * 2 ^ 52)) := by
  by_cases htable : k ≤ 22
  · have hall : ∀ k < 23, units? (powerOfTen k).toModel.unpack =
        some (rounded (10 ^ k * 2 ^ 52)) := by decide +kernel
    exact measures_of_units? (hall k (by omega))
  have hbits : 2 ^ 52 ≤ 10 ^ k * 2 ^ 52 := Nat.le_mul_of_pos_left _ (Nat.pow_pos (by decide))
  have hbits' : 2 ^ 52 ≤ 10 ^ k * 2 ^ 52 * 2 ^ 1 :=
    Nat.le_trans hbits (Nat.le_mul_of_pos_right _ (by decide))
  obtain ⟨r, i, hr, hround, hlow, hhigh, hunits⟩ :=
    roundWithAccuracy_exact .positive (e := -53) hbits' (by omega)
  rw [rounded_mul hbits] at hunits
  have hi : i ≠ 0 := by
    rintro rfl
    have := le_rounded hbits
    omega
  have hmodel : powerOfTen k =
      .ofModel (Float.Model.pack (.finite .positive r (((i - 1 : Nat) : Int) - 52) hr)) := by
    have hscientific : UnpackedFloat.ofScientific Format.binary64 1 k =
        roundWithAccuracy Format.binary64 .positive (10 ^ k * 2 ^ 52 * 2 ^ 1) (-53) .exact := by
      have hmantissa : 1 <<< Format.binary64.mantissaBits * 10 ^ (k : Int).toNat =
          10 ^ k * 2 ^ 52 * 2 ^ 1 := by
        rw [Int.toNat_natCast, Nat.mul_comm, Nat.mul_assoc]
        rfl
      rw [UnpackedFloat.ofScientific, dif_neg (by decide), if_neg (by simp only; omega),
        if_neg (by simp; omega), if_pos (by omega), mul_finite, hmantissa]
      rfl
    have hpower : powerOfTen k =
        .ofModel (Float.Model.pack (UnpackedFloat.ofScientific Format.binary64 1 k)) := by
      rw [powerOfTen, Float.ofScientific, dif_neg (by omega)]
      rfl
    have hexponent : ((i - 1 : Nat) : Int) - 52 = -53 + i := by omega
    rw [hpower, hscientific, hround, hexponent]
  have hrounded : r * 2 ^ (i - 1) = rounded (10 ^ k * 2 ^ 52) := by
    apply Nat.mul_right_cancel (Nat.two_pow_pos 1)
    rw [Nat.mul_assoc, ← Nat.pow_add, Nat.sub_add_cancel (by omega), hunits]
  rw [hmodel]
  obtain ⟨last, hle, hlast⟩ : ∃ x, k ≤ x ∧ rounded (10 ^ x * 2 ^ 52) < 2 ^ 1076 :=
    ⟨308, hk, by decide +kernel⟩
  have hbound : rounded (10 ^ k * 2 ^ 52) < 2 ^ 1076 :=
    Nat.lt_of_le_of_lt
      (rounded_mono hbits (Nat.mul_le_mul_right _ (Nat.pow_le_pow_right (by decide) hle))) hlast
  exact measures_pack _ hr hlow hhigh hrounded hbound (by decide)

/-! ## Which numbers have a double -/

def largestDouble : Nat := (2 ^ 53 - 1) * 2 ^ 971

/-- A factor of 64 bits up to which the product with `10 ^ k` is finite. Where both roundings go up,
it is less than the largest double divided by the power. -/
def largestFactor (k : Nat) : Nat :=
  if k < 289 then Numeral.wordBound - 1
  else if k = 289 then 17976931348623156224
  else if k = 290 then 1797693134862315648
  else largestDouble / 10 ^ k

/-- The product of a factor and a power of ten, each rounded before and both after, in
units of `2 ^ -104`. -/
def productUnits (s k : Nat) : Nat := rounded (rounded (s * 2 ^ 52) * rounded (10 ^ k * 2 ^ 52))

theorem productUnits_mono {s s' k k' : Nat} (hpos : 0 < s) (hs : s ≤ s') (hk : k ≤ k') :
    productUnits s k ≤ productUnits s' k' := by
  have hfactor : 2 ^ 52 ≤ s * 2 ^ 52 := Nat.le_mul_of_pos_left _ hpos
  have hpower : 2 ^ 52 ≤ 10 ^ k * 2 ^ 52 := Nat.le_mul_of_pos_left _ (Nat.pow_pos (by decide))
  apply rounded_mono
  · exact Nat.le_trans (le_rounded hfactor)
      (Nat.le_mul_of_pos_right _ (by have := le_rounded hpower; omega))
  · apply Nat.mul_le_mul
    · exact rounded_mono hfactor (Nat.mul_le_mul_right _ hs)
    · exact rounded_mono hpower (Nat.mul_le_mul_right _ (Nat.pow_le_pow_right (by decide) hk))

theorem largestFactor_lt {k : Nat} (hk : k ≤ 308) : largestFactor k < Numeral.wordBound := by
  have hall : ∀ k < 309, largestFactor k < Numeral.wordBound := by decide +kernel
  exact hall k (by omega)

/-- It is computed from the power 288 on, below which no factor of 64 bits is too large. -/
theorem productUnits_lt {s k : Nat} (hpos : 0 < s) (hs : s ≤ largestFactor k) (hk : k ≤ 308) :
    productUnits s k < 2 ^ 1128 := by
  have hall : ∀ i < 21, productUnits (largestFactor (288 + i)) (288 + i) < 2 ^ 1128 := by
    decide +kernel
  by_cases hsmall : k ≤ 288
  · have hword : largestFactor k ≤ largestFactor 288 := by
      rw [largestFactor, if_pos (by omega)]
      exact Nat.le_refl _
    exact Nat.lt_of_le_of_lt (productUnits_mono hpos (Nat.le_trans hs hword) hsmall)
      (hall 0 (by decide))
  · have hlast := hall (k - 288) (by omega)
    rw [show 288 + (k - 288) = k by omega] at hlast
    exact Nat.lt_of_le_of_lt (productUnits_mono hpos hs (Nat.le_refl k)) hlast

theorem isInf_zero_mul {k : Nat} (hk : k ≤ 308) :
    ((UInt64.ofNat 0).toFloat * powerOfTen k).isInf = false := by
  obtain ⟨sign, m, i, hm, hunpack, -⟩ := measures_powerOfTen hk
  change (Float.Model.pack (UnpackedFloat.mul Format.binary64 (UnpackedFloat.zero .positive)
    (powerOfTen k).toModel.unpack)).isInf = false
  have hzero : UnpackedFloat.mul Format.binary64 (.zero .positive)
      (.finite sign m ((i : Int) - 52) hm) = .zero (.positive * sign) := rfl
  rw [hunpack, hzero]
  cases sign <;> rfl

theorem exists_double? {s : Nat} {e : Int}
    (h : s = 0 ∨ e < 0 ∨ e ≤ 308 ∧ s ≤ largestFactor e.toNat) : ∃ f, double? s e = some f := by
  by_cases hneg : e < 0
  · exact ⟨_, by rw [double?, if_pos hneg]⟩
  by_cases hle : e ≤ 308
  · have hfinite : ((UInt64.ofNat s).toFloat * powerOfTen e.toNat).isInf = false := by
      rcases Nat.eq_zero_or_pos s with rfl | hpos
      · exact isInf_zero_mul (by omega)
      · have hs : s ≤ largestFactor e.toNat := by omega
        have hk : e.toNat ≤ 308 := by omega
        rw [isInf_mul (measures_toFloat hpos (Nat.lt_of_le_of_lt hs (largestFactor_lt hk)))
          (measures_powerOfTen hk)]
        exact decide_eq_false (Nat.not_le.2 (productUnits_lt hpos hs hk))
    exact ⟨_,
      by simp only [double?, if_neg hneg, if_pos hle, hfinite, Bool.false_eq_true, if_false]; rfl⟩
  · obtain rfl : s = 0 := by omega
    exact ⟨_, by rw [double?, if_neg hneg, if_neg hle]; rfl⟩

end SchemaWalk.Json
