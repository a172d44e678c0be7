import Mathlib.Algebra.Order.Field.Power
import PoseLang.Proofs.Number.Decimal

/-!
# Sums of times

A time is a float without a sign, perhaps infinity (`IsTime`). Times are ordered as their bits are, and a sum of
times is the float nearest to the exact sum. The bits go on above infinity, so infinity counts as the number that its
bits would stand for: a sum with it is nearest to bits that are at least as great, and so it is infinity again.

What is proved:

* no number is rounded to a float that is less than that of a smaller number (`IsNearest.mono`);
* a sum of times is the nearest time (`IsTime.exists_toNat_add`), so it is a time (`IsTime.add`), it does not run
  backwards when a part grows (`IsTime.add_le_add`), and it is not before its parts (`IsTime.le_add_right`);
* nothing is lost in a sum with zero but the sign of zero (`float_add_zero`), and a sum is zero with a sign only if
  both its parts are (`add_ne_neg_zero`);
* sums of different times with a third one may be rounded to one time (`Merges`); then the times are no farther from
  each other than the sum divided by `2 ^ 52` (`IsTime.sub_le_of_merges`).
-/

namespace PoseLang

open Float.Model (UnpackedFloat Format)

/-! ### Exact sums -/

/-- A number that is some mantissa at some exponent is rounded to the nearest bits. -/
theorem toNat_pack_round (s : UnpackedFloat.Sign) {m : ℕ} (hpos : 0 < m) (e : ℤ) :
    ∃ bits, IsNearest bits (m * 2 ^ e) ∧ (UnpackedFloat.pack Format.binary64
      (UnpackedFloat.round Format.binary64 s m e)).toNat = signBit s + min bits infinityBits := by
  obtain ⟨k, hk⟩ : ∃ k : ℕ, (e - max (m.log2 + e - 52) (-1074)).toNat = k := ⟨_, rfl⟩
  have hlarge : 2 ^ 52 ≤ m * 2 ^ k ∨ e - k ≤ -1074 := by
    by_cases hsmall : e - k ≤ -1074
    · exact .inr hsmall
    · left
      calc
        2 ^ 52 ≤ 2 ^ (m.log2 + k) := Nat.pow_le_pow_right Nat.two_pos (by omega)
        _ = 2 ^ m.log2 * 2 ^ k := Nat.pow_add ..
        _ ≤ m * 2 ^ k := Nat.mul_le_mul_right _ (Nat.log2_self_le hpos.ne')
  have hvalue : ((m * 2 ^ k : ℕ) : ℚ) * 2 ^ (e - k) = m * 2 ^ e := by
    rw [zpow_sub₀ two_ne_zero, zpow_natCast]
    push_cast
    field_simp
  have hbits := toNat_pack_roundWithAccuracy s (e - k) (shows_exact (m * 2 ^ k)) hlarge
  rw [hvalue] at hbits
  unfold UnpackedFloat.round UnpackedFloat.decreaseExponent
  rw [targetExponent_eq]
  dsimp only
  rw [hk, Nat.shiftLeft_eq]
  exact hbits

/-- Addition gives the bits of the number nearest to the sum. -/
theorem toNat_pack_add {m₁ m₂ : ℕ} (e₁ e₂ : ℤ) (h₁ : 0 < m₁) (h₂ : 0 < m₂) :
    ∃ bits, IsNearest bits (m₁ * 2 ^ e₁ + m₂ * 2 ^ e₂) ∧
      (UnpackedFloat.pack Format.binary64 (UnpackedFloat.add Format.binary64 (.finite .positive m₁ e₁ h₁)
        (.finite .positive m₂ e₂ h₂))).toNat = min bits infinityBits := by
  obtain ⟨e, he⟩ : ∃ e, min e₁ e₂ = e := ⟨_, rfl⟩
  obtain ⟨k₁, hk₁, hk₁'⟩ : ∃ k : ℕ, (e₁ - e).toNat = k ∧ e₁ = e + k := ⟨_, rfl, by omega⟩
  obtain ⟨k₂, hk₂, hk₂'⟩ : ∃ k : ℕ, (e₂ - e).toNat = k ∧ e₂ = e + k := ⟨_, rfl, by omega⟩
  have hpos : 0 < m₁ * 2 ^ k₁ + m₂ * 2 ^ k₂ := by positivity
  have hvalue : ((m₁ * 2 ^ k₁ + m₂ * 2 ^ k₂ : ℕ) : ℚ) * 2 ^ e = m₁ * 2 ^ e₁ + m₂ * 2 ^ e₂ := by
    rw [hk₁', hk₂', zpow_add₀ two_ne_zero, zpow_add₀ two_ne_zero, zpow_natCast, zpow_natCast]
    push_cast
    ring
  have hbits := toNat_pack_round .positive hpos e
  simp only [signBit, Nat.zero_add, hvalue] at hbits
  have hsum : UnpackedFloat.normalize Format.binary64
      ((m₁ * 2 ^ k₁ : ℕ) + (m₂ * 2 ^ k₂ : ℕ) : ℤ) e .positive =
      UnpackedFloat.round Format.binary64 .positive (m₁ * 2 ^ k₁ + m₂ * 2 ^ k₂) e := by
    unfold UnpackedFloat.normalize
    rw [← Nat.cast_add, Int.compare_eq_gt.mpr (by exact_mod_cast hpos), Int.toNat_natCast]
  unfold UnpackedFloat.add UnpackedFloat.decreaseExponent
  dsimp only
  rw [he, hk₁, hk₂, Nat.shiftLeft_eq, Nat.shiftLeft_eq, apply_positive, apply_positive, hsum]
  exact hbits

namespace IsNearest

theorem self (bits : ℕ) : IsNearest bits (bitsValue bits) := by
  constructor
  · intro b
    rw [sub_self, abs_zero]
    exact abs_nonneg _
  · intro b hb heq
    rw [sub_self, abs_zero, abs_eq_zero, sub_eq_zero] at heq
    exact absurd (strictMono_bitsValue.injective heq) hb

/-- A number is not below the middle between its nearest bits and any lower ones. -/
theorem middle_le {bits b : ℕ} {q : ℚ} (h : IsNearest bits q) (hlt : b < bits) :
    bitsValue b + bitsValue bits ≤ 2 * q := by
  have hvalue := strictMono_bitsValue hlt
  by_contra hq
  have hnear : |bitsValue b - q| < bitsValue bits - q := abs_lt.mpr ⟨by linarith, by linarith⟩
  exact absurd (h.le b) (not_le.mpr (hnear.trans_le (le_abs_self _)))

/-- A number is not above the middle between its nearest bits and any higher ones. -/
theorem le_middle {bits b : ℕ} {q : ℚ} (h : IsNearest bits q) (hlt : bits < b) :
    2 * q ≤ bitsValue bits + bitsValue b := by
  have hvalue := strictMono_bitsValue hlt
  by_contra hq
  have hnear : |bitsValue b - q| < -(bitsValue bits - q) := abs_lt.mpr ⟨by linarith, by linarith⟩
  exact absurd (h.le b) (not_le.mpr (hnear.trans_le (neg_le_abs _)))

/-- A greater number has greater nearest bits, or the same. -/
theorem mono {bits bits' : ℕ} {q q' : ℚ} (hq : q ≤ q') (h : IsNearest bits q) (h' : IsNearest bits' q') :
    bits ≤ bits' := by
  by_contra hlt
  have hge := h.middle_le (Nat.lt_of_not_le hlt)
  have hle := h'.le_middle (Nat.lt_of_not_le hlt)
  -- Neither number is on the wrong side of the middle, so both are the middle.
  obtain rfl : q = q' := by linarith
  exact hlt (h.unique h').le

end IsNearest

/-- Every number of some bits is a multiple of the least one. -/
theorem exists_bitsValue_eq_mul (bits : ℕ) : ∃ n : ℕ, bitsValue bits = n * 2 ^ (-1074 : ℤ) := by
  obtain ⟨t, m, rfl, hm, hcanon⟩ := exists_canonical bits
  refine ⟨m * 2 ^ t, ?_⟩
  rw [bitsValue_eq hm.le hcanon, sub_eq_add_neg, zpow_add₀ two_ne_zero, zpow_natCast, ← mul_assoc,
    Nat.cast_mul, Nat.cast_pow, Nat.cast_ofNat]

/-- A sum of numbers of some bits has nearest bits. -/
theorem exists_isNearest_add (b c : ℕ) : ∃ bits, IsNearest bits (bitsValue b + bitsValue c) := by
  obtain ⟨m, hm⟩ := exists_bitsValue_eq_mul b
  obtain ⟨n, hn⟩ := exists_bitsValue_eq_mul c
  rw [hm, hn, ← add_mul, ← Nat.cast_add]
  rcases Nat.eq_zero_or_pos (m + n) with hzero | hpos
  · rw [hzero, Nat.cast_zero, zero_mul]
    exact ⟨0, isNearest_zero le_rfl (two_zpow_pos _).le⟩
  · obtain ⟨bits, hnear, -⟩ := toNat_pack_round .positive hpos (-1074)
    exact ⟨bits, hnear⟩

theorem bitsValue_nonneg (bits : ℕ) : 0 ≤ bitsValue bits := by
  obtain ⟨n, hn⟩ := exists_bitsValue_eq_mul bits
  rw [hn]
  positivity

theorem bitsValue_zero : bitsValue 0 = 0 := by
  simp [bitsValue]

/-! ### Times -/

/-- A number without a sign, perhaps infinity. -/
def IsTime (x : Float) : Prop := x.toBits.toNat ≤ infinityBits

/-- The time after all others. -/
def infinity : Float := .ofModel (Float.Model.pack (.infinity .positive))

theorem toNat_infinity : infinity.toBits.toNat = infinityBits := by decide

theorem unpack_infinity : infinity.toModel.unpack = .infinity .positive := rfl

theorem unpack_zero : (0 : Float).toModel.unpack = .zero .positive := rfl

theorem toNat_zero : (0 : Float).toBits.toNat = 0 := by decide

theorem IsMagnitude.isTime {x : Float} (h : IsMagnitude x) : IsTime x := (isMagnitude_iff.mp h).le

theorem isTime_zero : IsTime 0 := by
  rw [IsTime, toNat_zero]
  exact Nat.zero_le _

theorem eq_of_toNat {x y : Float} (h : x.toBits.toNat = y.toBits.toNat) : x = y :=
  eq_of_toBits (UInt64.toNat_inj.mp h)

/-- A time is zero, or positive and finite, or infinity. -/
theorem IsTime.cases {x : Float} (h : IsTime x) :
    x = 0 ∨ (0 < x.toBits.toNat ∧ x.toBits.toNat < infinityBits) ∨ x = infinity := by
  rcases Nat.eq_zero_or_pos x.toBits.toNat with hzero | hpos
  · exact .inl (eq_of_toNat (hzero.trans toNat_zero.symm))
  · rcases Nat.lt_or_eq_of_le h with hlt | heq
    · exact .inr (.inl ⟨hpos, hlt⟩)
    · exact .inr (.inr (eq_of_toNat (heq.trans toNat_infinity.symm)))

theorem le_iff_of_isNumber {x y : Float} (hx : IsNumber x) (hy : IsNumber y) :
    x ≤ y ↔ signedBits x ≤ signedBits y := by
  have hle : x ≤ y ↔ (x.toModel.unpack.compare y.toModel.unpack).any (·.isLE) = true := decide_eq_true_iff
  rw [hle, compare_eq hx hy, Option.any_some]
  exact Int.isLE_compare

namespace IsTime

variable {x y z : Float}

/-- The parts of a time. -/
theorem unpack_cases (h : IsTime x) : x.toModel.unpack = .zero .positive ∨
    (∃ m e hm, x.toModel.unpack = .finite .positive m e hm) ∨ x.toModel.unpack = .infinity .positive := by
  rcases h.cases with rfl | ⟨hpos, hlt⟩ | rfl
  · exact .inl unpack_zero
  · obtain ⟨m, e, hm, hx, -⟩ := exists_unpack_eq_finite hpos hlt
    exact .inr (.inl ⟨m, e, hm, hx⟩)
  · exact .inr (.inr unpack_infinity)

theorem isNumber (h : IsTime x) : IsNumber x := by
  unfold IsNumber
  rcases h.unpack_cases with hx | ⟨m, e, hm, hx⟩ | hx <;> rw [hx] <;> nofun

theorem isNaN_eq_false (h : IsTime x) : x.isNaN = false := by
  unfold Float.isNaN Float.Model.isNaN
  rcases h.unpack_cases with hx | ⟨m, e, hm, hx⟩ | hx <;> rw [hx] <;> rfl

theorem signedBits_eq (h : IsTime x) : signedBits x = x.toBits.toNat := by
  have hlt : x.toBits.toNat < 2 ^ 63 := h.trans_lt (by decide)
  rw [signedBits, signOf, if_pos hlt, unsignedBits_of_lt hlt]
  rfl

/-- Times are ordered as their bits are. -/
theorem le_iff (hx : IsTime x) (hy : IsTime y) : x ≤ y ↔ x.toBits.toNat ≤ y.toBits.toNat := by
  rw [le_iff_of_isNumber hx.isNumber hy.isNumber, hx.signedBits_eq, hy.signedBits_eq, Int.ofNat_le]

theorem lt_iff (hx : IsTime x) (hy : IsTime y) : x < y ↔ x.toBits.toNat < y.toBits.toNat := by
  rw [PoseLang.lt_iff, hx.signedBits_eq, hy.signedBits_eq, Int.ofNat_lt]
  exact ⟨fun h => h.2.2, fun h => ⟨hx.isNumber, hy.isNumber, h⟩⟩

theorem le_of_lt (hx : IsTime x) (hy : IsTime y) (h : x < y) : x ≤ y :=
  (hx.le_iff hy).mpr ((hx.lt_iff hy).mp h).le

theorem zero_le (h : IsTime x) : 0 ≤ x := by
  rw [isTime_zero.le_iff h, toNat_zero]
  exact Nat.zero_le _

theorem beq_iff (hx : IsTime x) (hy : IsTime y) : (x == y) = true ↔ x = y := by
  rw [PoseLang.beq_iff hx.isNumber hy.isNumber, hx.signedBits_eq, hy.signedBits_eq, Int.ofNat_inj]
  exact ⟨eq_of_toNat, fun h => h ▸ rfl⟩

/-- Times are sorted as they are ordered. -/
theorem orderKey_le_iff (hx : IsTime x) (hy : IsTime y) : orderKey x ≤ orderKey y ↔ x ≤ y := by
  have hx' : x.toBits.toNat < 1 <<< 63 := Nat.lt_of_le_of_lt hx (by decide)
  have hy' : y.toBits.toNat < 1 <<< 63 := Nat.lt_of_le_of_lt hy (by decide)
  rw [hx.le_iff hy, orderKey, orderKey, if_pos hx', if_pos hy', Nat.add_le_add_iff_left]

theorem le_refl (h : IsTime x) : x ≤ x := (h.le_iff h).mpr (Nat.le_refl _)

theorem le_trans (hx : IsTime x) (hy : IsTime y) (hz : IsTime z) (hxy : x ≤ y) (hyz : y ≤ z) : x ≤ z := by
  rw [hx.le_iff hy] at hxy
  rw [hy.le_iff hz] at hyz
  rw [hx.le_iff hz]
  exact hxy.trans hyz

end IsTime

/-! ### Sums -/

theorem toNat_add (x y : Float) : (x + y).toBits.toNat = (UnpackedFloat.pack Format.binary64
    (UnpackedFloat.add Format.binary64 x.toModel.unpack y.toModel.unpack)).toNat := rfl

theorem float_add_comm (x y : Float) : x + y = y + x := by
  refine eq_of_toNat ?_
  rw [toNat_add, toNat_add]
  congr 2
  cases x.toModel.unpack with
  | notANumber => cases y.toModel.unpack <;> rfl
  | infinity s =>
    cases y.toModel.unpack with
    | infinity s' => cases s <;> cases s' <;> rfl
    | notANumber => rfl
    | zero => rfl
    | finite => rfl
  | zero s =>
    cases y.toModel.unpack with
    | zero s' => cases s <;> cases s' <;> rfl
    | notANumber => rfl
    | infinity => rfl
    | finite => rfl
  | finite s m e hm =>
    cases y.toModel.unpack with
    | finite s' m' e' hm' =>
      unfold UnpackedFloat.add
      dsimp only
      rw [min_comm e e', Int.add_comm]
    | notANumber => rfl
    | infinity => rfl
    | zero => rfl

/-! ### Sums with zero -/

theorem toNat_neg_zero : (-0 : Float).toBits.toNat = 2 ^ 63 := by decide

theorem eq_neg_zero_iff {x : Float} : x = -0 ↔ x.toModel.unpack = .zero .negative := by
  constructor
  · rintro rfl
    rfl
  · intro h
    refine eq_of_toNat ?_
    rw [← toNat_pack_unpack x, h, toNat_neg_zero]
    decide

/-- Nothing is lost in a sum with zero, but for the sign of zero. -/
theorem float_add_zero {x : Float} (h : x ≠ -0) : x + 0 = x := by
  refine eq_of_toNat ?_
  rw [toNat_add, unpack_zero, ← toNat_pack_unpack x]
  cases hx : x.toModel.unpack with
  | notANumber => rfl
  | infinity s => rfl
  | zero s =>
    cases s with
    | positive => rfl
    | negative => exact absurd (eq_neg_zero_iff.mpr hx) h
  | finite s m e hm => rfl

/-- What is above zero is not rounded to zero, at the exponents that floats have. -/
theorem toNat_pack_round_ne (s : UnpackedFloat.Sign) {m : ℕ} (hpos : 0 < m) {e : ℤ} (he : -1074 ≤ e) :
    (UnpackedFloat.pack Format.binary64 (UnpackedFloat.round Format.binary64 s m e)).toNat ≠ 2 ^ 63 := by
  obtain ⟨bits, hnear, hbits⟩ := toNat_pack_round s hpos e
  have hleast : bitsValue 1 = 2 ^ (-1074 : ℤ) := by
    simpa using bitsValue_eq (show 1 ≤ 2 ^ 53 by decide) (.inr rfl : 2 ^ 52 ≤ 1 ∨ 0 = 0)
  have hle : bitsValue 1 ≤ m * 2 ^ e := by
    rw [hleast]
    calc
      (2 : ℚ) ^ (-1074 : ℤ) ≤ 2 ^ e := zpow_le_zpow_right₀ one_le_two he
      _ ≤ m * 2 ^ e := le_mul_of_one_le_left (two_zpow_pos e).le (by exact_mod_cast hpos)
  have hbits' : 1 ≤ bits := (IsNearest.self 1).mono hle hnear
  rw [hbits, infinityBits]
  cases s <;> rw [signBit] <;> omega

theorem toNat_pack_normalize_ne {e : ℤ} (he : -1074 ≤ e) (m : ℤ) :
    (UnpackedFloat.pack Format.binary64 (UnpackedFloat.normalize Format.binary64 m e .positive)).toNat ≠ 2 ^ 63 := by
  unfold UnpackedFloat.normalize
  split
  next h => exact toNat_pack_round_ne _ (by have := Int.compare_eq_lt.mp h; omega) he
  next => decide
  next h => exact toNat_pack_round_ne _ (by have := Int.compare_eq_gt.mp h; omega) he

theorem toNat_pack_nan_ne : (UnpackedFloat.pack Format.binary64 .notANumber).toNat ≠ 2 ^ 63 := by decide

theorem neg_exponent_le {x : Float} {s : UnpackedFloat.Sign} {m : ℕ} {e : ℤ} {hm : 0 < m}
    (h : x.toModel.unpack = .finite s m e hm) : -1074 ≤ e := by
  have hparts := describes_unpack x
  rw [h] at hparts
  exact hparts.2.2.2.2.1

theorem toNat_pack_unpack_ne {x : Float} (h : x.toModel.unpack ≠ .zero .negative) :
    (UnpackedFloat.pack Format.binary64 x.toModel.unpack).toNat ≠ 2 ^ 63 := by
  rw [toNat_pack_unpack, ← toNat_neg_zero]
  exact fun hbits => h (eq_neg_zero_iff.mp (eq_of_toNat hbits))

/-- **A sum is zero with a sign only if both its parts are.** -/
theorem add_ne_neg_zero {x : Float} (h : x ≠ -0) (y : Float) : x + y ≠ -0 := by
  have hx' := toNat_pack_unpack_ne (mt eq_neg_zero_iff.mpr h)
  have hy' := @toNat_pack_unpack_ne y
  suffices hbits : (x + y).toBits.toNat ≠ 2 ^ 63 by
    intro hsum
    rw [hsum, toNat_neg_zero] at hbits
    exact hbits rfl
  rw [toNat_add]
  cases hx : x.toModel.unpack with
  | notANumber =>
    rw [hx] at hx'
    cases y.toModel.unpack <;> exact hx'
  | infinity s =>
    rw [hx] at hx'
    cases y.toModel.unpack with
    | notANumber => exact toNat_pack_nan_ne
    | infinity s' => cases s <;> cases s' <;> decide
    | zero s' => exact hx'
    | finite s' m' e' hm' => exact hx'
  | zero s =>
    cases s with
    | negative => exact absurd (eq_neg_zero_iff.mpr hx) h
    | positive =>
      cases hy : y.toModel.unpack with
      | zero s' => cases s' <;> decide
      | notANumber => exact toNat_pack_nan_ne
      | infinity s' => rw [hy] at hy'; exact hy' nofun
      | finite s' m' e' hm' => rw [hy] at hy'; exact hy' nofun
  | finite s m e hm =>
    cases hy : y.toModel.unpack with
    | notANumber => exact toNat_pack_nan_ne
    | infinity s' => rw [hy] at hy'; exact hy' nofun
    | zero s' => rw [hx] at hx'; exact hx'
    | finite s' m' e' hm' =>
      exact toNat_pack_normalize_ne (le_min (neg_exponent_le hx) (neg_exponent_le hy)) _

namespace IsTime

variable {x y z : Float}

theorem ne_neg_zero (h : IsTime x) : x ≠ -0 := by
  rintro rfl
  rw [IsTime, toNat_neg_zero] at h
  exact absurd h (by decide)

theorem add_zero (h : IsTime x) : x + 0 = x := float_add_zero h.ne_neg_zero

theorem zero_add (h : IsTime x) : 0 + x = x := (float_add_comm 0 x).trans h.add_zero

theorem infinity_add (h : IsTime x) : infinity + x = infinity := by
  refine eq_of_toNat ?_
  rw [toNat_add, unpack_infinity]
  rcases h.unpack_cases with hx | ⟨m, e, hm, hx⟩ | hx <;> rw [hx] <;> rfl

/-- The exact sum with infinity is not below the number of its bits, so the nearest bits are not below them. -/
theorem exists_toNat_infinity_add (h : IsTime x) :
    ∃ bits, IsNearest bits (bitsValue infinity.toBits.toNat + bitsValue x.toBits.toNat) ∧
      (infinity + x).toBits.toNat = min bits infinityBits := by
  obtain ⟨bits, hnear⟩ := exists_isNearest_add infinity.toBits.toNat x.toBits.toNat
  have hle : infinity.toBits.toNat ≤ bits :=
    (IsNearest.self _).mono (le_add_of_nonneg_right (bitsValue_nonneg _)) hnear
  rw [toNat_infinity] at hle
  refine ⟨bits, hnear, ?_⟩
  rw [h.infinity_add, toNat_infinity, min_eq_right hle]

/-- **A sum of times is the time nearest to the exact sum**, or infinity if the nearest bits are beyond. -/
theorem exists_toNat_add (hx : IsTime x) (hy : IsTime y) :
    ∃ bits, IsNearest bits (bitsValue x.toBits.toNat + bitsValue y.toBits.toNat) ∧
      (x + y).toBits.toNat = min bits infinityBits := by
  rcases hx.cases with rfl | ⟨hxpos, hxlt⟩ | rfl
  · rw [hy.zero_add, toNat_zero, bitsValue_zero, Rat.zero_add]
    exact ⟨_, .self _, (min_eq_left hy).symm⟩
  · rcases hy.cases with rfl | ⟨hypos, hylt⟩ | rfl
    · rw [hx.add_zero, toNat_zero, bitsValue_zero, Rat.add_zero]
      exact ⟨_, .self _, (min_eq_left hx).symm⟩
    · obtain ⟨m₁, e₁, h₁, hm₁, hvalue₁⟩ := exists_unpack_eq_finite hxpos hxlt
      obtain ⟨m₂, e₂, h₂, hm₂, hvalue₂⟩ := exists_unpack_eq_finite hypos hylt
      obtain ⟨bits, hnear, hbits⟩ := toNat_pack_add e₁ e₂ h₁ h₂
      rw [hvalue₁, hvalue₂] at hnear
      exact ⟨bits, hnear, by rw [toNat_add, hm₁, hm₂, hbits]⟩
    · rw [float_add_comm, add_comm]
      exact hx.exists_toNat_infinity_add
  · exact hy.exists_toNat_infinity_add

theorem add (hx : IsTime x) (hy : IsTime y) : IsTime (x + y) := by
  obtain ⟨bits, -, hbits⟩ := hx.exists_toNat_add hy
  exact hbits.trans_le (min_le_right ..)

/-- A sum does not run backwards when one of its parts grows. -/
theorem add_le_add (hx : IsTime x) (hy : IsTime y) (hz : IsTime z) (h : y ≤ z) : x + y ≤ x + z := by
  obtain ⟨bits, hnear, hbits⟩ := hx.exists_toNat_add hy
  obtain ⟨bits', hnear', hbits'⟩ := hx.exists_toNat_add hz
  have hvalue : bitsValue y.toBits.toNat ≤ bitsValue z.toBits.toNat :=
    strictMono_bitsValue.monotone ((hy.le_iff hz).mp h)
  rw [(hx.add hy).le_iff (hx.add hz), hbits, hbits']
  exact min_le_min_right _ (hnear.mono (add_le_add_right hvalue _) hnear')

/-- A sum is not before its first part. -/
theorem le_add_right (hx : IsTime x) (hy : IsTime y) : x ≤ x + y := by
  have hle := hx.add_le_add isTime_zero hy hy.zero_le
  rwa [hx.add_zero] at hle

end IsTime

/-! ### Sums that fall together -/

/-- Above the least exponent, neighbours are no farther from each other than their number divided by `2 ^ 52`. -/
theorem bitsValue_gap {n : ℕ} (hn : 2 ^ 52 ≤ n) :
    bitsValue (n + 1) - bitsValue (n - 1) ≤ 2 * (bitsValue n / 2 ^ 52) := by
  obtain ⟨t, m, hbits, hm, hcanon⟩ := exists_canonical n
  have hlow : 2 ^ 52 ≤ m := by omega
  have hvalue : bitsValue n = m * 2 ^ ((t : ℤ) - 1074) := by rw [hbits, bitsValue_eq hm.le hcanon]
  have hnext : bitsValue (n + 1) = (m + 1) * 2 ^ ((t : ℤ) - 1074) := by
    rw [hbits, Nat.add_assoc, bitsValue_eq hm (.inl (by omega)), Nat.cast_succ]
  have hprevious : (m - 1) * 2 ^ ((t : ℤ) - 1074) ≤ bitsValue (n - 1) := by
    by_cases hsame : 2 ^ 52 ≤ m - 1 ∨ t = 0
    · rw [hbits, Nat.add_sub_assoc (by omega), bitsValue_eq (by omega) hsame, Nat.cast_sub (by omega), Nat.cast_one]
    · -- Below a power of two the unit is half as large.
      obtain rfl : m = 2 ^ 52 := by omega
      obtain ⟨t, rfl⟩ := Nat.exists_eq_add_one_of_ne_zero (fun h => hsame (.inr h))
      have hhalf : (2 : ℚ) ^ (((t + 1 : ℕ) : ℤ) - 1074) = 2 * 2 ^ ((t : ℤ) - 1074) := by
        rw [Nat.cast_succ, add_sub_right_comm, zpow_add_one₀ two_ne_zero, mul_comm]
      have hunit := two_zpow_pos ((t : ℤ) - 1074)
      rw [show n - 1 = t * 2 ^ 52 + (2 ^ 53 - 1) by omega, bitsValue_eq (by omega) (.inl (by omega)), hhalf]
      norm_num
      linarith
  have hle : 2 ^ ((t : ℤ) - 1074) ≤ bitsValue n / 2 ^ 52 := by
    rw [hvalue, le_div_iff₀ (by positivity), mul_comm]
    exact mul_le_mul_of_nonneg_right (by exact_mod_cast hlow) (two_zpow_pos _).le
  linarith

/-- At the least exponent sums are exact. -/
theorem IsNearest.eq_of_lt {n a b : ℕ} (h : IsNearest n (bitsValue a + bitsValue b)) (hn : n < 2 ^ 52) :
    bitsValue a + bitsValue b = bitsValue n := by
  obtain ⟨i, hi⟩ := exists_bitsValue_eq_mul a
  obtain ⟨j, hj⟩ := exists_bitsValue_eq_mul b
  have hsum : bitsValue a + bitsValue b = (i + j : ℕ) * 2 ^ (-1074 : ℤ) := by
    rw [hi, hj, Nat.cast_add, add_mul]
  have hexact {k : ℕ} (hk : k ≤ 2 ^ 53) : bitsValue k = k * 2 ^ (-1074 : ℤ) := by
    simpa using bitsValue_eq hk (.inr rfl : 2 ^ 52 ≤ k ∨ 0 = 0)
  by_cases hsmall : i + j ≤ 2 ^ 53
  · rw [hsum, ← hexact hsmall] at h
    rw [hsum, ← hexact hsmall, h.eq_of_bitsValue]
  · have hle : bitsValue (2 ^ 53) ≤ bitsValue a + bitsValue b := by
      rw [hsum, hexact le_rfl]
      exact mul_le_mul_of_nonneg_right (by exact_mod_cast (Nat.le_of_not_le hsmall)) (two_zpow_pos _).le
    have hge := (IsNearest.self (2 ^ 53)).mono hle h
    omega

/-- Sums with the same nearest bits are no farther from each other than their number divided by `2 ^ 52`. -/
theorem IsNearest.sub_le {n a b c : ℕ} (h : IsNearest n (bitsValue a + bitsValue b))
    (h' : IsNearest n (bitsValue a + bitsValue c)) : bitsValue c - bitsValue b ≤ bitsValue n / 2 ^ 52 := by
  by_cases hn : n < 2 ^ 52
  · have hpos : 0 ≤ bitsValue n / 2 ^ 52 := div_nonneg (bitsValue_nonneg n) (by positivity)
    have heq := (h.eq_of_lt hn).trans (h'.eq_of_lt hn).symm
    linarith
  · have hlow := h.middle_le (show n - 1 < n by omega)
    have hhigh := h'.le_middle (Nat.lt_succ_self n)
    have hgap := bitsValue_gap (Nat.le_of_not_lt hn)
    linarith

/-- The exact sums of two times with a third one have the same nearest time, or are beyond all that are finite. -/
def Merges (start x y : Float) : Prop :=
  ∃ bits bits', IsNearest bits (bitsValue start.toBits.toNat + bitsValue x.toBits.toNat) ∧
    IsNearest bits' (bitsValue start.toBits.toNat + bitsValue y.toBits.toNat) ∧
    min bits infinityBits = min bits' infinityBits

namespace IsTime

variable {start x y : Float}

theorem merges_iff (hstart : IsTime start) (hx : IsTime x) (hy : IsTime y) :
    Merges start x y ↔ start + x = start + y := by
  obtain ⟨bits, hnear, hbits⟩ := hstart.exists_toNat_add hx
  obtain ⟨bits', hnear', hbits'⟩ := hstart.exists_toNat_add hy
  constructor
  · rintro ⟨b, b', hb, hb', hmin⟩
    refine eq_of_toNat ?_
    rw [hbits, hbits', hnear.unique hb, hnear'.unique hb', hmin]
  · intro heq
    refine ⟨bits, bits', hnear, hnear', ?_⟩
    rw [← hbits, ← hbits', heq]

/-- Later times give later sums, unless the sums fall together. -/
theorem add_lt_add_iff (hstart : IsTime start) (hx : IsTime x) (hy : IsTime y) (h : x ≤ y) :
    start + x < start + y ↔ ¬ Merges start x y := by
  have hle := ((hstart.add hx).le_iff (hstart.add hy)).mp (hstart.add_le_add hx hy h)
  rw [hstart.merges_iff hx hy, (hstart.add hx).lt_iff (hstart.add hy)]
  constructor
  · intro hlt heq
    rw [heq] at hlt
    exact Nat.lt_irrefl _ hlt
  · intro hne
    exact Nat.lt_of_le_of_ne hle fun hbits => hne (eq_of_toNat hbits)

/-- Times whose sums fall together on a finite time are no farther from each other than that time divided by
`2 ^ 52`. -/
theorem sub_le_of_merges (hstart : IsTime start) (hy : IsTime y) (h : Merges start x y)
    (hfinite : (start + y).isFinite = true) :
    bitsValue y.toBits.toNat - bitsValue x.toBits.toNat ≤ bitsValue (start + y).toBits.toNat / 2 ^ 52 := by
  obtain ⟨n, n', hn, hn', hmin⟩ := h
  obtain ⟨bits, hnear, hbits⟩ := hstart.exists_toNat_add hy
  obtain rfl := hnear.unique hn'
  have hlt : (start + y).toBits.toNat < infinityBits :=
    isMagnitude_iff.mp ⟨hfinite, (hstart.add hy).trans_lt (by decide)⟩
  have hbits' : bits = (start + y).toBits.toNat := by omega
  have hsame : n = bits := by omega
  rw [← hbits']
  exact (hsame ▸ hn).sub_le hn'

end IsTime

end PoseLang
