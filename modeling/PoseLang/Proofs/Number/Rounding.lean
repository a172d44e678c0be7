import Mathlib.Algebra.Order.Field.Basic
import Mathlib.Algebra.Order.Field.Rat
import Mathlib.Tactic.FieldSimp
import Mathlib.Tactic.Linarith
import Mathlib.Tactic.Ring
import PoseLang.Proofs.Number.Order

/-!
# Rounding to the nearest float

The bits of a positive float are an integer, and the number that they stand for grows with it
(`bitsValue`, `strictMono_bitsValue`). The bits go on above those of the greatest finite float, as if
there were no greatest exponent; so it makes sense to ask for the nearest bits first (`IsNearest`), and
a number whose nearest bits are not those of a finite float is rounded to infinity.

The arithmetic of floats rounds in another way. It has the integer part of a number at some exponent
and two bits that say how the rest compares with a half, and drops bits until 53 are left.

What is proved:

* no number has two nearest bits, since one of two neighbours is even (`IsNearest.unique`);
* the two bits keep saying how the rest compares with a half while bits are dropped (`Shows.shiftRight`);
* a float that is taken apart is put together again (`toNat_pack_unpack`);
* what is left after bits are dropped is rounded to the nearest bits (`toNat_pack_roundWithAccuracy`);
* a quotient and a product are the nearest bits of the exact ones (`toNat_pack_div`, `toNat_pack_mul`).
-/

namespace PoseLang

open Float.Model (UnpackedFloat Format)
open Float.Model.UnpackedFloat (ExtendedMantissa Accuracy)

/-! ### The number of some bits -/

/-- The number that the bits of a positive float stand for: 52 bits of a fraction, below an exponent. -/
def bitsValue (bits : ℕ) : ℚ :=
  if bits < 2 ^ 52 then bits * 2 ^ (-1074 : ℤ)
  else (2 ^ 52 + bits % 2 ^ 52 : ℕ) * 2 ^ ((bits / 2 ^ 52 : ℕ) - 1075 : ℤ)

/-- The bits of infinity. -/
def infinityBits : ℕ := 2047 * 2 ^ 52

theorem two_zpow_pos (e : ℤ) : (0 : ℚ) < 2 ^ e := zpow_pos two_pos e

/-- Bits that count units of one exponent, up to the least number of the next exponent. -/
theorem bitsValue_eq {t m : ℕ} (hm : m ≤ 2 ^ 53) (hcanon : 2 ^ 52 ≤ m ∨ t = 0) :
    bitsValue (t * 2 ^ 52 + m) = m * 2 ^ ((t : ℤ) - 1074) := by
  unfold bitsValue
  by_cases hsmall : t * 2 ^ 52 + m < 2 ^ 52
  · obtain rfl : t = 0 := by omega
    rw [if_pos hsmall]
    simp
  · rw [if_neg hsmall]
    by_cases htop : m = 2 ^ 53
    · have hdiv : (t * 2 ^ 52 + m) / 2 ^ 52 = t + 2 := by omega
      have hmod : (t * 2 ^ 52 + m) % 2 ^ 52 = 0 := by omega
      have hexponent : ((t + 2 : ℕ) : ℤ) - 1075 = (t : ℤ) - 1074 + 1 := by omega
      rw [hdiv, hmod, htop, hexponent, zpow_add_one₀ two_ne_zero]
      push_cast
      ring
    · have hdiv : (t * 2 ^ 52 + m) / 2 ^ 52 = t + 1 := by omega
      have hmod : 2 ^ 52 + (t * 2 ^ 52 + m) % 2 ^ 52 = m := by omega
      have hexponent : ((t + 1 : ℕ) : ℤ) - 1075 = (t : ℤ) - 1074 := by omega
      rw [hdiv, hmod, hexponent]

theorem exists_canonical (bits : ℕ) : ∃ t m, bits = t * 2 ^ 52 + m ∧ m < 2 ^ 53 ∧ (2 ^ 52 ≤ m ∨ t = 0) := by
  by_cases h : bits < 2 ^ 52
  · exact ⟨0, bits, by omega, by omega, .inr rfl⟩
  · exact ⟨bits / 2 ^ 52 - 1, 2 ^ 52 + bits % 2 ^ 52, by omega, by omega, .inl (by omega)⟩

theorem strictMono_bitsValue : StrictMono bitsValue := by
  refine strictMono_nat_of_lt_succ fun bits => ?_
  obtain ⟨t, m, rfl, hm, hcanon⟩ := exists_canonical bits
  rw [bitsValue_eq hm.le hcanon, Nat.add_assoc, bitsValue_eq hm (hcanon.imp_left Nat.le_succ_of_le)]
  have hunit := two_zpow_pos ((t : ℤ) - 1074)
  push_cast
  linarith

/-! ### The nearest bits -/

/-- No bits are nearer to the number; if others are as near, these are even. -/
structure IsNearest (bits : ℕ) (q : ℚ) : Prop where
  le : ∀ b, |bitsValue bits - q| ≤ |bitsValue b - q|
  even : ∀ b, b ≠ bits → |bitsValue b - q| = |bitsValue bits - q| → bits % 2 = 0

namespace IsNearest

theorem not_lt {bits bits' : ℕ} {q : ℚ} (h : IsNearest bits q) (h' : IsNearest bits' q) : ¬ bits < bits' := by
  intro hlt
  have hsame : |bitsValue bits - q| = |bitsValue bits' - q| := le_antisymm (h.le _) (h'.le _)
  have heven := h.even _ hlt.ne' hsame.symm
  have heven' := h'.even _ hlt.ne hsame
  -- both are even, and the odd bits between them are nearer than both
  have hbelow := strictMono_bitsValue (Nat.lt_succ_self bits)
  have habove := strictMono_bitsValue (show bits + 1 < bits' by omega)
  have hmid := h.le (bits + 1)
  rcases abs_eq_abs.mp hsame with hq | hq
  · linarith
  · have hnear : |bitsValue (bits + 1) - q| < q - bitsValue bits := abs_lt.mpr ⟨by linarith, by linarith⟩
    rw [abs_of_nonpos (by linarith)] at hmid
    linarith

/-- A number has one nearest float. -/
theorem unique {bits bits' : ℕ} {q : ℚ} (h : IsNearest bits q) (h' : IsNearest bits' q) : bits = bits' :=
  le_antisymm (Nat.le_of_not_lt (h'.not_lt h)) (Nat.le_of_not_lt (h.not_lt h'))

theorem eq_of_bitsValue {bits b : ℕ} (h : IsNearest bits (bitsValue b)) : bits = b := by
  have hle := h.le b
  rw [sub_self, abs_zero, abs_nonpos_iff, sub_eq_zero] at hle
  exact strictMono_bitsValue.injective hle

end IsNearest

section Units

variable {t : ℕ} {x : ℚ}

theorem abs_bitsValue_sub {n : ℕ} (hn : n ≤ 2 ^ 53) (hcanon : 2 ^ 52 ≤ n ∨ t = 0) :
    |bitsValue (t * 2 ^ 52 + n) - x * 2 ^ ((t : ℤ) - 1074)| = |(n : ℚ) - x| * 2 ^ ((t : ℤ) - 1074) := by
  rw [bitsValue_eq hn hcanon, ← sub_mul, abs_mul, abs_of_pos (two_zpow_pos _)]

/-- Bits of a greater exponent are farther than the least of the next exponent. -/
theorem abs_lt_of_above {b : ℕ} (hx : x ≤ 2 ^ 53) (hb : t * 2 ^ 52 + 2 ^ 53 < b) :
    |((2 ^ 53 : ℕ) : ℚ) - x| * 2 ^ ((t : ℤ) - 1074) < |bitsValue b - x * 2 ^ ((t : ℤ) - 1074)| := by
  have hlt := strictMono_bitsValue hb
  rw [bitsValue_eq le_rfl (.inl (by norm_num))] at hlt
  rw [abs_of_nonneg (by push_cast; linarith : (0 : ℚ) ≤ (2 ^ 53 : ℕ) - x)]
  exact lt_of_lt_of_le (by linarith) (le_abs_self _)

/-- Bits of a smaller exponent are farther than the least of this exponent. -/
theorem abs_lt_of_below {b : ℕ} (hx : 2 ^ 52 ≤ x) (hb : b < t * 2 ^ 52 + 2 ^ 52) :
    |((2 ^ 52 : ℕ) : ℚ) - x| * 2 ^ ((t : ℤ) - 1074) < |bitsValue b - x * 2 ^ ((t : ℤ) - 1074)| := by
  have hlt := strictMono_bitsValue hb
  rw [bitsValue_eq (by norm_num) (.inl le_rfl)] at hlt
  rw [abs_of_nonpos (by push_cast; linarith : ((2 ^ 52 : ℕ) : ℚ) - x ≤ 0)]
  exact lt_of_lt_of_le (by linarith) (neg_le_abs _)

end Units

/-- The integer is nearest to the number, and even if there are two. -/
structure IsNearestNat (r : ℕ) (x : ℚ) : Prop where
  le : |(r : ℚ) - x| ≤ 1 / 2
  even : |(r : ℚ) - x| = 1 / 2 → r % 2 = 0

namespace IsNearestNat

variable {r : ℕ} {x : ℚ} (h : IsNearestNat r x)

include h

theorem half_le {n : ℕ} (hn : n ≠ r) : 1 / 2 ≤ |(n : ℚ) - x| := by
  have hone : (1 : ℚ) ≤ |(n : ℚ) - r| := by
    have hint : (1 : ℤ) ≤ |(n : ℤ) - r| := Int.one_le_abs (by omega)
    exact_mod_cast hint
  have htriangle := abs_sub_le (n : ℚ) x r
  have hr := h.le
  rw [abs_sub_comm] at hr
  linarith

theorem abs_le_abs (n : ℕ) : |(r : ℚ) - x| ≤ |(n : ℚ) - x| := by
  by_cases hn : n = r
  · rw [hn]
  · exact h.le.trans (h.half_le hn)

theorem le_of_le {n : ℕ} (hx : x ≤ n) : r ≤ n := by
  have hclose := abs_le.mp h.le
  have hlt : (r : ℚ) < (n + 1 : ℕ) := by push_cast; linarith
  exact Nat.lt_succ_iff.mp (Nat.cast_lt.mp hlt)

theorem ge_of_ge {n : ℕ} (hx : n ≤ x) : n ≤ r := by
  have hclose := abs_le.mp h.le
  have hlt : (n : ℚ) < (r + 1 : ℕ) := by push_cast; linarith
  exact Nat.lt_succ_iff.mp (Nat.cast_lt.mp hlt)

/-- Bits are in units of this exponent, or farther than the ones of the nearest integer. -/
theorem range_or_far {t : ℕ} (hlow : 2 ^ 52 ≤ x ∨ t = 0) (hhigh : x ≤ 2 ^ 53) (b : ℕ) :
    (∃ n, b = t * 2 ^ 52 + n ∧ n ≤ 2 ^ 53 ∧ (2 ^ 52 ≤ n ∨ t = 0)) ∨
      |(r : ℚ) - x| * 2 ^ ((t : ℤ) - 1074) < |bitsValue b - x * 2 ^ ((t : ℤ) - 1074)| := by
  have hunit := (two_zpow_pos ((t : ℤ) - 1074)).le
  by_cases habove : t * 2 ^ 52 + 2 ^ 53 < b
  · exact .inr ((mul_le_mul_of_nonneg_right (h.abs_le_abs _) hunit).trans_lt (abs_lt_of_above hhigh habove))
  · rcases hlow with hlow | rfl
    · by_cases hbelow : b < t * 2 ^ 52 + 2 ^ 52
      · exact .inr ((mul_le_mul_of_nonneg_right (h.abs_le_abs _) hunit).trans_lt (abs_lt_of_below hlow hbelow))
      · exact .inl ⟨b - t * 2 ^ 52, by omega, by omega, .inl (by omega)⟩
    · exact .inl ⟨b, by omega, by omega, .inr rfl⟩

/-- The nearest integer in units of the right exponent gives the nearest bits. -/
theorem isNearest {t : ℕ} (hlow : 2 ^ 52 ≤ x ∨ t = 0) (hhigh : x ≤ 2 ^ 53) :
    IsNearest (t * 2 ^ 52 + r) (x * 2 ^ ((t : ℤ) - 1074)) := by
  have hunit := two_zpow_pos ((t : ℤ) - 1074)
  have hr := abs_bitsValue_sub (h.le_of_le (by exact_mod_cast hhigh))
    (hlow.imp_left fun hx => h.ge_of_ge (by exact_mod_cast hx)) (x := x)
  constructor
  · intro b
    rw [hr]
    rcases h.range_or_far hlow hhigh b with ⟨n, rfl, hn, hcanon⟩ | hfar
    · rw [abs_bitsValue_sub hn hcanon]
      exact mul_le_mul_of_nonneg_right (h.abs_le_abs n) hunit.le
    · exact hfar.le
  · intro b hb heq
    rw [hr] at heq
    rcases h.range_or_far hlow hhigh b with ⟨n, rfl, hn, hcanon⟩ | hfar
    · rw [abs_bitsValue_sub hn hcanon, mul_left_inj' hunit.ne'] at heq
      have hne : n ≠ r := fun hnr => hb (by rw [hnr])
      have heven := h.even (le_antisymm h.le (heq ▸ h.half_le hne))
      omega
    · exact absurd heq.symm hfar.ne

end IsNearestNat

/-- A number that is at most half of the least float is rounded to zero. -/
theorem isNearest_zero {q : ℚ} (hq : 0 ≤ q) (hsmall : q ≤ 2 ^ (-1075 : ℤ)) : IsNearest 0 q := by
  have hscale : q * 2 ^ (1074 : ℤ) ≤ 1 / 2 := calc
    q * 2 ^ (1074 : ℤ) ≤ 2 ^ (-1075 : ℤ) * 2 ^ (1074 : ℤ) := mul_le_mul_of_nonneg_right hsmall (two_zpow_pos _).le
    _ = 1 / 2 := by rw [← zpow_add₀ two_ne_zero]; norm_num
  have hzero : IsNearestNat 0 (q * 2 ^ (1074 : ℤ)) := by
    refine ⟨?_, fun _ => rfl⟩
    rw [Nat.cast_zero, zero_sub, abs_neg, abs_of_nonneg (mul_nonneg hq (two_zpow_pos _).le)]
    exact hscale
  have hnear := hzero.isNearest (t := 0) (.inr rfl) (hscale.trans (by norm_num))
  rw [mul_assoc, ← zpow_add₀ two_ne_zero] at hnear
  simpa using hnear

/-! ### Dropping bits -/

/-- What a mantissa and its two bits say about a number: the integer part, and how the rest compares
with a half. -/
def Shows (em : ExtendedMantissa) (x : ℚ) : Prop :=
  match em.roundBit, em.stickyBit with
  | false, false => x = em.mantissa
  | false, true => em.mantissa < x ∧ x < em.mantissa + 1 / 2
  | true, false => x = em.mantissa + 1 / 2
  | true, true => em.mantissa + 1 / 2 < x ∧ x < em.mantissa + 1

theorem shows_exact (m : ℕ) : Shows (ExtendedMantissa.ofMantissaAndAccuracy m .exact) m := rfl

namespace Shows

variable {em : ExtendedMantissa} {x : ℚ} (h : Shows em x)

include h

theorem bounds : em.mantissa ≤ x ∧ x < em.mantissa + 1 := by
  obtain ⟨m, round, sticky⟩ := em
  cases round <;> cases sticky <;> simp only [Shows] at h
  · exact ⟨h.ge, by linarith⟩
  · exact ⟨h.1.le, by linarith [h.2]⟩
  · exact ⟨by linarith, by linarith⟩
  · exact ⟨by linarith [h.1], h.2⟩

/-- Dropping a bit halves the number. -/
theorem shiftRightOne : Shows em.shiftRightOne (x / 2) := by
  obtain ⟨m, round, sticky⟩ := em
  obtain ⟨k, rfl | rfl⟩ := m.even_or_odd'
  · cases round <;> cases sticky <;>
      simp only [Shows, ExtendedMantissa.shiftRightOne, Nat.mul_mod_right, Nat.mul_div_cancel_left _ Nat.two_pos,
        bne_self_eq_false, Bool.or_false, Bool.or_true, Nat.cast_mul, Nat.cast_ofNat] at h ⊢
    · linarith
    · constructor <;> linarith
    · constructor <;> linarith
    · constructor <;> linarith
  · have hmod : ((2 * k + 1) % 2 != 0) = true := by simp
    have hdiv : (2 * k + 1) / 2 = k := by omega
    cases round <;> cases sticky <;>
      simp only [Shows, ExtendedMantissa.shiftRightOne, hmod, hdiv, Bool.or_false, Bool.or_true, Nat.cast_mul,
        Nat.cast_ofNat, Nat.cast_add, Nat.cast_one] at h ⊢
    · linarith
    · constructor <;> linarith
    · constructor <;> linarith
    · constructor <;> linarith

theorem shiftRight (k : ℕ) : Shows (em >>> k) (x / 2 ^ k) := by
  induction k with
  | zero =>
    rw [pow_zero, div_one]
    exact h
  | succ k ih =>
    rw [pow_succ, ← div_div]
    exact ih.shiftRightOne

theorem isNearestNat : IsNearestNat em.roundedMantissa x := by
  obtain ⟨m, round, sticky⟩ := em
  cases round <;> cases sticky <;>
    simp only [Shows, ExtendedMantissa.roundedMantissa, ExtendedMantissa.accuracy, Accuracy.roundToNearestEven] at h ⊢
  · have habs : |(m : ℚ) - x| < 1 / 2 := by
      rw [h, sub_self, abs_zero]
      norm_num
    exact ⟨habs.le, fun hx => absurd hx habs.ne⟩
  · have habs : |(m : ℚ) - x| < 1 / 2 := abs_lt.mpr ⟨by linarith, by linarith⟩
    exact ⟨habs.le, fun hx => absurd hx habs.ne⟩
  · refine ⟨?_, fun _ => by omega⟩
    rcases Nat.mod_two_eq_zero_or_one m with hm | hm <;> rw [hm, h] <;> push_cast <;>
      exact abs_le.mpr ⟨by linarith, by linarith⟩
  · have habs : |((m + 1 : ℕ) : ℚ) - x| < 1 / 2 := by
      push_cast
      exact abs_lt.mpr ⟨by linarith, by linarith⟩
    exact ⟨habs.le, fun hx => absurd hx habs.ne⟩

end Shows

/-! ### Packing -/

/-- What a sign adds to the bits of a float. -/
def signBit : UnpackedFloat.Sign → ℕ
  | .positive => 0
  | .negative => 2 ^ 63

theorem toNat_eq_signBit_add (x : Float) : x.toBits.toNat = signBit (signOf x) + unsignedBits x := by
  have hlt : x.toBits.toNat < 2 ^ 64 := x.toBits.toNat_lt
  unfold signOf unsignedBits
  split
  · rw [signBit]
    omega
  · rw [signBit]
    omega

theorem toNat_packComponents (s : UnpackedFloat.Sign) (exponent : BitVec 11) (mantissa : BitVec 52) :
    (UnpackedFloat.packComponents Format.binary64 s exponent mantissa).toNat =
      signBit s + (exponent.toNat * 2 ^ 52 + mantissa.toNat) := by
  have hexponent : (s.toBitVec ++ exponent).toNat = s.toBitVec.toNat * 2 ^ 11 + exponent.toNat := by
    rw [BitVec.toNat_append, ← Nat.shiftLeft_add_eq_or_of_lt exponent.isLt, Nat.shiftLeft_eq]
  have hsign : s.toBitVec.toNat * 2 ^ 63 = signBit s := by
    cases s <;> rfl
  unfold UnpackedFloat.packComponents
  rw [BitVec.toNat_append, ← Nat.shiftLeft_add_eq_or_of_lt mantissa.isLt, Nat.shiftLeft_eq, hexponent, Nat.add_mul,
    Nat.mul_assoc, Nat.add_assoc, ← hsign, ← Nat.pow_add]

/-- The bits of a number with 53 bits before its exponent, or with the least exponent. -/
theorem toNat_pack_finite (s : UnpackedFloat.Sign) {m t : ℕ} (hpos : 0 < m) (hm : m < 2 ^ 53)
    (hcanon : 2 ^ 52 ≤ m ∨ t = 0) :
    (UnpackedFloat.pack Format.binary64 (.finite s m ((t : ℤ) - 1074) hpos)).toNat =
      signBit s + min (t * 2 ^ 52 + m) infinityBits := by
  have hbiased : ((t : ℤ) - 1074 + Format.binary64.exponentBias + (52 : ℕ)).toNat = t + 1 := by
    rw [show Format.binary64.exponentBias = 1023 from rfl]
    omega
  have hlog : m.log2 + 1 = Format.binary64.mantissaBits ↔ 2 ^ 52 ≤ m := by
    have hlog := Nat.log2_eq_iff (k := 52) hpos.ne'
    rw [show Format.binary64.mantissaBits = 53 from rfl]
    omega
  unfold UnpackedFloat.pack infinityBits
  dsimp only
  rw [hbiased]
  by_cases hbig : 2 ^ 11 ≤ t + 1 + 1
  · rw [if_pos hbig]
    refine (toNat_packComponents ..).trans ?_
    rw [min_eq_right (by omega)]
    rfl
  · rw [if_neg hbig]
    by_cases hnormal : 2 ^ 52 ≤ m
    · rw [if_pos (hlog.mpr hnormal)]
      refine (toNat_packComponents ..).trans ?_
      rw [BitVec.toNat_ofNat, BitVec.toNat_ofNat]
      omega
    · rw [if_neg (mt hlog.mp hnormal)]
      refine (toNat_packComponents ..).trans ?_
      rw [BitVec.toNat_ofNat, BitVec.toNat_ofNat]
      omega

/-- A float that is taken apart is put together again. -/
theorem toNat_pack_unpack (x : Float) :
    (UnpackedFloat.pack Format.binary64 x.toModel.unpack).toNat = x.toBits.toNat := by
  have hparts := describes_unpack x
  rw [toNat_eq_signBit_add x]
  cases hx : x.toModel.unpack with
  | notANumber =>
    rw [← toNat_eq_signBit_add, eq_nan fun h => h hx]
    rfl
  | infinity s =>
    rw [hx] at hparts
    rw [hparts.2, ← hparts.1]
    exact toNat_packComponents ..
  | zero s =>
    rw [hx] at hparts
    rw [hparts.2, ← hparts.1]
    exact toNat_packComponents ..
  | finite s m e hm =>
    rw [hx] at hparts
    obtain ⟨hsign, hbits, hlt, hm', he, hcanon⟩ := hparts
    obtain ⟨t, rfl⟩ : ∃ t : ℕ, e = (t : ℤ) - 1074 := ⟨(e + 1074).toNat, by omega⟩
    rw [toNat_pack_finite s hm hm' (by omega), hsign, infinityBits]
    omega

/-! ### Rounding -/

theorem targetExponent_eq (m : ℕ) (e : ℤ) :
    Format.binary64.targetExponent (Float.Model.totalExponent m e) = max (m.log2 + e - 52) (-1074) := by
  unfold Format.targetExponent Float.Model.totalExponent
  rw [show Format.binary64.mantissaBits = 53 from rfl, show Format.binary64.minExponent = -1074 from rfl]
  congr 1
  omega

theorem shiftToTargetExponent_eq (m : ℕ) (e : ℤ) (acc : Accuracy) :
    UnpackedFloat.shiftToTargetExponent Format.binary64 m e acc =
      (ExtendedMantissa.ofMantissaAndAccuracy m acc >>> (max (m.log2 + e - 52) (-1074) - e).toNat,
        e + (max (m.log2 + e - 52) (-1074) - e).toNat) := by
  unfold UnpackedFloat.shiftToTargetExponent UnpackedFloat.shiftToExponent
  rw [targetExponent_eq]

/-- Dropping bits until 53 are left brings the number to units of the exponent that it is to have. -/
theorem exists_units {m : ℕ} {e : ℤ} {x : ℚ} (hx : m ≤ x ∧ x < m + 1) (hlarge : 2 ^ 52 ≤ m ∨ e ≤ -1074) :
    ∃ t k : ℕ, max (m.log2 + e - 52) (-1074) = (t : ℤ) - 1074 ∧ e + k = (t : ℤ) - 1074 ∧
      (2 ^ 52 ≤ x / 2 ^ k ∨ t = 0) ∧ x / 2 ^ k ≤ 2 ^ 53 := by
  have hlog : 52 ≤ m.log2 ∨ e ≤ -1074 := hlarge.imp_left fun h => (Nat.le_log2 (by omega)).mpr h
  obtain ⟨t, ht⟩ : ∃ t : ℕ, max (m.log2 + e - 52) (-1074) = (t : ℤ) - 1074 :=
    ⟨(max (m.log2 + e - 52) (-1074) + 1074).toNat, by omega⟩
  obtain ⟨k, hk⟩ : ∃ k : ℕ, e + k = (t : ℤ) - 1074 := ⟨((t : ℤ) - 1074 - e).toNat, by omega⟩
  refine ⟨t, k, ht, hk, ?_, ?_⟩
  · by_cases htzero : t = 0
    · exact .inr htzero
    · left
      have hne : m ≠ 0 := by
        rintro rfl
        rw [Nat.log2_zero] at *
        omega
      have hle : 2 ^ (52 + k) ≤ m := (Nat.le_log2 hne).mp (by omega)
      have hle : (2 : ℚ) ^ (52 + k) ≤ m := by exact_mod_cast hle
      rw [le_div_iff₀ (by positivity), ← pow_add]
      exact hle.trans hx.1
  · have hle : m + 1 ≤ 2 ^ (53 + k) :=
      Nat.lt_log2_self.trans_le (Nat.pow_le_pow_right Nat.two_pos (by omega))
    have hle : (m : ℚ) + 1 ≤ 2 ^ (53 + k) := by exact_mod_cast hle
    rw [div_le_iff₀ (by positivity), ← pow_add]
    exact hx.2.le.trans hle

/-- Where rounding has reached the next power of two, the exponent moves by one and the bits stay. -/
theorem exists_shiftToTargetExponent_eq {r t : ℕ} (hr : r ≤ 2 ^ 53) (hcanon : 2 ^ 52 ≤ r ∨ t = 0) :
    ∃ m' t' : ℕ, UnpackedFloat.shiftToTargetExponent Format.binary64 r ((t : ℤ) - 1074) .exact =
        (⟨m', false, false⟩, (t' : ℤ) - 1074) ∧
      t' * 2 ^ 52 + m' = t * 2 ^ 52 + r ∧ m' < 2 ^ 53 ∧ (2 ^ 52 ≤ m' ∨ t' = 0) := by
  rw [shiftToTargetExponent_eq]
  rcases hr.lt_or_eq with hr | rfl
  · have hlog : r.log2 < 53 := by
      by_cases hzero : r = 0
      · rw [hzero]
        decide
      · exact (Nat.log2_lt hzero).mpr hr
    have hshift : (max (r.log2 + ((t : ℤ) - 1074) - 52) (-1074) - ((t : ℤ) - 1074)).toNat = 0 := by omega
    rw [hshift, Nat.cast_zero, add_zero]
    exact ⟨r, t, rfl, rfl, hr, hcanon⟩
  · have hshift : (max ((2 ^ 53 : ℕ).log2 + ((t : ℤ) - 1074) - 52) (-1074) - ((t : ℤ) - 1074)).toNat = 1 := by
      rw [Nat.log2_two_pow]
      omega
    have hexponent : (t : ℤ) - 1074 + (1 : ℕ) = ((t + 1 : ℕ) : ℤ) - 1074 := by omega
    rw [hshift, hexponent]
    exact ⟨2 ^ 52, t + 1, rfl, by omega, by norm_num, .inl le_rfl⟩

/-- **Rounding gives the bits of the nearest number**, those of infinity if they are too great. The
mantissa must have bits enough, since rounding only drops bits. -/
theorem toNat_pack_roundWithAccuracy (s : UnpackedFloat.Sign) {m : ℕ} {acc : Accuracy} {x : ℚ} (e : ℤ)
    (hx : Shows (ExtendedMantissa.ofMantissaAndAccuracy m acc) x) (hlarge : 2 ^ 52 ≤ m ∨ e ≤ -1074) :
    ∃ bits, IsNearest bits (x * 2 ^ e) ∧ (UnpackedFloat.pack Format.binary64
      (UnpackedFloat.roundWithAccuracy Format.binary64 s m e acc)).toNat = signBit s + min bits infinityBits := by
  have hmantissa : (ExtendedMantissa.ofMantissaAndAccuracy m acc).mantissa = m := by
    cases acc with
    | exact => rfl
    | inexact o => cases o <;> rfl
  obtain ⟨t, k, ht, hk, hlow, hhigh⟩ := exists_units (hmantissa ▸ hx.bounds) hlarge
  have hshift : ((t : ℤ) - 1074 - e).toNat = k := by omega
  have hvalue : x / 2 ^ k * 2 ^ ((t : ℤ) - 1074) = x * 2 ^ e := by
    rw [← hk, zpow_add₀ two_ne_zero, zpow_natCast]
    field_simp
  have hnear := (hx.shiftRight k).isNearestNat
  refine ⟨_, hvalue ▸ hnear.isNearest hlow hhigh, ?_⟩
  obtain ⟨m', t', hcarry, hbits, hm', hcanon⟩ :=
    exists_shiftToTargetExponent_eq (hnear.le_of_le (by exact_mod_cast hhigh))
      (hlow.imp_left fun h => hnear.ge_of_ge (by exact_mod_cast h))
  unfold UnpackedFloat.roundWithAccuracy
  rw [shiftToTargetExponent_eq, ht, hshift, hk]
  dsimp only
  rw [hcarry]
  dsimp only
  by_cases hzero : m' = 0
  · rw [dif_pos hzero, ← hbits, hzero, show t' = 0 by omega]
    exact toNat_packComponents ..
  · rw [dif_neg hzero, toNat_pack_finite s _ hm' hcanon, hbits]

/-! ### Quotients and products -/

theorem shows_quotient (n : ℕ) {d : ℕ} (hd : 0 < d) :
    Shows (ExtendedMantissa.ofMantissaAndAccuracy (n / d) (UnpackedFloat.accuracyOfFraction (n % d) d)) (n / d) := by
  have hd' : (0 : ℚ) < d := by exact_mod_cast hd
  have hn : (n : ℚ) / d = (n / d : ℕ) + (n % d : ℕ) / d := by
    rw [eq_comm, add_div' _ _ _ hd'.ne', div_left_inj' hd'.ne']
    exact_mod_cast Nat.div_add_mod' n d
  rw [hn]
  unfold UnpackedFloat.accuracyOfFraction
  by_cases hzero : n % d = 0
  · rw [if_pos hzero, hzero]
    simp [Shows, ExtendedMantissa.ofMantissaAndAccuracy]
  · rw [if_neg hzero]
    rcases Nat.lt_trichotomy (2 * (n % d)) d with h | h | h
    · rw [Nat.compare_eq_lt.mpr h]
      have hpos : (0 : ℚ) < (n % d : ℕ) := by exact_mod_cast Nat.pos_of_ne_zero hzero
      have h : 2 * ((n % d : ℕ) : ℚ) < d := by exact_mod_cast h
      refine ⟨lt_add_of_pos_right _ (div_pos hpos hd'), add_lt_add_right ?_ _⟩
      rw [div_lt_iff₀ hd']
      linarith
    · rw [Nat.compare_eq_eq.mpr h]
      have h : 2 * ((n % d : ℕ) : ℚ) = d := by exact_mod_cast h
      refine congrArg _ ?_
      rw [div_eq_iff hd'.ne']
      linarith
    · rw [Nat.compare_eq_gt.mpr h]
      have hmod : ((n % d : ℕ) : ℚ) < d := by exact_mod_cast Nat.mod_lt n hd
      have h : (d : ℚ) < 2 * (n % d : ℕ) := by exact_mod_cast h
      refine ⟨add_lt_add_right ?_ _, add_lt_add_right ?_ _⟩
      · rw [lt_div_iff₀ hd']
        linarith
      · rw [div_lt_one hd']
        exact hmod

/-- The dividend is shifted so far that the quotient has bits enough. -/
theorem two_pow_le_quotient {m₁ m₂ k : ℕ} (h₁ : 0 < m₁) (h₂ : 0 < m₂) (hk : m₂.log2 + 53 ≤ m₁.log2 + k) :
    2 ^ 52 ≤ m₁ * 2 ^ k / m₂ := by
  refine (Nat.le_div_iff_mul_le h₂).mpr ?_
  calc
    2 ^ 52 * m₂ ≤ 2 ^ 52 * 2 ^ (m₂.log2 + 1) := Nat.mul_le_mul_left _ Nat.lt_log2_self.le
    _ = 2 ^ (m₂.log2 + 53) := by rw [← Nat.pow_add]; congr 1; omega
    _ ≤ 2 ^ (m₁.log2 + k) := Nat.pow_le_pow_right Nat.two_pos hk
    _ = 2 ^ m₁.log2 * 2 ^ k := Nat.pow_add ..
    _ ≤ m₁ * 2 ^ k := Nat.mul_le_mul_right _ (Nat.log2_self_le h₁.ne')

/-- Division gives the bits of the number nearest to the quotient. -/
theorem toNat_pack_div {m₁ m₂ : ℕ} (e₁ e₂ : ℤ) (h₁ : 0 < m₁) (h₂ : 0 < m₂) :
    ∃ bits, IsNearest bits (m₁ * 2 ^ e₁ / (m₂ * 2 ^ e₂)) ∧
      (UnpackedFloat.pack Format.binary64 (UnpackedFloat.div Format.binary64 (.finite .positive m₁ e₁ h₁)
        (.finite .positive m₂ e₂ h₂))).toNat = min bits infinityBits := by
  obtain ⟨e, he⟩ : ∃ e, min (e₁ - e₂) (Format.binary64.targetExponent
      (Float.Model.totalExponent m₁ e₁ - Float.Model.totalExponent m₂ e₂)) = e := ⟨_, rfl⟩
  obtain ⟨k, hk, hk'⟩ : ∃ k : ℕ, (e₁ - e₂ - e).toNat = k ∧ e₁ - e₂ = e + k := ⟨_, rfl, by omega⟩
  have hlarge : 2 ^ 52 ≤ m₁ * 2 ^ k / m₂ ∨ e ≤ -1074 := by
    by_cases hsmall : e ≤ -1074
    · exact .inr hsmall
    · unfold Format.targetExponent Float.Model.totalExponent at he
      rw [show Format.binary64.mantissaBits = 53 from rfl, show Format.binary64.minExponent = -1074 from rfl] at he
      exact .inl (two_pow_le_quotient h₁ h₂ (by omega))
  have hvalue : (m₁ * 2 ^ k : ℕ) / m₂ * (2 : ℚ) ^ e = m₁ * 2 ^ e₁ / (m₂ * 2 ^ e₂) := by
    have hm₂ : (m₂ : ℚ) ≠ 0 := by exact_mod_cast h₂.ne'
    rw [show e₁ = e₂ + e + k by omega, zpow_add₀ two_ne_zero, zpow_add₀ two_ne_zero, zpow_natCast]
    push_cast
    field_simp
  have hbits := toNat_pack_roundWithAccuracy .positive e (shows_quotient (m₁ * 2 ^ k) h₂) hlarge
  simp only [signBit, Nat.zero_add, hvalue] at hbits
  unfold UnpackedFloat.div UnpackedFloat.divCore
  dsimp only
  rw [he, hk, Nat.shiftLeft_eq]
  exact hbits

/-- Multiplication gives the bits of the number nearest to the product, if that has bits enough. -/
theorem toNat_pack_mul {m₁ m₂ : ℕ} (e₁ e₂ : ℤ) (h₁ : 0 < m₁) (h₂ : 0 < m₂) (hlarge : 2 ^ 52 ≤ m₁ * m₂) :
    ∃ bits, IsNearest bits (m₁ * 2 ^ e₁ * (m₂ * 2 ^ e₂)) ∧
      (UnpackedFloat.pack Format.binary64 (UnpackedFloat.mul Format.binary64 (.finite .positive m₁ e₁ h₁)
        (.finite .positive m₂ e₂ h₂))).toNat = min bits infinityBits := by
  have hbits := toNat_pack_roundWithAccuracy .positive (e₁ + e₂) (shows_exact (m₁ * m₂)) (.inl hlarge)
  simp only [signBit, Nat.zero_add] at hbits
  rw [Nat.cast_mul, zpow_add₀ two_ne_zero, mul_mul_mul_comm] at hbits
  exact hbits

end PoseLang
