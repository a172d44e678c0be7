import Mathlib.Algebra.Order.Ring.Int
import PoseLang.Number.Binary

/-!
# The order of floats

Floats that are numbers are compared as the integers that their bits are: the bits below the sign, and
the sign in front of them (`signedBits`). Both zeros are the integer 0. So `<` on floats is transitive
and asymmetric, and sorting by `orderKey` puts numbers in ascending order.

What is proved:

* a float has one of five forms, by its exponent and its mantissa (`unpack_cases`), so its parts and its bits say the
  same number (`describes_unpack`);
* comparing two numbers is comparing their signed bits (`compare_eq`), so `<` and `==` are `<` and `=`
  of the signed bits (`lt_iff`, `beq_iff`);
* of two numbers in the order of their keys, the first is the smaller or they are equal
  (`lt_of_orderKey_le`), and only one float has a key (`orderKey_injective`);
* only one float is not a number (`eq_nan`), and a sum or a product with it is not a number (`add_eq_nan`,
  `mul_eq_nan`).
-/

namespace PoseLang

open Float.Model (UnpackedFloat Format)

/-- The float is a number, perhaps an infinite one. -/
def IsNumber (x : Float) : Prop := x.toModel.unpack ≠ .notANumber

/-- The bits of a float below its sign. -/
def unsignedBits (x : Float) : Nat := x.toBits.toNat % 2 ^ 63

/-- The sign of a float. -/
def signOf (x : Float) : UnpackedFloat.Sign := if x.toBits.toNat < 2 ^ 63 then .positive else .negative

/-- The bits of a float as an integer with its sign. -/
def signedBits (x : Float) : Int := (signOf x).apply (unsignedBits x)

theorem eq_of_toBits {x y : Float} (h : x.toBits = y.toBits) : x = y := by
  obtain ⟨⟨bits, valid⟩⟩ := x
  obtain ⟨⟨bits', valid'⟩⟩ := y
  obtain rfl : bits = bits' := h
  rfl

theorem IsNumber.of_isFinite {x : Float} (h : x.isFinite = true) : IsNumber x := by
  intro hnan
  unfold Float.isFinite Float.Model.isFinite at h
  rw [hnan] at h
  cases h

/-! ### Parts and bits -/

theorem toNat_unpackMantissa (b : BitVec 64) :
    (@UnpackedFloat.unpackMantissa Format.binary64 b).toNat = b.toNat % 2 ^ 52 := by
  simp [UnpackedFloat.unpackMantissa]

theorem toNat_unpackExponent (b : BitVec 64) :
    (@UnpackedFloat.unpackExponent Format.binary64 b).toNat = b.toNat / 2 ^ 52 % 2 ^ 11 := by
  simp [UnpackedFloat.unpackExponent, Nat.shiftRight_eq_div_pow]

theorem toNat_unpackSign (b : BitVec 64) :
    (@UnpackedFloat.unpackSign Format.binary64 b).toNat = b.toNat / 2 ^ 63 % 2 := by
  show (b.extractLsb 63 63).toNat = _
  simp [Nat.shiftRight_eq_div_pow]

/-- These parts of a number have this sign and these bits below it. A finite number has 53 bits before
its exponent, or the least exponent. -/
def Describes (sign : UnpackedFloat.Sign) (bits : Nat) : UnpackedFloat → Prop
  | .notANumber => True
  | .infinity s => s = sign ∧ bits = 2047 * 2 ^ 52
  | .zero s => s = sign ∧ bits = 0
  | .finite s m e _ => s = sign ∧ (bits : Int) = (e + 1074) * 2 ^ 52 + m ∧ bits < 2047 * 2 ^ 52 ∧
      m < 2 ^ 53 ∧ -1074 ≤ e ∧ (2 ^ 52 ≤ m ∨ e = -1074)

theorem sign_unpack (x : Float) :
    UnpackedFloat.Sign.ofBitVec (@UnpackedFloat.unpackSign Format.binary64 x.toBits.toBitVec) = signOf x := by
  have hlt : x.toBits.toNat < 2 ^ 64 := x.toBits.toNat_lt
  have hsign := toNat_unpackSign x.toBits.toBitVec
  rw [UInt64.toNat_toBitVec] at hsign
  unfold UnpackedFloat.Sign.ofBitVec signOf
  congr 1
  rw [← BitVec.toNat_inj, hsign]
  simp only [eq_iff_iff]
  constructor
  · intro h
    simp at h
    omega
  · intro h
    simp
    omega

theorem toNat_leadingOne (f : BitVec 52) : (1#1 ++ f).toNat = 2 ^ 52 + f.toNat := by
  rw [BitVec.toNat_append, ← Nat.shiftLeft_add_eq_or_of_lt f.isLt]
  rfl

/-- What a float is taken apart into, by its exponent and its mantissa. -/
theorem unpack_cases {x : Float} {exponent : BitVec 11} {mantissa : BitVec 52} {motive : UnpackedFloat → Prop}
    (he : @UnpackedFloat.unpackExponent Format.binary64 x.toBits.toBitVec = exponent)
    (hm : @UnpackedFloat.unpackMantissa Format.binary64 x.toBits.toBitVec = mantissa)
    (infinity : exponent = -1#11 → mantissa = 0#52 → motive (.infinity (signOf x)))
    (notANumber : exponent = -1#11 → mantissa ≠ 0#52 → motive .notANumber)
    (zero : exponent = 0#11 → mantissa = 0#52 → motive (.zero (signOf x)))
    (subnormal : exponent = 0#11 → mantissa ≠ 0#52 →
      ∀ hpos, motive (.finite (signOf x) mantissa.toNat ((exponent.toNat : Int) - 1075 + 1) hpos))
    (normal : exponent ≠ -1#11 → exponent ≠ 0#11 →
      ∀ hpos, motive (.finite (signOf x) (1#1 ++ mantissa).toNat ((exponent.toNat : Int) - 1075) hpos)) :
    motive x.toModel.unpack := by
  subst he hm
  show motive (UnpackedFloat.unpack Format.binary64 x.toBits.toBitVec)
  unfold UnpackedFloat.unpack
  dsimp only
  rw [sign_unpack]
  by_cases hall : @UnpackedFloat.unpackExponent Format.binary64 x.toBits.toBitVec = -1#11
  · rw [if_pos hall]
    by_cases hzero : @UnpackedFloat.unpackMantissa Format.binary64 x.toBits.toBitVec = 0#52
    · rw [if_pos hzero]
      exact infinity hall hzero
    · rw [if_neg hzero]
      exact notANumber hall hzero
  · rw [if_neg hall]
    by_cases hnone : @UnpackedFloat.unpackExponent Format.binary64 x.toBits.toBitVec = 0#11
    · rw [if_pos hnone]
      by_cases hzero : @UnpackedFloat.unpackMantissa Format.binary64 x.toBits.toBitVec = 0#52
      · rw [dif_pos hzero]
        exact zero hnone hzero
      · rw [dif_neg hzero]
        exact subnormal hnone hzero _
    · rw [if_neg hnone]
      exact normal hall hnone _

/-- A float is taken apart into what its bits say. -/
theorem describes_unpack (x : Float) : Describes (signOf x) (unsignedBits x) x.toModel.unpack := by
  have hm := toNat_unpackMantissa x.toBits.toBitVec
  have he := toNat_unpackExponent x.toBits.toBitVec
  rw [UInt64.toNat_toBitVec] at hm he
  unfold unsignedBits
  refine unpack_cases rfl rfl ?infinity ?notANumber ?zero ?subnormal ?normal
  case infinity =>
    intro hall hzero
    rw [hall, show (-1#11 : BitVec 11).toNat = 2047 from rfl] at he
    rw [hzero, BitVec.toNat_zero] at hm
    exact ⟨rfl, by omega⟩
  case notANumber =>
    intro _ _
    trivial
  case zero =>
    intro hnone hzero
    rw [hnone, BitVec.toNat_zero] at he
    rw [hzero, BitVec.toNat_zero] at hm
    exact ⟨rfl, by omega⟩
  case subnormal =>
    intro hnone _ _
    rw [hnone, BitVec.toNat_zero] at he
    refine ⟨rfl, ?_⟩
    rw [hm, hnone, BitVec.toNat_zero]
    omega
  case normal =>
    intro hall hnone _
    have hall : x.toBits.toNat / 2 ^ 52 % 2 ^ 11 ≠ 2047 := fun h => hall (BitVec.eq_of_toNat_eq (he.trans h))
    have hnone : x.toBits.toNat / 2 ^ 52 % 2 ^ 11 ≠ 0 := fun h => hnone (BitVec.eq_of_toNat_eq (he.trans h))
    refine ⟨rfl, ?_⟩
    rw [toNat_leadingOne, hm, he]
    omega

/-! ### Comparing -/

/-- Exponents first and then the bits before them: that is the order of the bits as a whole. -/
theorem compare_finite {m₁ m₂ : Nat} {e₁ e₂ : Int} (hm₁ : m₁ < 2 ^ 53) (hm₂ : m₂ < 2 ^ 53)
    (hc₁ : 2 ^ 52 ≤ m₁ ∨ e₁ = -1074) (hc₂ : 2 ^ 52 ≤ m₂ ∨ e₂ = -1074) (he₁ : -1074 ≤ e₁) (he₂ : -1074 ≤ e₂) :
    (compare e₁ e₂).then (compare m₁ m₂) =
      compare ((e₁ + 1074) * 2 ^ 52 + (m₁ : Int)) ((e₂ + 1074) * 2 ^ 52 + m₂) := by
  rcases lt_trichotomy e₁ e₂ with he | rfl | he
  · rw [Int.compare_eq_lt.mpr he, eq_comm]
    exact Int.compare_eq_lt.mpr (by omega)
  · rw [Int.compare_eq_eq.mpr rfl]
    rcases Nat.lt_trichotomy m₁ m₂ with hm | rfl | hm
    · rw [Nat.compare_eq_lt.mpr hm, eq_comm]
      exact Int.compare_eq_lt.mpr (by omega)
    · rw [Nat.compare_eq_eq.mpr rfl, eq_comm]
      exact Int.compare_eq_eq.mpr rfl
    · rw [Nat.compare_eq_gt.mpr hm, eq_comm]
      exact Int.compare_eq_gt.mpr (by omega)
  · rw [Int.compare_eq_gt.mpr he, eq_comm]
    exact Int.compare_eq_gt.mpr (by omega)

section Outcome

variable {a b : Int}

theorem lt_eq_compare (h : a < b) : some Ordering.lt = some (compare a b) := by rw [Int.compare_eq_lt.mpr h]

theorem gt_eq_compare (h : b < a) : some Ordering.gt = some (compare a b) := by rw [Int.compare_eq_gt.mpr h]

theorem eq_eq_compare (h : a = b) : some Ordering.eq = some (compare a b) := by rw [Int.compare_eq_eq.mpr h]

theorem swap_compare : (compare a b).swap = compare (-a) (-b) := by
  rcases lt_trichotomy a b with h | rfl | h
  · rw [Int.compare_eq_lt.mpr h, eq_comm]
    exact Int.compare_eq_gt.mpr (by omega)
  · rw [Int.compare_eq_eq.mpr rfl, eq_comm]
    exact Int.compare_eq_eq.mpr rfl
  · rw [Int.compare_eq_gt.mpr h, eq_comm]
    exact Int.compare_eq_lt.mpr (by omega)

end Outcome

theorem apply_positive (k : Int) : UnpackedFloat.Sign.positive.apply k = k := rfl

theorem apply_negative (k : Int) : UnpackedFloat.Sign.negative.apply k = -k := rfl

theorem apply_zero (s : UnpackedFloat.Sign) : s.apply (0 : Nat) = 0 := by
  cases s <;> rfl

theorem apply_bounds (s : UnpackedFloat.Sign) (n : Nat) : -(n : Int) ≤ s.apply n ∧ s.apply n ≤ n := by
  cases s <;> simp only [UnpackedFloat.Sign.apply] <;> omega

/-- Comparing numbers is comparing the integers that their signs and bits are. -/
theorem compare_of_describes {u v : UnpackedFloat} {s t : UnpackedFloat.Sign} {m n : Nat} (hu : Describes s m u)
    (hv : Describes t n v) (hu' : u ≠ .notANumber) (hv' : v ≠ .notANumber) :
    u.compare v = some (compare (s.apply m) (t.apply n)) := by
  have hm := apply_bounds s m
  have hn := apply_bounds t n
  cases u with
  | notANumber => exact absurd rfl hu'
  | infinity s' =>
    obtain ⟨rfl, rfl⟩ := hu
    cases v with
    | notANumber => exact absurd rfl hv'
    | infinity t' =>
      obtain ⟨rfl, rfl⟩ := hv
      cases s' <;> cases t' <;> rfl
    | zero t' =>
      obtain ⟨-, rfl⟩ := hv
      cases s' with
      | positive => exact gt_eq_compare (by rw [apply_zero]; decide)
      | negative => exact lt_eq_compare (by rw [apply_zero]; decide)
    | finite t' n' e hpos =>
      obtain ⟨rfl, -, hlt, -⟩ := hv
      cases s' with
      | positive => exact gt_eq_compare (by rw [apply_positive]; omega)
      | negative => exact lt_eq_compare (by rw [apply_negative]; omega)
  | zero s' =>
    obtain ⟨-, rfl⟩ := hu
    rw [apply_zero]
    cases v with
    | notANumber => exact absurd rfl hv'
    | infinity t' =>
      obtain ⟨rfl, rfl⟩ := hv
      cases t' with
      | positive => exact lt_eq_compare (by decide)
      | negative => exact gt_eq_compare (by decide)
    | zero t' =>
      obtain ⟨-, rfl⟩ := hv
      exact eq_eq_compare (apply_zero t).symm
    | finite t' n' e hpos =>
      obtain ⟨rfl, hbits, -, -, he, -⟩ := hv
      cases t' with
      | positive => exact lt_eq_compare (by rw [apply_positive]; omega)
      | negative => exact gt_eq_compare (by rw [apply_negative]; omega)
  | finite s' m' e hpos =>
    obtain ⟨rfl, hbits, hlt, hm', he, hc⟩ := hu
    cases v with
    | notANumber => exact absurd rfl hv'
    | infinity t' =>
      obtain ⟨rfl, rfl⟩ := hv
      cases t' with
      | positive => exact lt_eq_compare (by rw [apply_positive]; omega)
      | negative => exact gt_eq_compare (by rw [apply_negative]; omega)
    | zero t' =>
      obtain ⟨-, rfl⟩ := hv
      rw [apply_zero]
      cases s' with
      | positive => exact gt_eq_compare (by rw [apply_positive]; omega)
      | negative => exact lt_eq_compare (by rw [apply_negative]; omega)
    | finite t' n' e' hpos' =>
      obtain ⟨rfl, hbits', hlt', hn', he', hc'⟩ := hv
      have hfinite := compare_finite hm' hn' hc hc' he he'
      rw [← hbits, ← hbits'] at hfinite
      cases s' <;> cases t'
      · exact congrArg some ((congrArg Ordering.swap hfinite).trans swap_compare)
      · exact lt_eq_compare (by rw [apply_negative, apply_positive]; omega)
      · exact gt_eq_compare (by rw [apply_negative, apply_positive]; omega)
      · exact congrArg some hfinite

theorem compare_eq {x y : Float} (hx : IsNumber x) (hy : IsNumber y) :
    x.toModel.unpack.compare y.toModel.unpack = some (compare (signedBits x) (signedBits y)) :=
  compare_of_describes (describes_unpack x) (describes_unpack y) hx hy

theorem isNumber_of_lt {x y : Float} (h : x < y) : IsNumber x ∧ IsNumber y := by
  have h : (x.toModel.unpack.compare y.toModel.unpack == some .lt) = true := of_decide_eq_true h
  constructor
  · intro hx
    rw [hx] at h
    cases h
  · intro hy
    rw [hy] at h
    cases hx : x.toModel.unpack <;> rw [hx] at h <;> cases h

/-- One float is less than another if and only if both are numbers and their signed bits are in order. -/
theorem lt_iff {x y : Float} : x < y ↔ IsNumber x ∧ IsNumber y ∧ signedBits x < signedBits y := by
  have hlt : x < y ↔ (x.toModel.unpack.compare y.toModel.unpack == some .lt) = true := decide_eq_true_iff
  constructor
  · intro h
    obtain ⟨hx, hy⟩ := isNumber_of_lt h
    rw [hlt, compare_eq hx hy, beq_iff_eq, Option.some.injEq, Int.compare_eq_lt] at h
    exact ⟨hx, hy, h⟩
  · rintro ⟨hx, hy, h⟩
    rw [hlt, compare_eq hx hy, beq_iff_eq, Option.some.injEq, Int.compare_eq_lt]
    exact h

theorem beq_iff {x y : Float} (hx : IsNumber x) (hy : IsNumber y) :
    (x == y) = true ↔ signedBits x = signedBits y := by
  have hbeq : (x == y) = (x.toModel.unpack.compare y.toModel.unpack == some .eq) := rfl
  rw [hbeq, compare_eq hx hy, beq_iff_eq, Option.some.injEq, Int.compare_eq_eq]

/-! ### Sorting -/

theorem float_lt_trans {x y z : Float} (hxy : x < y) (hyz : y < z) : x < z := by
  obtain ⟨hx, -, hxy⟩ := lt_iff.mp hxy
  obtain ⟨-, hz, hyz⟩ := lt_iff.mp hyz
  exact lt_iff.mpr ⟨hx, hz, Int.lt_trans hxy hyz⟩

theorem float_lt_asymm {x y : Float} (hxy : x < y) : ¬ y < x := by
  intro hyx
  exact Int.lt_irrefl _ (Int.lt_trans (lt_iff.mp hxy).2.2 (lt_iff.mp hyx).2.2)

theorem signedBits_le_of_orderKey_le {x y : Float} (h : orderKey x ≤ orderKey y) :
    signedBits x ≤ signedBits y := by
  have hx : x.toBits.toNat < 2 ^ 64 := x.toBits.toNat_lt
  have hy : y.toBits.toNat < 2 ^ 64 := y.toBits.toNat_lt
  have hsign : 1 <<< 63 = 2 ^ 63 := rfl
  simp only [orderKey, UInt64.size, hsign] at h
  unfold signedBits signOf unsignedBits
  by_cases hxs : x.toBits.toNat < 2 ^ 63 <;> by_cases hys : y.toBits.toNat < 2 ^ 63 <;>
    simp only [hxs, hys, if_true, if_false, apply_positive, apply_negative] at h ⊢ <;> omega

/-- Numbers in the order of their keys ascend, unless they are equal. -/
theorem lt_of_orderKey_le {x y : Float} (hx : IsNumber x) (hy : IsNumber y) (h : orderKey x ≤ orderKey y)
    (hne : (x == y) = false) : x < y := by
  refine lt_iff.mpr ⟨hx, hy, lt_of_le_of_ne (signedBits_le_of_orderKey_le h) fun heq => ?_⟩
  rw [(beq_iff hx hy).mpr heq] at hne
  cases hne

/-- Floats with one key are the same. -/
theorem orderKey_injective : Function.Injective orderKey := by
  intro x y h
  have hx := x.toBits.toNat_lt
  have hy := y.toBits.toNat_lt
  refine eq_of_toBits (UInt64.toNat_inj.mp ?_)
  simp only [orderKey, Nat.reduceShiftLeft, UInt64.size] at h
  split_ifs at h <;> omega

/-! ### What is not a number -/

/-- What arithmetic gives if it is done with something that is not a number. -/
def nan : Float := .ofModel (Float.Model.pack .notANumber)

theorem not_isNumber_nan : ¬ IsNumber nan := fun h => h rfl

/-- Only one float is not a number. -/
theorem eq_nan {x : Float} (h : ¬ IsNumber x) : x = nan := by
  have hx : x.toModel.unpack = .notANumber := not_not.mp h
  revert hx
  refine unpack_cases (motive := (· = .notANumber → x = nan)) rfl rfl ?infinity ?notANumber ?zero ?subnormal ?normal
  case notANumber =>
    intro hexponent hmantissa _
    have hbits := x.toModel.valid.eq_packedNaN hexponent hmantissa
    exact eq_of_toBits (UInt64.toBitVec_inj.mp hbits)
  case infinity => exact fun _ _ hx => nomatch hx
  case zero => exact fun _ _ hx => nomatch hx
  case subnormal => exact fun _ _ _ hx => nomatch hx
  case normal => exact fun _ _ _ hx => nomatch hx

theorem add_eq_nan (x : Float) {y : Float} (h : ¬ IsNumber y) : x + y = nan := by
  have hy : y.toModel.unpack = .notANumber := not_not.mp h
  show Float.ofModel (Float.Model.pack (UnpackedFloat.add Format.binary64 x.toModel.unpack y.toModel.unpack)) = nan
  rw [hy]
  cases x.toModel.unpack <;> rfl

theorem mul_eq_nan {x : Float} (h : ¬ IsNumber x) (y : Float) : x * y = nan := by
  have hx : x.toModel.unpack = .notANumber := not_not.mp h
  show Float.ofModel (Float.Model.pack (UnpackedFloat.mul Format.binary64 x.toModel.unpack y.toModel.unpack)) = nan
  rw [hx]
  rfl

theorem IsNumber.of_add {x y : Float} (h : IsNumber (x + y)) : IsNumber y := by
  by_contra hy
  rw [add_eq_nan x hy] at h
  exact not_isNumber_nan h

theorem nearestInteger?_nan : nearestInteger? nan = none := by decide

end PoseLang
