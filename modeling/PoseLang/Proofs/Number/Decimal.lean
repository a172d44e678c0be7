import Mathlib.Data.List.Induction
import Mathlib.Data.Nat.Digits.Defs
import PoseLang.Proofs.Number.Rounding
import PoseLang.Token.Lexer

/-!
# Reading a decimal number

A number is written with decimal digits, perhaps with a point and more digits. Its value is the float
nearest to the rational number that is written, the even one of two that are equally near, and a number
that is too great for a float has no value. `RoundsTo` says so with nothing but the order of the
rational numbers.

The digits are read by dividing a natural number by a power of ten. If both are small they are floats
themselves and are divided as floats; else the division is done in natural numbers and rounded.

What is proved:

* either way gives the nearest float, or infinity (`exists_toNat_ofScientific`);
* so a number of a text has a value if and only if it rounds to a finite float, which is the value
  (`roundsTo_iff`).
-/

namespace PoseLang

open Float.Model (UnpackedFloat Format)

/-! ### Finite floats -/

theorem isFinite_iff {x : Float} : x.isFinite = true ↔ unsignedBits x < infinityBits := by
  constructor
  · intro h
    have hparts := describes_unpack x
    unfold Float.isFinite Float.Model.isFinite at h
    cases hx : x.toModel.unpack <;> rw [hx] at h hparts
    · cases h
    · cases h
    · exact hparts.2.trans_lt (by decide)
    · exact hparts.2.2.1
  · intro h
    have he := toNat_unpackExponent x.toBits.toBitVec
    rw [UInt64.toNat_toBitVec] at he
    have hall : @UnpackedFloat.unpackExponent Format.binary64 x.toBits.toBitVec ≠ -1#11 := by
      intro hall
      have hall := he.symm.trans (congrArg BitVec.toNat hall)
      rw [show (-1#11 : BitVec 11).toNat = 2047 from rfl] at hall
      unfold unsignedBits infinityBits at h
      omega
    refine unpack_cases (motive := (·.isFinite = true)) rfl rfl ?infinity ?notANumber ?zero ?subnormal ?normal
    case infinity => exact fun h _ => absurd h hall
    case notANumber => exact fun h _ => absurd h hall
    case zero => exact fun _ _ => rfl
    case subnormal => exact fun _ _ _ => rfl
    case normal => exact fun _ _ _ => rfl

theorem unsignedBits_of_lt {x : Float} (h : x.toBits.toNat < 2 ^ 63) : unsignedBits x = x.toBits.toNat :=
  Nat.mod_eq_of_lt h

/-- A positive finite float is taken apart into the units of its exponent. -/
theorem exists_unpack_eq_units {x : Float} (hpos : 0 < x.toBits.toNat) (hlt : x.toBits.toNat < infinityBits) :
    ∃ (t m : ℕ) (h : 0 < m), x.toModel.unpack = .finite .positive m ((t : ℤ) - 1074) h ∧
      x.toBits.toNat = t * 2 ^ 52 + m ∧ m < 2 ^ 53 ∧ (2 ^ 52 ≤ m ∨ t = 0) := by
  have hbits : x.toBits.toNat < 2 ^ 63 := hlt.trans (by decide)
  have hfinite : x.isFinite = true := isFinite_iff.mpr (by rwa [unsignedBits_of_lt hbits])
  have hparts := describes_unpack x
  rw [unsignedBits_of_lt hbits, signOf, if_pos hbits] at hparts
  unfold Float.isFinite Float.Model.isFinite at hfinite
  cases hx : x.toModel.unpack with
  | notANumber => rw [hx] at hfinite; cases hfinite
  | infinity s => rw [hx] at hfinite; cases hfinite
  | zero s => rw [hx] at hparts; exact absurd hparts.2 hpos.ne'
  | finite s m e h =>
    rw [hx] at hparts
    obtain ⟨rfl, hm, -, hlt, he, hcanon⟩ := hparts
    obtain ⟨t, rfl⟩ : ∃ t : ℕ, e = (t : ℤ) - 1074 := ⟨(e + 1074).toNat, by omega⟩
    exact ⟨t, m, h, rfl, by omega, hlt, by omega⟩

/-- A positive finite float is taken apart into factors of its number. -/
theorem exists_unpack_eq_finite {x : Float} (hpos : 0 < x.toBits.toNat) (hlt : x.toBits.toNat < infinityBits) :
    ∃ m e h, x.toModel.unpack = .finite .positive m e h ∧ (m : ℚ) * 2 ^ e = bitsValue x.toBits.toNat := by
  obtain ⟨t, m, h, hx, hbits, hm, hcanon⟩ := exists_unpack_eq_units hpos hlt
  refine ⟨m, _, h, hx, ?_⟩
  rw [hbits, bitsValue_eq hm.le hcanon]

/-- Dividing floats gives the float nearest to the quotient of their numbers. -/
theorem exists_toNat_div {x y : Float} (hx : 0 < x.toBits.toNat) (hx' : x.toBits.toNat < infinityBits)
    (hy : 0 < y.toBits.toNat) (hy' : y.toBits.toNat < infinityBits) :
    ∃ bits, IsNearest bits (bitsValue x.toBits.toNat / bitsValue y.toBits.toNat) ∧
      (x / y).toBits.toNat = min bits infinityBits := by
  obtain ⟨m₁, e₁, h₁, hm₁, hvalue₁⟩ := exists_unpack_eq_finite hx hx'
  obtain ⟨m₂, e₂, h₂, hm₂, hvalue₂⟩ := exists_unpack_eq_finite hy hy'
  obtain ⟨bits, hnear, hbits⟩ := toNat_pack_div e₁ e₂ h₁ h₂
  rw [hvalue₁, hvalue₂] at hnear
  refine ⟨bits, hnear, ?_⟩
  rw [← hbits, ← hm₁, ← hm₂]
  rfl

/-! ### Natural numbers and powers of ten -/

theorem mul_two_pow_zpow_neg (n k : ℕ) : ((n * 2 ^ k : ℕ) : ℚ) * 2 ^ (-(k : ℤ)) = n := by
  push_cast
  rw [zpow_neg, zpow_natCast, mul_inv_cancel_right₀ (by positivity)]

/-- Below `2 ^ 53` every natural number is the number of some bits. -/
theorem exists_bitsValue_eq {n : ℕ} (hpos : 0 < n) (hn : n < 2 ^ 53) :
    ∃ k t, n.log2 + k = 52 ∧ k + t = 1074 ∧ n * 2 ^ k < 2 ^ 53 ∧ 2 ^ 52 ≤ n * 2 ^ k ∧
      bitsValue (t * 2 ^ 52 + n * 2 ^ k) = n := by
  have hlog : n.log2 < 53 := (Nat.log2_lt hpos.ne').mpr hn
  obtain ⟨k, hk⟩ : ∃ k : ℕ, n.log2 + k = 52 := ⟨52 - n.log2, by omega⟩
  have hlow : 2 ^ 52 ≤ n * 2 ^ k := calc
    2 ^ 52 = 2 ^ n.log2 * 2 ^ k := by rw [← Nat.pow_add, hk]
    _ ≤ n * 2 ^ k := Nat.mul_le_mul_right _ (Nat.log2_self_le hpos.ne')
  have hhigh : n * 2 ^ k < 2 ^ 53 := calc
    n * 2 ^ k < 2 ^ (n.log2 + 1) * 2 ^ k := Nat.mul_lt_mul_of_pos_right Nat.lt_log2_self (Nat.pow_pos Nat.two_pos)
    _ = 2 ^ 53 := by rw [← Nat.pow_add]; congr 1; omega
  refine ⟨k, 1074 - k, hk, by omega, hhigh, hlow, ?_⟩
  rw [bitsValue_eq hhigh.le (.inl hlow), show ((1074 - k : ℕ) : ℤ) - 1074 = -k by omega, mul_two_pow_zpow_neg]

theorem toNat_toFloat {n k : ℕ} (hpos : 0 < n) (hn : n < 2 ^ 53) (hk : n.log2 + k = 52) :
    n.toUInt64.toFloat.toBits.toNat = (UnpackedFloat.pack Format.binary64
      (UnpackedFloat.roundWithAccuracy Format.binary64 .positive (n * 2 ^ k) (-k) .exact)).toNat := by
  have hround : UnpackedFloat.round Format.binary64 .positive n 0 =
      UnpackedFloat.roundWithAccuracy Format.binary64 .positive (n * 2 ^ k) (-k) .exact := by
    have hshift : (0 - max ((n.log2 : ℤ) + 0 - 52) (-1074)).toNat = k := by omega
    unfold UnpackedFloat.round UnpackedFloat.decreaseExponent
    rw [targetExponent_eq]
    dsimp only
    rw [hshift, Nat.shiftLeft_eq, zero_sub]
  have hword : n.toUInt64.toNat = n := Nat.mod_eq_of_lt (hn.trans (by norm_num))
  have hnormal : UnpackedFloat.ofUInt64 Format.binary64 n.toUInt64 =
      UnpackedFloat.round Format.binary64 .positive n 0 := by
    unfold UnpackedFloat.ofUInt64 UnpackedFloat.ofNat UnpackedFloat.ofInt UnpackedFloat.normalize
    rw [hword, Int.compare_eq_gt.mpr (by omega)]
    rfl
  rw [← hround, ← hnormal]
  rfl

/-- A natural number below `2 ^ 53` becomes the float of just that number. -/
theorem bitsValue_toFloat {n : ℕ} (hpos : 0 < n) (hn : n < 2 ^ 53) :
    bitsValue n.toUInt64.toFloat.toBits.toNat = n ∧ 0 < n.toUInt64.toFloat.toBits.toNat ∧
      n.toUInt64.toFloat.toBits.toNat < infinityBits := by
  obtain ⟨k, t, hk, ht, hhigh, hlow, hvalue⟩ := exists_bitsValue_eq hpos hn
  obtain ⟨bits, hnear, hbits⟩ := toNat_pack_roundWithAccuracy .positive (-k) (shows_exact (n * 2 ^ k)) (.inl hlow)
  rw [mul_two_pow_zpow_neg, ← hvalue] at hnear
  have hlt : t * 2 ^ 52 + n * 2 ^ k < infinityBits := by unfold infinityBits; omega
  rw [toNat_toFloat hpos hn hk, hbits, hnear.eq_of_bitsValue, min_eq_left hlt.le, signBit, Nat.zero_add]
  exact ⟨hvalue, by omega, hlt⟩

/-- The table of powers of ten: the 53 bits before the exponent and the exponent of each. -/
theorem powersOfTen_bits : ∀ e : Fin 23, 2 ^ 52 ≤ Float.exactlyRepresentablePowersOfTen[e].toBits.toNat ∧
    Float.exactlyRepresentablePowersOfTen[e].toBits.toNat < infinityBits ∧
    (2 ^ 52 + Float.exactlyRepresentablePowersOfTen[e].toBits.toNat % 2 ^ 52) *
      2 ^ (Float.exactlyRepresentablePowersOfTen[e].toBits.toNat / 2 ^ 52) = 10 ^ e.val * 2 ^ 1075 := by
  decide +kernel

theorem bitsValue_powersOfTen (e : Fin 23) :
    bitsValue Float.exactlyRepresentablePowersOfTen[e].toBits.toNat = 10 ^ e.val := by
  obtain ⟨hlow, -, hvalue⟩ := powersOfTen_bits e
  generalize Float.exactlyRepresentablePowersOfTen[e].toBits.toNat = b at *
  have hvalue : ((2 ^ 52 + b % 2 ^ 52 : ℕ) : ℚ) * 2 ^ (b / 2 ^ 52) = 10 ^ e.val * 2 ^ 1075 := by
    have hcast := congrArg (Nat.cast (R := ℚ)) hvalue
    rw [Nat.cast_mul, Nat.cast_mul, Nat.cast_pow, Nat.cast_pow, Nat.cast_pow] at hcast
    exact hcast
  unfold bitsValue
  rw [if_neg (by omega), zpow_sub₀ two_ne_zero, zpow_natCast, ← mul_div_assoc, hvalue]
  exact mul_div_cancel_right₀ _ (by positivity)

theorem zero_div_powersOfTen : ∀ e : Fin 23,
    ((0 : ℕ).toUInt64.toFloat / Float.exactlyRepresentablePowersOfTen[e]).toBits.toNat = 0 := by
  decide +kernel

/-! ### Decimal numbers -/

theorem isNearest_zero_div (k : ℕ) : IsNearest 0 ((0 : ℕ) / 10 ^ k) := by
  rw [Nat.cast_zero, zero_div]
  exact isNearest_zero le_rfl (two_zpow_pos _).le

/-- A number with a very small power of ten is zero. -/
theorem isNearest_zero_of_log2 {m k : ℕ} (hk : m.log2 + 1076 ≤ k) : IsNearest 0 (m / 10 ^ k) := by
  refine isNearest_zero (by positivity) ?_
  calc (m : ℚ) / 10 ^ k ≤ 2 ^ (m.log2 + 1) / 2 ^ k := by
        gcongr
        · exact_mod_cast Nat.lt_log2_self.le
        · norm_num
    _ = 2 ^ ((m.log2 + 1 : ℕ) - k : ℤ) := by rw [zpow_sub₀ two_ne_zero, zpow_natCast, zpow_natCast]
    _ ≤ 2 ^ (-1075 : ℤ) := zpow_le_zpow_right₀ one_le_two (by omega)

/-- The slow way: the quotient of natural numbers, rounded. -/
theorem exists_toNat_pack_ofScientific (m k : ℕ) :
    ∃ bits, IsNearest bits (m / 10 ^ k) ∧
      (UnpackedFloat.pack Format.binary64 (UnpackedFloat.ofScientific Format.binary64 m (-k))).toNat =
        min bits infinityBits := by
  unfold UnpackedFloat.ofScientific
  rw [show Format.binary64.exponentBits = 11 from rfl]
  by_cases hm : m = 0
  · rw [dif_pos hm, hm]
    exact ⟨0, isNearest_zero_div k, rfl⟩
  · rw [dif_neg hm, if_neg (by omega)]
    by_cases hsmall : (-k : ℤ) < -((2 ^ 11 : ℤ) + m.log2)
    · rw [if_pos hsmall]
      exact ⟨0, isNearest_zero_of_log2 (by omega), rfl⟩
    · rw [if_neg hsmall]
      by_cases hk : k = 0
      · subst hk
        rw [if_pos (by omega)]
        have hlarge : 2 ^ 52 ≤ m <<< Format.binary64.mantissaBits * 10 ^ (-((0 : ℕ) : ℤ)).toNat := by
          rw [show Format.binary64.mantissaBits = 53 from rfl, Nat.shiftLeft_eq, Nat.cast_zero, neg_zero,
            Int.toNat_zero, Nat.pow_zero]
          omega
        obtain ⟨bits, hnear, hbits⟩ := toNat_pack_mul (-Format.binary64.mantissaBits) 0
          (by simpa [Nat.pos_iff_ne_zero] using hm) (Nat.pow_pos (by decide)) hlarge
        refine ⟨bits, ?_, hbits⟩
        rw [show Format.binary64.mantissaBits = 53 from rfl, Nat.shiftLeft_eq, mul_two_pow_zpow_neg] at hnear
        simpa using hnear
      · rw [if_neg (by omega)]
        obtain ⟨bits, hnear, hbits⟩ := toNat_pack_div 0 0 (Nat.pos_of_ne_zero hm)
          (Nat.pow_pos (by decide) : 0 < 10 ^ (- -(k : ℤ)).toNat)
        exact ⟨bits, by simpa using hnear, hbits⟩

/-- **A decimal number becomes the nearest float**, or infinity. -/
theorem exists_toNat_ofScientific (m k : ℕ) :
    ∃ bits, IsNearest bits (m / 10 ^ k) ∧ (Float.ofScientific m true k).toBits.toNat = min bits infinityBits := by
  unfold Float.ofScientific
  by_cases hfast : m < 2 ^ 53 ∧ k ≤ 22
  · rw [dif_pos hfast]
    simp only [if_true]
    by_cases hm : m = 0
    · subst hm
      exact ⟨0, isNearest_zero_div k, zero_div_powersOfTen ⟨k, by omega⟩⟩
    · obtain ⟨hvalue, hpos, hlt⟩ := bitsValue_toFloat (Nat.pos_of_ne_zero hm) hfast.1
      obtain ⟨hlow, hlt', -⟩ := powersOfTen_bits ⟨k, by omega⟩
      have hdiv := exists_toNat_div hpos hlt (by omega) hlt'
      rw [hvalue, bitsValue_powersOfTen] at hdiv
      exact hdiv
  · rw [dif_neg hfast]
    simp only [if_true, Int.negOfNat_eq]
    exact exists_toNat_pack_ofScientific m k

/-! ### Digits of a text -/

/-- The natural number that decimal digits write. -/
def digitsNumber (ds : List Char) : ℕ := Nat.ofDigits 10 (ds.reverse.map fun d => d.toNat - '0'.toNat)

/-- The rational number that digits before and after a point write. -/
def decimalNumber (whole fraction : List Char) : ℚ := digitsNumber whole + digitsNumber fraction / 10 ^ fraction.length

theorem digitsValue_eq (ds : List Char) : digitsValue ds = digitsNumber ds := by
  induction ds using List.reverseRecOn with
  | nil => rfl
  | append_singleton ds d ih =>
    unfold digitsValue digitsNumber at *
    rw [List.foldl_append, List.foldl_cons, List.foldl_nil, ih, List.reverse_append, List.reverse_singleton,
      List.singleton_append, List.map_cons, Nat.ofDigits_cons]
    exact Nat.add_comm ..

theorem digitsNumber_append (whole fraction : List Char) :
    digitsNumber (whole ++ fraction) = digitsNumber fraction + 10 ^ fraction.length * digitsNumber whole := by
  unfold digitsNumber
  rw [List.reverse_append, List.map_append, Nat.ofDigits_append, List.length_map, List.length_reverse]

theorem decimalNumber_eq (whole fraction : List Char) :
    decimalNumber whole fraction = digitsValue (whole ++ fraction) / 10 ^ fraction.length := by
  rw [digitsValue_eq, digitsNumber_append, decimalNumber]
  push_cast
  field_simp
  ring

/-- A finite float without a sign. -/
def IsMagnitude (x : Float) : Prop := x.isFinite = true ∧ x.toBits.toNat < 2 ^ 63

instance (x : Float) : Decidable (IsMagnitude x) := inferInstanceAs (Decidable (_ ∧ _))

theorem isMagnitude_iff {x : Float} : IsMagnitude x ↔ x.toBits.toNat < infinityBits := by
  unfold IsMagnitude
  rw [isFinite_iff]
  constructor
  · rintro ⟨hfinite, hsign⟩
    rwa [unsignedBits_of_lt hsign] at hfinite
  · intro h
    have hsign : x.toBits.toNat < 2 ^ 63 := h.trans (by decide)
    exact ⟨by rwa [unsignedBits_of_lt hsign], hsign⟩

/-- The float is finite, has no sign, and is the nearest to the number. -/
structure RoundsTo (q : ℚ) (x : Float) : Prop where
  magnitude : IsMagnitude x
  nearest : IsNearest x.toBits.toNat q

/-- **A number of a text has a value if and only if it rounds to a float**, and then that is the value. -/
theorem roundsTo_iff {whole fraction : List Char} {x : Float} :
    RoundsTo (decimalNumber whole fraction) x ↔ x = decimalValue whole fraction ∧ x.isFinite = true := by
  obtain ⟨bits, hnear, hbits⟩ := exists_toNat_ofScientific (digitsValue (whole ++ fraction)) fraction.length
  rw [← decimalNumber_eq] at hnear
  constructor
  · intro h
    obtain rfl := hnear.unique h.nearest
    rw [min_eq_left (isMagnitude_iff.mp h.magnitude).le] at hbits
    exact ⟨eq_of_toBits (UInt64.toNat_inj.mp hbits.symm), h.magnitude.1⟩
  · rintro ⟨rfl, hfinite⟩
    have hsign : (decimalValue whole fraction).toBits.toNat < 2 ^ 63 :=
      (hbits.trans_le (min_le_right ..)).trans_lt (by decide)
    have hmagnitude : IsMagnitude (decimalValue whole fraction) := ⟨hfinite, hsign⟩
    have heq : (decimalValue whole fraction).toBits.toNat = bits := by
      rcases min_choice bits infinityBits with hmin | hmin
      · exact hbits.trans hmin
      · exact absurd (hbits.trans hmin) (isMagnitude_iff.mp hmagnitude).ne
    exact ⟨hmagnitude, heq ▸ hnear⟩

end PoseLang
