import InfixCalculator.Binary64.Rounding
import Mathlib

/-!
# Codes, units and rounding

A magnitude is given by its code or by its number of units.  Both directions are
exact: the bits of a value are its sign and its code, and the number of units of
a finite code is rounded to that code.

Rounding depends on the quotient alone.  So a magnitude may be read in any other
unit, the decimal one among them.
-/

namespace InfixCalculator.Binary64

/-- Whether the sign of a value is a minus, that of a zero included. -/
def signBit (x : Float) : Bool :=
  decide (Nat.pow 2 63 ≤ x.toBits.toNat)

def IsFinite (x : Float) : Prop :=
  ∃ negative units, shape x = .finite negative units

instance (x : Float) : Decidable (IsFinite x) :=
  match hshape : shape x with
  | .finite negative units => .isTrue ⟨negative, units, hshape⟩
  | .infinite _ => .isFalse (by simp [IsFinite, hshape])
  | .nan => .isFalse (by simp [IsFinite, hshape])

/-! ## The bits of a code -/

theorem infinityCode_eq : infinityCode = 2047 * 2 ^ 52 := rfl

open Float.Model Float.Model.UnpackedFloat in
/-- Only bits above those of infinity are not kept, as they stand for no number. -/
theorem toBits_ofBits {bits : UInt64} (hbits : bits.toNat % 2 ^ 63 ≤ infinityCode) :
    (Float.ofBits bits).toBits = bits := by
  have hvalid : Format.binary64.Valid bits.toBitVec := by
    refine ⟨fun hexponent hmantissa => absurd ?_ hmantissa⟩
    have hexponent := congrArg BitVec.toNat hexponent
    apply BitVec.eq_of_toNat_eq
    simp only [unpackExponent_def, unpackMantissa_def, BitVec.extractLsb'_toNat,
      UInt64.toNat_toBitVec, Nat.shiftRight_eq_div_pow, Nat.reducePow, BitVec.reduceNeg,
      BitVec.toNat_ofNat, Nat.mod_succ, pow_zero, Nat.div_one, Nat.zero_mod] at hexponent ⊢
    rw [infinityCode_eq] at hbits
    omega
  exact congrArg UInt64.ofBitVec (pack_unpack_of_valid hvalid)

theorem toNat_toBits_ofCode (negative : Bool) {code : Nat} (hcode : code ≤ infinityCode) :
    (ofCode negative code).toBits.toNat = (if negative then 2 ^ 63 else 0) + code := by
  rw [infinityCode_eq] at hcode
  have hlt : (if negative then 2 ^ 63 else 0) + code < 2 ^ 64 := by
    split <;> omega
  have hbits : (UInt64.ofNat ((if negative then Nat.pow 2 63 else 0) + code)).toNat =
      (if negative then 2 ^ 63 else 0) + code :=
    UInt64.toNat_ofNat_of_lt' hlt
  rw [ofCode, toBits_ofBits, hbits]
  rw [hbits, infinityCode_eq]
  split <;> omega

theorem signBit_ofCode (negative : Bool) {code : Nat} (hcode : code ≤ infinityCode) :
    signBit (ofCode negative code) = negative := by
  rw [signBit, toNat_toBits_ofCode negative hcode, Nat.pow_eq]
  rw [infinityCode_eq] at hcode
  cases negative with
  | false => exact decide_eq_false (by simp; omega)
  | true => exact decide_eq_true (by simp)

theorem shape_ofCode (negative : Bool) {code : Nat} (hcode : code ≤ infinityCode) :
    shape (ofCode negative code) =
      if code < infinityCode then .finite negative (unitsOfCode code) else .infinite negative := by
  have hsign := signBit_ofCode negative hcode
  have hmod : (ofCode negative code).toBits.toNat % Nat.pow 2 63 = code := by
    rw [toNat_toBits_ofCode negative hcode, Nat.pow_eq]
    rw [infinityCode_eq] at hcode
    split <;> omega
  rw [signBit] at hsign
  simp only [shape, hsign, hmod]
  split
  next => rfl
  next hle => rw [if_pos (by omega)]

theorem shape_ofCode_infinityCode (negative : Bool) :
    shape (ofCode negative infinityCode) = .infinite negative := by
  have hshape := shape_ofCode negative (Nat.le_refl infinityCode)
  rwa [if_neg (Nat.lt_irrefl _)] at hshape

theorem shape_ofCode_ne_nan (negative : Bool) {code : Nat} (hcode : code ≤ infinityCode) :
    shape (ofCode negative code) ≠ .nan := by
  rw [shape_ofCode negative hcode]
  split <;> simp

theorem ofCode_toBits (x : Float) :
    ofCode (decide (Nat.pow 2 63 ≤ x.toBits.toNat)) (x.toBits.toNat % Nat.pow 2 63) = x := by
  have hlt := x.toBits.toNat_lt
  have hbits : (if Nat.pow 2 63 ≤ x.toBits.toNat then Nat.pow 2 63 else 0) +
      x.toBits.toNat % Nat.pow 2 63 = x.toBits.toNat := by
    simp only [Nat.pow_eq]
    split <;> omega
  simp only [ofCode, decide_eq_true_eq, hbits, UInt64.ofNat_toNat, Float.ofBits_toBits]

theorem exists_ofCode_of_shape_eq_finite {x : Float} {negative : Bool} {units : Nat}
    (hshape : shape x = .finite negative units) :
    ∃ code, code < infinityCode ∧ unitsOfCode code = units ∧ ofCode negative code = x := by
  simp only [shape] at hshape
  split at hshape
  next hcode =>
    obtain ⟨rfl, hunits⟩ := Shape.finite.inj hshape
    exact ⟨_, hcode, hunits, ofCode_toBits x⟩
  next => split at hshape <;> cases hshape

theorem ofCode_of_shape_eq_infinite {x : Float} {negative : Bool}
    (hshape : shape x = .infinite negative) : ofCode negative infinityCode = x := by
  simp only [shape] at hshape
  split at hshape
  next => cases hshape
  next =>
    split at hshape
    next hcode =>
      obtain rfl := Shape.infinite.inj hshape
      rw [← hcode, ofCode_toBits]
    next => cases hshape

/-! ## Rounding depends on the quotient -/

theorem roundHalfEven_mul_right (num den : Nat) {factor : Nat} (hfactor : 0 < factor) :
    roundHalfEven (num * factor) (den * factor) = roundHalfEven num den := by
  simp only [roundHalfEven, Nat.mul_div_mul_right _ _ hfactor, Nat.mul_mod_mul_right,
    ← Nat.mul_assoc, Nat.mul_lt_mul_right hfactor]

theorem nearestCode_mul_right (num den : Nat) {factor : Nat} (hfactor : 0 < factor) :
    nearestCode (num * factor) (den * factor) = nearestCode num den := by
  simp only [nearestCode, Nat.mul_div_mul_right _ _ hfactor, Nat.mul_right_comm den factor,
    roundHalfEven_mul_right _ _ hfactor]

theorem nearestCode_congr {num den num' den' : Nat} (hden : 0 < den) (hden' : 0 < den')
    (heq : num * den' = num' * den) : nearestCode num den = nearestCode num' den' := by
  rw [← nearestCode_mul_right num den hden', heq, Nat.mul_comm den,
    nearestCode_mul_right num' den' hden]

theorem nearestCode_le (num den : Nat) : nearestCode num den ≤ infinityCode :=
  Nat.min_le_right _ _

/-! ## Exact magnitudes are kept -/

theorem roundHalfEven_mul_self (n : Nat) {den : Nat} (hden : 0 < den) :
    roundHalfEven (n * den) den = n := by
  simp [roundHalfEven, hden]

/-- The significand and the exponent of a code. -/
theorem exists_significand (code : Nat) :
    ∃ significand exponent, unitsOfCode code = significand * 2 ^ exponent ∧
      (unitsOfCode code).log2 - 52 = exponent ∧ exponent * 2 ^ 52 + significand = code := by
  unfold unitsOfCode
  simp only [Nat.pow_eq]
  split
  next hsubnormal =>
    have hlog : code.log2 < 52 := by
      by_cases hzero : code = 0
      · simp [hzero]
      · exact (Nat.log2_lt hzero).mpr hsubnormal
    exact ⟨code, 0, by simp, by omega, by simp⟩
  next hnormal =>
    have hlog : ((2 ^ 52 + code % 2 ^ 52) * 2 ^ (code / 2 ^ 52 - 1)).log2 =
        52 + (code / 2 ^ 52 - 1) := by
      rw [Nat.log2_eq_iff (by positivity), Nat.pow_add, Nat.add_right_comm, Nat.pow_add]
      exact ⟨Nat.mul_le_mul_right _ (by omega),
        Nat.mul_lt_mul_of_pos_right (by omega) (by positivity)⟩
    exact ⟨2 ^ 52 + code % 2 ^ 52, code / 2 ^ 52 - 1, rfl, by omega, by omega⟩

theorem nearestCode_unitsOfCode {code : Nat} (hcode : code < infinityCode) :
    nearestCode (unitsOfCode code) 1 = code := by
  obtain ⟨significand, exponent, hunits, hexponent, hsum⟩ := exists_significand code
  simp only [nearestCode, Nat.div_one, hexponent, Nat.pow_eq, Nat.one_mul]
  rw [hunits, roundHalfEven_mul_self _ (by positivity), hsum, Nat.min_eq_left hcode.le]

theorem ofUnits_of_shape_eq_finite {x : Float} {negative : Bool} {units : Nat}
    (hshape : shape x = .finite negative units) : ofUnits negative units = x := by
  obtain ⟨code, hcode, rfl, rfl⟩ := exists_ofCode_of_shape_eq_finite hshape
  rw [ofUnits, nearestCode_unitsOfCode hcode]

end InfixCalculator.Binary64
