import InfixCalculator.Operator.Arithmetic
import InfixCalculator.Proofs.Nearest
import Mathlib

/-!
# Floor division

Integer division is the floor of the exact quotient of both whole parts.  It stays
in 64 bits for every pair of them but one, and is then rounded to the nearest value.
No other operator can refuse its operands.
-/

namespace InfixCalculator

namespace Binary64

/-! ## Whole parts -/

/-- The number is one of the signed integers of 64 bits. -/
def Fits (n : Int) : Prop :=
  -2 ^ 63 ≤ n ∧ n < 2 ^ 63

def saturate (n : Int) : Int :=
  max (-2 ^ 63) (min n (2 ^ 63 - 1))

/-- The whole part of a value, saturated, and `0` for a value that is no number. -/
def truncation (x : Float) : Int :=
  match shape x with
  | .nan => 0
  | .infinite negative => if negative then -2 ^ 63 else 2 ^ 63 - 1
  | .finite negative units =>
    saturate ((if negative then -units else units : Int).tdiv (2 ^ 1074))

theorem fits_toInt (n : Int64) : Fits n.toInt :=
  ⟨n.le_toInt, n.toInt_lt⟩

theorem toInt_ofIntClamp (n : Int) : (Int64.ofIntClamp n).toInt = saturate n := by
  rw [Int64.ofIntClamp, saturate]
  split
  next hlow =>
    rw [Int64.toInt_minValue] at hlow
    split
    next hhigh =>
      rw [Int64.toInt_maxValue] at hhigh
      rw [Int64.toInt_ofIntLE]
      omega
    next hhigh =>
      rw [Int64.toInt_maxValue] at hhigh ⊢
      omega
  next hlow =>
    rw [Int64.toInt_minValue] at hlow ⊢
    omega

theorem toInt_toInt64 (x : Float) : (toInt64 x).toInt = truncation x := by
  unfold toInt64 truncation
  generalize 1074 = places
  cases shape x with
  | nan => rfl
  | infinite negative => cases negative <;> rfl
  | finite negative units =>
      have hwhole : (units / Nat.pow 2 places : Nat) = (units : Int).tdiv (2 ^ places) := by
        rw [Int.ofNat_tdiv, Nat.pow_eq]
        norm_cast
      cases negative with
      | false => simp only [toInt_ofIntClamp, hwhole, Bool.false_eq_true, if_false]
      | true => simp only [toInt_ofIntClamp, hwhole, Int.neg_tdiv, if_true]

theorem toInt64_eq_zero_iff {x : Float} : toInt64 x = 0 ↔ truncation x = 0 := by
  rw [← toInt_toInt64, ← Int64.toInt_inj]
  rfl

/-! ## The floor of a quotient -/

/-- The floor of `a / b`, and what is left of `a` below it. -/
structure IsFloorQuotient (a b q : Int) : Prop where
  eq_floor : q = ⌊(a / b : ℚ)⌋
  abs_rest_lt : |a - q * b| < |b|
  sign_rest : a - q * b = 0 ∨ (a - q * b).sign = b.sign

theorem isFloorQuotient_of_pos (a : Int) {b : Int} (hb : 0 < b) :
    IsFloorQuotient a b (a.fdiv b) := by
  have hrest : a - a.fdiv b * b = a.fmod b := by
    rw [Int.fmod_def, Int.mul_comm]
  have hnonneg := Int.fmod_nonneg_of_pos a hb
  constructor
  case eq_floor =>
    lift b to Nat using hb.le
    rw [Int.fdiv_eq_ediv_of_nonneg a hb.le]
    exact (Rat.floor_intCast_div_natCast a b).symm
  case abs_rest_lt =>
    rw [hrest, abs_of_nonneg hnonneg, abs_of_pos hb]
    exact Int.fmod_lt_of_pos a hb
  case sign_rest =>
    rw [hrest]
    rcases hnonneg.eq_or_lt with hzero | hpos
    · exact .inl hzero.symm
    · exact .inr (by rw [Int.sign_eq_one_of_pos hpos, Int.sign_eq_one_of_pos hb])

theorem IsFloorQuotient.neg {a b q : Int} (h : IsFloorQuotient a b q) :
    IsFloorQuotient (-a) (-b) q := by
  have hrest : -a - q * -b = -(a - q * b) := by ring
  constructor
  case eq_floor =>
    rw [h.eq_floor]
    push_cast
    rw [neg_div_neg_eq]
  case abs_rest_lt =>
    rw [hrest, abs_neg, abs_neg]
    exact h.abs_rest_lt
  case sign_rest =>
    rw [hrest, Int.sign_neg, Int.sign_neg, neg_eq_zero, neg_inj]
    exact h.sign_rest

theorem isFloorQuotient_fdiv (a : Int) {b : Int} (hb : b ≠ 0) :
    IsFloorQuotient a b (a.fdiv b) := by
  rcases Int.lt_or_gt_of_ne hb with hneg | hpos
  · have hquotient := (isFloorQuotient_of_pos (-a) (Int.neg_pos_of_neg hneg)).neg
    rwa [Int.neg_fdiv_neg, Int.neg_neg, Int.neg_neg] at hquotient
  · exact isFloorQuotient_of_pos a hpos

theorem fdiv_neg_one (a : Int) : a.fdiv (-1) = -a := by
  rw [← Int.neg_fdiv_neg, Int.neg_neg, Int.fdiv_one]

theorem fits_fdiv_of_pos {a b : Int} (hb : 0 < b) (hlow : -2 ^ 63 * b ≤ a)
    (hhigh : a < 2 ^ 63 * b) : Fits (a.fdiv b) := by
  rw [Int.fdiv_eq_ediv_of_nonneg a hb.le]
  exact ⟨(Int.le_ediv_iff_mul_le hb).mpr hlow, (Int.ediv_lt_iff_lt_mul hb).mpr hhigh⟩

theorem fits_fdiv {a b : Int} (ha : Fits a) (hzero : b ≠ 0) (hneg : b ≠ -1) :
    Fits (a.fdiv b) := by
  obtain ⟨hlow, hhigh⟩ := ha
  rcases Int.lt_or_gt_of_ne hzero with hlt | hpos
  · -- The opposite of the dividend may be out of range, but not the half of it.
    rw [← Int.neg_fdiv_neg]
    exact fits_fdiv_of_pos (by omega) (by omega) (by omega)
  · exact fits_fdiv_of_pos hpos (by omega) (by omega)

/-! ## The quotient of two whole parts -/

theorem toInt_floorQuotient {a b : Int64} (hzero : b.toInt ≠ 0)
    (hfits : ¬(a.toInt = -2 ^ 63 ∧ b.toInt = -1)) :
    (floorQuotient a b).toInt = a.toInt.fdiv b.toInt := by
  have ha := fits_toInt a
  rw [floorQuotient]
  split
  next hone =>
    have hdivisor : b.toInt = -1 := by
      rw [hone]
      rfl
    have hne : a.toInt ≠ -2 ^ 63 := fun hmin => hfits ⟨hmin, hdivisor⟩
    obtain ⟨hlow, hhigh⟩ := ha
    rw [Int64.toInt_neg, hdivisor, fdiv_neg_one]
    exact Int.bmod_eq_of_le (by omega) (by omega)
  next hone =>
    have hquotient := fits_fdiv ha hzero (fun hdivisor => hone (Int64.toInt_inj.mp hdivisor))
    exact Int64.toInt_ofInt_of_le hquotient.1 hquotient.2

/-- The one quotient without a place in 64 bits. -/
theorem floorQuotient_minValue : floorQuotient .minValue (-1) = .minValue := by
  decide

theorem toInt_floorQuotient_of_overflow {a b : Int64} (ha : a.toInt = -2 ^ 63)
    (hb : b.toInt = -1) : (floorQuotient a b).toInt = -2 ^ 63 := by
  obtain rfl : a = .minValue := Int64.toInt_inj.mp ha
  obtain rfl : b = -1 := Int64.toInt_inj.mp hb
  rw [floorQuotient_minValue]
  rfl

theorem roundsTo_ofInt_toInt (n : Int64) : RoundsTo n.toInt (ofInt n.toInt) := by
  apply roundsTo_ofInt
  obtain ⟨hlow, hhigh⟩ := fits_toInt n
  rcases Nat.eq_zero_or_pos n.toInt.natAbs with hzero | hpos
  · simp [hzero]
  · have hlog := (Nat.log2_lt (Nat.ne_of_gt hpos)).mpr
      (show n.toInt.natAbs < 2 ^ 64 by omega)
    omega

end Binary64

open Binary64

namespace Operator

theorem apply_floorDivide_eq_error_iff (a b : Float) :
    floorDivide.apply a b = .error .integerDivisionByZero ↔ truncation b = 0 := by
  rw [apply_eq_error_iff, toInt64_eq_zero_iff]
  simp

theorem apply_floorDivide {a b : Float} (hzero : truncation b ≠ 0) :
    floorDivide.apply a b = .ok (ofInt (floorQuotient (toInt64 a) (toInt64 b)).toInt) :=
  if_neg (mt toInt64_eq_zero_iff.mp hzero)

theorem exists_apply_eq_ok {op : Operator} (hop : op ≠ .floorDivide) (a b : Float) :
    ∃ x, op.apply a b = .ok x := by
  cases happly : op.apply a b with
  | ok x => exact ⟨x, rfl⟩
  | error refusal => exact absurd (apply_eq_error_iff.mp happly).1 hop

/-- Integer division is the floor of the exact quotient of both whole parts, rounded
to the nearest value.  It refuses a divisor with a whole part of zero, and it alone
refuses its operands. -/
theorem floorDivide_floors (a b : Float) :
    (floorDivide.apply a b = .error .integerDivisionByZero ↔ truncation b = 0) ∧
      (truncation b ≠ 0 → ∃ q x, floorDivide.apply a b = .ok x ∧ RoundsTo q x ∧
        if truncation a = -2 ^ 63 ∧ truncation b = -1 then q = -2 ^ 63
        else Fits q ∧ IsFloorQuotient (truncation a) (truncation b) q) ∧
      ∀ op : Operator, op ≠ .floorDivide → ∃ x, op.apply a b = .ok x := by
  refine ⟨apply_floorDivide_eq_error_iff a b, fun hzero => ?_,
    fun op hop => exists_apply_eq_ok hop a b⟩
  refine ⟨_, _, apply_floorDivide hzero, roundsTo_ofInt_toInt _, ?_⟩
  simp only [← toInt_toInt64] at hzero ⊢
  split
  next hoverflow => exact toInt_floorQuotient_of_overflow hoverflow.1 hoverflow.2
  next hfits =>
    refine ⟨fits_toInt _, ?_⟩
    rw [toInt_floorQuotient hzero hfits]
    exact isFloorQuotient_fdiv _ hzero

end Operator
end InfixCalculator
