import InfixCalculator.Proofs.Rounding
import Mathlib

/-!
# The nearest value

A rounded number is at least as near as any finite value, and the last bit of its
code is zero when another one is as near.  Codes of one binade are as far apart as
the rounding assumes, and those below it are farther away than its first one.
-/

namespace InfixCalculator.Binary64

/-- The number of units in a finite value, with its sign. -/
def units? (x : Float) : Option Int :=
  match shape x with
  | .finite negative units => some (if negative then -units else units)
  | _ => none

/-- Nothing is gained by choosing another number, and a tie requires `even`. -/
def Preferred (even : Prop) (target chosen other : Int) : Prop :=
  (target - chosen).natAbs ≤ (target - other).natAbs ∧
    (other ≠ chosen → (target - other).natAbs = (target - chosen).natAbs → even)

/-- The value is the nearest one to a number of units, a tie going to the even code. -/
structure IsNearest (target : Int) (x : Float) : Prop where
  sign : signBit x = decide (target < 0)
  preferred : ∃ chosen, units? x = some chosen ∧
    ∀ y other, units? y = some other → Preferred (Even x.toBits.toNat) target chosen other

/-- The value is the nearest one to a whole number. -/
def RoundsTo (n : Int) (x : Float) : Prop :=
  IsNearest (n * 2 ^ 1074) x

namespace Preferred

variable {even even' : Prop} {target chosen other : Int}

theorem imp (h : Preferred even target chosen other) (heven : even → even') :
    Preferred even' target chosen other :=
  ⟨h.1, fun hne heq => heven (h.2 hne heq)⟩

theorem neg (h : Preferred even target chosen other) :
    Preferred even (-target) (-chosen) (-other) := by
  refine ⟨?_, fun hne heq => h.2 ?_ ?_⟩
  · have hle := h.1
    omega
  · omega
  · omega

theorem trans_lt {middle : Int} (h : Preferred even target chosen middle)
    (hlt : (target - middle).natAbs < (target - other).natAbs) :
    Preferred even target chosen other := by
  have hle := h.1
  exact ⟨by omega, fun _ heq => by omega⟩

end Preferred

/-! ## Multiples of a step -/

theorem div_le_roundHalfEven (num den : Nat) : num / den ≤ roundHalfEven num den := by
  simp only [roundHalfEven]
  split
  next => exact le_rfl
  next => split <;> omega

theorem roundHalfEven_le (num den : Nat) : roundHalfEven num den ≤ num / den + 1 := by
  simp only [roundHalfEven]
  split
  next => omega
  next => split <;> omega

/-- A multiple at most half a step away has no nearer one. -/
theorem preferred_of_half_step {even : Prop} {num multiple den : Nat}
    (hhalf : 2 * ((num : Int) - (multiple * den : Nat)).natAbs ≤ den)
    (htie : 2 * ((num : Int) - (multiple * den : Nat)).natAbs = den → even) (other : Nat) :
    Preferred even num (multiple * den : Nat) (other * den : Nat) := by
  have hstep {low high : Nat} (hlt : low < high) : low * den + den ≤ high * den := by
    rw [← Nat.succ_mul]
    exact Nat.mul_le_mul_right den hlt
  rcases Nat.lt_trichotomy other multiple with hlt | rfl | hlt
  · have hgap := hstep hlt
    exact ⟨by omega, fun _ heq => htie (by omega)⟩
  · exact ⟨le_rfl, fun hne => absurd rfl hne⟩
  · have hgap := hstep hlt
    exact ⟨by omega, fun _ heq => htie (by omega)⟩

theorem preferred_roundHalfEven (num : Nat) {den : Nat} (hden : 0 < den) (other : Nat) :
    Preferred (Even (roundHalfEven num den)) num (roundHalfEven num den * den : Nat)
      (other * den : Nat) := by
  have hsum := Nat.div_add_mod' num den
  have hrest := Nat.mod_lt num hden
  have hnext : (num / den + 1) * den = num / den * den + den := Nat.succ_mul _ _
  simp only [roundHalfEven]
  split
  next hlow => exact preferred_of_half_step (by omega) (fun htie => by omega) other
  next hlow =>
    split
    next hhigh => exact preferred_of_half_step (by omega) (fun htie => by omega) other
    next hhigh =>
      -- The rest is half a step, so either neighbour is as near.
      rcases Nat.mod_two_eq_zero_or_one (num / den) with hparity | hparity
      · rw [hparity, Nat.add_zero]
        exact preferred_of_half_step (by omega) (fun _ => Nat.even_iff.mpr hparity) other
      · rw [hparity]
        exact preferred_of_half_step (by omega) (fun _ => Nat.even_iff.mpr (by omega)) other

/-! ## Codes of a binade -/

theorem unitsOfCode_add {exponent significand : Nat} (hle : significand ≤ 2 ^ 53)
    (hnormal : exponent = 0 ∨ 2 ^ 52 ≤ significand) :
    unitsOfCode (exponent * 2 ^ 52 + significand) = significand * 2 ^ exponent := by
  simp only [unitsOfCode, Nat.pow_eq]
  split
  next hsubnormal =>
    obtain rfl : exponent = 0 := by omega
    simp
  next hcode =>
    rcases Nat.lt_or_eq_of_le hle with hlt | rfl
    · have hdiv : (exponent * 2 ^ 52 + significand) / 2 ^ 52 = exponent + 1 := by omega
      have hmod : 2 ^ 52 + (exponent * 2 ^ 52 + significand) % 2 ^ 52 = significand := by omega
      rw [hdiv, hmod, Nat.add_sub_cancel]
    · -- The significand is carried over to the next binade.
      have hdiv : (exponent * 2 ^ 52 + 2 ^ 53) / 2 ^ 52 = exponent + 2 := by omega
      have hmod : 2 ^ 52 + (exponent * 2 ^ 52 + 2 ^ 53) % 2 ^ 52 = 2 ^ 52 := by omega
      rw [hdiv, hmod, Nat.add_sub_assoc (by decide), Nat.pow_succ]
      ring

def stepExponent (units : Nat) : Nat :=
  units.log2 - 52

theorem lt_mul_step (units : Nat) : units < 2 ^ 53 * 2 ^ stepExponent units := by
  rw [← Nat.pow_add, stepExponent]
  exact Nat.lt_of_lt_of_le Nat.lt_log2_self (Nat.pow_le_pow_right (by decide) (by omega))

theorem mul_step_le {units : Nat} (hne : stepExponent units ≠ 0) :
    2 ^ 52 * 2 ^ stepExponent units ≤ units := by
  rw [stepExponent] at hne ⊢
  have hunits : units ≠ 0 := by
    rintro rfl
    exact hne rfl
  rw [← Nat.pow_add, Nat.add_sub_cancel' (by omega)]
  exact Nat.log2_self_le hunits

/-- The number of steps of `2 ^ stepExponent` to which a magnitude is rounded. -/
def roundedSteps (units : Nat) : Nat :=
  roundHalfEven units (2 ^ stepExponent units)

theorem roundedSteps_le (units : Nat) : roundedSteps units ≤ 2 ^ 53 := by
  have hquotient := (Nat.div_lt_iff_lt_mul (Nat.two_pow_pos _)).mpr (lt_mul_step units)
  have hround := roundHalfEven_le units (2 ^ stepExponent units)
  rw [roundedSteps]
  omega

theorem le_roundedSteps {units : Nat} (hne : stepExponent units ≠ 0) :
    2 ^ 52 ≤ roundedSteps units :=
  ((Nat.le_div_iff_mul_le (Nat.two_pow_pos _)).mpr (mul_step_le hne)).trans
    (div_le_roundHalfEven _ _)

section

variable {units : Nat} (hlog : units.log2 ≤ 2096)

include hlog

theorem nearestCode_eq :
    nearestCode units 1 = stepExponent units * 2 ^ 52 + roundedSteps units := by
  have hle := roundedSteps_le units
  simp only [nearestCode, Nat.div_one, Nat.one_mul, Nat.pow_eq, infinityCode_eq]
  simp only [roundedSteps, stepExponent] at hle ⊢
  omega

theorem nearestCode_lt_infinityCode : nearestCode units 1 < infinityCode := by
  have hle := roundedSteps_le units
  rw [nearestCode_eq hlog, stepExponent, infinityCode_eq]
  omega

theorem unitsOfCode_nearestCode :
    unitsOfCode (nearestCode units 1) = roundedSteps units * 2 ^ stepExponent units := by
  rw [nearestCode_eq hlog]
  exact unitsOfCode_add (roundedSteps_le units) (Decidable.or_iff_not_imp_left.mpr le_roundedSteps)

end

/-- A code is a multiple of the step of any binade, or below it. -/
theorem unitsOfCode_eq_mul_or_lt (code exponent : Nat) :
    (∃ multiple, unitsOfCode code = multiple * 2 ^ exponent) ∨
      exponent ≠ 0 ∧ unitsOfCode code < 2 ^ 52 * 2 ^ exponent := by
  obtain ⟨significand, own, hunits, hown, -⟩ := exists_significand code
  rcases Nat.lt_or_ge own exponent with hlt | hge
  · refine .inr ⟨by omega, ?_⟩
    rw [← Nat.pow_add]
    exact Nat.lt_of_lt_of_le Nat.lt_log2_self (Nat.pow_le_pow_right (by decide) (by omega))
  · refine .inl ⟨significand * 2 ^ (own - exponent), ?_⟩
    rw [hunits, Nat.mul_assoc, ← Nat.pow_add, Nat.sub_add_cancel hge]

section

variable {units : Nat} (hlog : units.log2 ≤ 2096)

include hlog

theorem preferred_nearestCode (code : Nat) :
    Preferred (Even (nearestCode units 1)) units (unitsOfCode (nearestCode units 1))
      (unitsOfCode code) := by
  have heven : Even (roundedSteps units) → Even (nearestCode units 1) := by
    intro hsteps
    rw [nearestCode_eq hlog]
    exact (Even.mul_left (by decide) _).add hsteps
  have hmultiples (multiple : Nat) :=
    (preferred_roundHalfEven units (Nat.two_pow_pos (stepExponent units)) multiple).imp heven
  rw [unitsOfCode_nearestCode hlog]
  rcases unitsOfCode_eq_mul_or_lt code (stepExponent units) with ⟨multiple, hmultiple⟩ | ⟨hne, hlt⟩
  · rw [hmultiple]
    exact hmultiples multiple
  · -- The first multiple of the binade lies between the code and the rounded number.
    have hfirst := mul_step_le hne
    exact (hmultiples (2 ^ 52)).trans_lt (by omega)

theorem preferred_neg_unitsOfCode (code : Nat) :
    Preferred (Even (nearestCode units 1)) units (unitsOfCode (nearestCode units 1))
      (-(unitsOfCode code : Int)) := by
  have hzero : Preferred (Even (nearestCode units 1)) units
      (unitsOfCode (nearestCode units 1)) 0 := preferred_nearestCode hlog 0
  by_cases hcode : unitsOfCode code = 0
  · rw [hcode, Nat.cast_zero, Int.neg_zero]
    exact hzero
  · exact hzero.trans_lt (by omega)

end

/-! ## Signs -/

theorem units?_ofCode (negative : Bool) {code : Nat} (hcode : code < infinityCode) :
    units? (ofCode negative code) =
      some (if negative then -(unitsOfCode code : Int) else unitsOfCode code) := by
  rw [units?, shape_ofCode negative hcode.le, if_pos hcode]

theorem exists_code_of_units?_eq_some {x : Float} {units : Int} (h : units? x = some units) :
    ∃ code, units = unitsOfCode code ∨ units = -(unitsOfCode code : Int) := by
  simp only [units?] at h
  split at h
  next negative magnitude hshape =>
    obtain ⟨code, -, rfl, -⟩ := exists_ofCode_of_shape_eq_finite hshape
    refine ⟨code, ?_⟩
    rw [← Option.some.inj h]
    cases negative with
    | false => exact .inl rfl
    | true => exact .inr rfl
  next => cases h

theorem isNearest_ofUnits {target : Int} (hlog : target.natAbs.log2 ≤ 2096) :
    IsNearest target (ofUnits (decide (target < 0)) target.natAbs) := by
  have hfinite := nearestCode_lt_infinityCode hlog
  have heven : Even (nearestCode target.natAbs 1) →
      Even (ofUnits (decide (target < 0)) target.natAbs).toBits.toNat := by
    intro hcode
    rw [ofUnits, toNat_toBits_ofCode _ hfinite.le]
    refine Even.add ?_ hcode
    split <;> decide
  refine ⟨signBit_ofCode _ hfinite.le, _, units?_ofCode _ hfinite, fun y other hother => ?_⟩
  obtain ⟨code, hcode⟩ := exists_code_of_units?_eq_some hother
  have hsame := (preferred_nearestCode hlog code).imp heven
  have hopposite := (preferred_neg_unitsOfCode hlog code).imp heven
  by_cases hneg : target < 0
  · have htarget : target = -(target.natAbs : Int) := by omega
    rw [if_pos (decide_eq_true hneg)]
    rcases hcode with rfl | rfl
    · have hpreferred := hopposite.neg
      rw [Int.neg_neg, ← htarget] at hpreferred
      exact hpreferred
    · have hpreferred := hsame.neg
      rw [← htarget] at hpreferred
      exact hpreferred
  · have htarget : target = (target.natAbs : Int) := by omega
    rw [if_neg (by simpa using hneg)]
    rcases hcode with rfl | rfl
    · rw [← htarget] at hsame
      exact hsame
    · rw [← htarget] at hopposite
      exact hopposite

theorem log2_mul_two_pow_le (n places : Nat) : (n * 2 ^ places).log2 ≤ n.log2 + places := by
  rcases Nat.eq_zero_or_pos n with rfl | hpos
  · simp
  · have hne : n * 2 ^ places ≠ 0 := by positivity
    have hlt : n * 2 ^ places < 2 ^ (n.log2 + 1 + places) := by
      rw [Nat.pow_add]
      exact Nat.mul_lt_mul_of_pos_right Nat.lt_log2_self (Nat.two_pow_pos _)
    have hlog := (Nat.log2_lt hne).mpr hlt
    omega

theorem isNearest_ofUnits_mul_two_pow {n : Int} {places : Nat}
    (hlog : n.natAbs.log2 + places ≤ 2096) :
    IsNearest (n * 2 ^ places) (ofUnits (decide (n < 0)) (n.natAbs * 2 ^ places)) := by
  have hpos : (0 : Int) < 2 ^ places := by positivity
  have hnatAbs : (n * 2 ^ places).natAbs = n.natAbs * 2 ^ places := by
    rw [Int.natAbs_mul, Int.natAbs_pow]
    rfl
  have hsign : n * 2 ^ places < 0 ↔ n < 0 := by
    simp [mul_neg_iff, hpos, hpos.not_gt]
  have hscaled : (n * 2 ^ places).natAbs.log2 ≤ 2096 := by
    rw [hnatAbs]
    exact (log2_mul_two_pow_le n.natAbs places).trans hlog
  simpa only [hnatAbs, hsign] using isNearest_ofUnits hscaled

/-- A whole number is rounded to nearest as long as it is below `2¹⁰²³`. -/
theorem roundsTo_ofInt {n : Int} (hlog : n.natAbs.log2 ≤ 1022) : RoundsTo n (ofInt n) := by
  have hplaces : n.natAbs.log2 + 1074 ≤ 2096 := by omega
  unfold RoundsTo ofInt nearest
  -- For any number of places, as the power itself is too large to be computed.
  generalize 1074 = places at hplaces ⊢
  exact isNearest_ofUnits_mul_two_pow hplaces

end InfixCalculator.Binary64
