import InfixCalculator.Decimal.Notation
import InfixCalculator.Proofs.Literal
import InfixCalculator.Proofs.Rounding
import Mathlib

/-!
# Texts of values read back

The text of a finite value is a literal, and reading it gives the value again.
The search for the shortest decimal never leaves the decimals that are rounded to
the value, and positional notation spells the decimal exactly.
-/

namespace InfixCalculator

namespace Decimal

/-! ## The search keeps the value -/

theorem reads_of_neighbour?_eq_some {reads : Nat → Bool} {exact grid count : Nat}
    (hcount : neighbour? reads exact grid = some count) : reads (count * grid) = true := by
  simp only [neighbour?] at hcount
  split at hcount
  next hlow hhigh =>
    obtain rfl := Option.some.inj hcount
    split
    next => exact hlow
    next => exact hhigh
  next hlow _ =>
    obtain rfl := Option.some.inj hcount
    exact hlow
  next _ hhigh =>
    obtain rfl := Option.some.inj hcount
    exact hhigh
  next => cases hcount

theorem reads_search (reads : Nat → Bool) {exact : Nat} (hexact : reads exact = true) (k : Nat) :
    reads (search reads exact k).units = true := by
  induction k with
  | zero => simpa [search, Multiple.units] using hexact
  | succ k ih =>
      rw [search]
      split
      next count hcount => exact reads_of_neighbour?_eq_some hcount
      next => exact ih

theorem unitRatio_pos : 0 < unitRatio := by
  unfold unitRatio
  -- For any exponent, as the power itself is too large to be computed.
  generalize 1074 = places
  exact Nat.pow_pos (by decide)

theorem codeOfUnits_mul_unitRatio (units : Nat) :
    codeOfUnits (units * unitRatio) = Binary64.nearestCode units 1 := by
  have hscale := Binary64.nearestCode_mul_right units 1 unitRatio_pos
  rwa [Nat.one_mul] at hscale

theorem codeOfUnits_shortest (units : Nat) :
    codeOfUnits (shortest units).units = Binary64.nearestCode units 1 := by
  have hreads := reads_search
    (fun candidate => codeOfUnits candidate == Binary64.nearestCode units 1)
    (beq_iff_eq.mpr (codeOfUnits_mul_unitRatio units)) (topPower (units * unitRatio))
  exact beq_iff_eq.mp hreads

/-! ## Positional notation is exact -/

theorem isDigit_of_mem_digits_or_zeros {n zeros : Nat} {c : Char}
    (hc : c ∈ Nat.toDigits 10 n ∨ c ∈ List.replicate zeros '0') : c.isDigit = true := by
  rcases hc with hdigit | hzero
  · exact Nat.isDigit_of_mem_toDigits (by decide) (by decide) hdigit
  · rw [List.eq_of_mem_replicate hzero]
    decide

/-- The digits of a number with zeros in front, `places` of them together. -/
def padded (places n : Nat) : List Char :=
  List.replicate (places - (Nat.toDigits 10 n).length) '0' ++ Nat.toDigits 10 n

theorem fractionDigits_eq_rdropWhile (places n : Nat) :
    fractionDigits places n = (padded places n).rdropWhile (· == '0') := rfl

theorem length_padded {places n : Nat} (hplaces : 0 < places) (hlt : n < 10 ^ places) :
    (padded places n).length = places := by
  have hlength := (Nat.length_toDigits_le_iff (by decide) hplaces).mpr hlt
  rw [padded, List.length_append, List.length_replicate, Nat.sub_add_cancel hlength]

theorem ofDigitChars_padded (places n : Nat) :
    Nat.ofDigitChars 10 (padded places n) 0 = n := by
  rw [padded, Nat.ofDigitChars_append, Nat.ofDigitChars_replicate_zero, Nat.mul_zero,
    Nat.ofDigitChars_ten_toDigits]

theorem isDigit_of_mem_fractionDigits {places n : Nat} {c : Char}
    (hc : c ∈ fractionDigits places n) : c.isDigit = true := by
  rw [fractionDigits_eq_rdropWhile] at hc
  have hpadded := (List.rdropWhile_prefix _ _).subset hc
  exact isDigit_of_mem_digits_or_zeros (List.mem_append.mp hpadded).symm

/-- Only zeros are dropped at the end, and they count as nothing. -/
theorem exists_zeros_fractionDigits {places n : Nat} (hplaces : 0 < places)
    (hlt : n < 10 ^ places) :
    ∃ zeros, (fractionDigits places n).length + zeros = places ∧
      Nat.ofDigitChars 10 (fractionDigits places n) 0 * 10 ^ zeros = n := by
  have hsplit : (padded places n).rdropWhile (· == '0') ++
      (padded places n).rtakeWhile (· == '0') = padded places n :=
    List.rdropWhile_append_rtakeWhile
  have hzeros : (padded places n).rtakeWhile (· == '0') =
      List.replicate ((padded places n).rtakeWhile (· == '0')).length '0' := by
    apply List.eq_replicate_of_mem
    intro c hc
    simpa using List.mem_rtakeWhile_imp hc
  generalize ((padded places n).rtakeWhile (· == '0')).length = zeros at hzeros
  rw [hzeros, ← fractionDigits_eq_rdropWhile] at hsplit
  refine ⟨zeros, ?_, ?_⟩
  · have hlength := length_padded hplaces hlt
    rwa [← hsplit, List.length_append, List.length_replicate] at hlength
  · have hvalue := ofDigitChars_padded places n
    rwa [← hsplit, Nat.ofDigitChars_append, Nat.ofDigitChars_replicate_zero,
      Nat.mul_comm] at hvalue

theorem ofDigitChars_whole_append {count power places zeros : Nat} {fraction : List Char}
    (hlength : fraction.length + zeros = places)
    (hvalue : Nat.ofDigitChars 10 fraction 0 * 10 ^ zeros = count % 10 ^ places) :
    Nat.ofDigitChars 10 (Nat.toDigits 10 (count / 10 ^ places) ++ fraction) 0 *
        10 ^ (places + power) = count * 10 ^ power * 10 ^ fraction.length := by
  rw [Nat.ofDigitChars_append, Nat.ofDigitChars_ten_toDigits,
    Nat.ofDigitChars_eq_ofDigitChars_zero]
  generalize Nat.ofDigitChars 10 fraction 0 = digits at hvalue ⊢
  generalize hquotient : count / 10 ^ places = quotient
  have hsplit : 10 ^ places * quotient + digits * 10 ^ zeros = count := by
    rw [← hquotient, hvalue, Nat.div_add_mod]
  subst hlength
  rw [← hsplit]
  ring

/-- The digits before and after the point, and the multiple that they spell. -/
theorem exists_positional_eq (multiple : Multiple) :
    ∃ whole fraction : List Char,
      positional multiple = (if fraction = [] then whole else whole ++ '.' :: fraction) ∧
      whole ≠ [] ∧ (∀ c ∈ whole, c.isDigit = true) ∧ (∀ c ∈ fraction, c.isDigit = true) ∧
      Nat.ofDigitChars 10 (whole ++ fraction) 0 * 10 ^ 1074 =
        multiple.units * 10 ^ fraction.length := by
  obtain ⟨count, power⟩ := multiple
  simp only [positional, Multiple.units, Nat.pow_eq]
  generalize 1074 = scale
  split
  next hpower =>
    refine ⟨Nat.toDigits 10 count ++ List.replicate (power - scale) '0', [], rfl,
      by simp [Nat.toDigits_ne_nil],
      fun c hc => isDigit_of_mem_digits_or_zeros (List.mem_append.mp hc), by simp, ?_⟩
    rw [List.append_nil, Nat.ofDigitChars_append, Nat.ofDigitChars_replicate_zero,
      Nat.ofDigitChars_ten_toDigits, List.length_nil, Nat.pow_zero, Nat.mul_one,
      Nat.mul_comm _ count, Nat.mul_assoc, ← Nat.pow_add, Nat.sub_add_cancel hpower]
  next hpower =>
    have hscale : scale = scale - power + power := by omega
    generalize scale - power = places at hscale ⊢
    subst hscale
    have hlt : count % 10 ^ places < 10 ^ places := Nat.mod_lt _ (Nat.pow_pos (by decide))
    obtain ⟨zeros, hlength, hvalue⟩ := exists_zeros_fractionDigits (by omega) hlt
    refine ⟨Nat.toDigits 10 (count / 10 ^ places), fractionDigits places (count % 10 ^ places),
      ?_, Nat.toDigits_ne_nil, fun c hc => Nat.isDigit_of_mem_toDigits (by decide) (by decide) hc,
      fun c hc => isDigit_of_mem_fractionDigits hc, ofDigitChars_whole_append hlength hvalue⟩
    cases fractionDigits places (count % 10 ^ places) <;> rfl

theorem ofDigits_eq_ofCode (negative : Bool) {whole fraction : List Char} {multiple : Multiple}
    (hexact : Nat.ofDigitChars 10 (whole ++ fraction) 0 * 10 ^ 1074 =
      multiple.units * 10 ^ fraction.length) :
    ofDigits negative whole fraction = Binary64.ofCode negative (codeOfUnits multiple.units) := by
  have hproduct : Nat.ofDigitChars 10 (whole ++ fraction) 0 * Nat.pow 2 1074 * unitRatio =
      multiple.units * Nat.pow 10 fraction.length := by
    unfold unitRatio
    revert hexact
    generalize 1074 = places
    intro hexact
    calc
      Nat.ofDigitChars 10 (whole ++ fraction) 0 * 2 ^ places * 5 ^ places =
          Nat.ofDigitChars 10 (whole ++ fraction) 0 * 10 ^ places := by
        rw [Nat.mul_assoc, ← Nat.mul_pow]
      _ = multiple.units * 10 ^ fraction.length := hexact
  have hden : 0 < Nat.pow 10 fraction.length := Nat.pow_pos (by decide)
  rw [ofDigits, Binary64.nearest, Binary64.nearestCode_congr hden unitRatio_pos hproduct,
    codeOfUnits]

theorem exists_literal_positional (negative : Bool) (multiple : Multiple) :
    ∃ literal : Literal, literal.negative = negative ∧ literal.magnitude = positional multiple ∧
      literal.value = Binary64.ofCode negative (codeOfUnits multiple.units) := by
  obtain ⟨whole, fraction, htext, hne, hwhole, hfraction, hexact⟩ := exists_positional_eq multiple
  have hvalue := ofDigits_eq_ofCode negative hexact
  rw [htext]
  cases fraction with
  | nil => exact ⟨⟨negative, ⟨whole, hne, hwhole⟩, none⟩, rfl, rfl, hvalue⟩
  | cons c rest =>
      exact ⟨⟨negative, ⟨whole, hne, hwhole⟩, some ⟨c :: rest, by simp, hfraction⟩⟩, rfl, rfl,
        hvalue⟩

/-! ## Values of literals, literals of values -/

theorem Literal.signBit_value (literal : Literal) :
    Binary64.signBit literal.value = literal.negative :=
  Binary64.signBit_ofCode literal.negative (Binary64.nearestCode_le _ _)

theorem Literal.shape_value_ne_nan (literal : Literal) :
    Binary64.shape literal.value ≠ .nan :=
  Binary64.shape_ofCode_ne_nan literal.negative (Binary64.nearestCode_le _ _)

theorem Style.exists_literal_render (style : Style) {x : Float} {negative : Bool} {units : Nat}
    (hshape : Binary64.shape x = .finite negative units) :
    ∃ literal : Literal, literal.text = (style.render x).toList ∧
      literal.negative = (negative && (style.signedZero || units != 0)) ∧
        literal.value = Binary64.ofUnits literal.negative units := by
  obtain ⟨literal, hnegative, hmagnitude, hvalue⟩ := exists_literal_positional
    (negative && (style.signedZero || units != 0)) (shortest units)
  refine ⟨literal, ?_, hnegative, ?_⟩
  · simp only [Style.render, hshape, Literal.text, hnegative, hmagnitude]
    split <;> simp
  · rw [hvalue, codeOfUnits_shortest, hnegative, Binary64.ofUnits]

theorem exists_literal_render_token {x : Float} (hfinite : Binary64.IsFinite x) :
    ∃ literal : Literal, literal.text = (Style.token.render x).toList ∧ literal.value = x := by
  obtain ⟨negative, units, hshape⟩ := hfinite
  obtain ⟨literal, htext, hnegative, hvalue⟩ := Style.token.exists_literal_render hshape
  refine ⟨literal, htext, ?_⟩
  have hsign : literal.negative = negative := by simpa [Style.token] using hnegative
  rw [hvalue, hsign, Binary64.ofUnits_of_shape_eq_finite hshape]

end Decimal
end InfixCalculator
