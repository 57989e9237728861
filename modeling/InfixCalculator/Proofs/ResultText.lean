import InfixCalculator.Proofs.Cut
import InfixCalculator.Proofs.Outcome
import InfixCalculator.Proofs.ReadBack

/-!
# Results used as input

The text of a finite result is a literal, and evaluating it gives the result back.
Only the sign of a zero is lost, as the result field does not write it.  The other
results are written as words; their letters are unknown symbols, so these texts
are refused.
-/

namespace InfixCalculator

open Decimal (Literal Style)
open Token

/-! ## Texts that are one literal -/

theorem Token.tokenize_literal (literal : Literal) :
    tokenize (.ofList literal.text) = [number literal.value] := by
  have hlexeme : IsLexeme none literal.text [] :=
    isLexeme_text literal (fun _ => Or.inl rfl) (by simp [EndsRun])
  have hlexes : Lexes none literal.text [literal.text] [number literal.value] := by
    simpa using Lexes.lexeme hlexeme (.number literal) .nil
  apply tokenize_of_lexes
  rwa [String.toList_ofList]

theorem evaluate_literal (literal : Literal) :
    evaluate (.ofList literal.text) = .ok literal.value := by
  rw [evaluate, tokenize_literal]
  rfl

/-! ## Texts with a letter -/

theorem Token.isBlank_or_isLiteralChar_eq_false_of_isAlpha {c : Char}
    (hletter : c.isAlpha = true) : Text.isBlank c = false ∧ isLiteralChar c = false := by
  have hrange : (65 ≤ c.toNat ∧ c.toNat ≤ 90) ∨ (97 ≤ c.toNat ∧ c.toNat ≤ 122) := by
    simpa [Char.isAlpha, Char.isUpper, Char.isLower, UInt32.le_iff_toNat_le] using hletter
  constructor
  · simp only [Text.isBlank, Bool.or_eq_false_iff, Bool.and_eq_false_iff, beq_eq_false_iff_ne,
      decide_eq_false_iff_not]
    omega
  · have hpoint : c ≠ '.' := by
      rintro rfl
      cases hletter
    have hdigit : c.isDigit = false := by
      rw [← Bool.not_eq_true, Char.isDigit_iff_toNat]
      simp only [Char.reduceToNat]
      omega
    simp [isLiteralChar, hdigit, hpoint]

/-- A letter is an unknown symbol wherever it stands. -/
theorem Token.unknown_mem_tokenize_of_isAlpha {text : String} {c : Char}
    (hmem : c ∈ text.toList) (hletter : c.isAlpha = true) :
    unknown (.ofList [c]) ∈ tokenize text := by
  obtain ⟨hblank, hliteral⟩ := isBlank_or_isLiteralChar_eq_false_of_isAlpha hletter
  have hne {d : Char} (hd : d.isAlpha = false) : c ≠ d := by
    rintro rfl
    rw [hletter] at hd
    cases hd
  have hoperator : ∀ op : Operator, op.symbol.toList ≠ [c] := by
    intro op hop
    have hsymbol : ∀ d ∈ op.symbol.toList, d.isAlpha = false := by
      cases op <;> simp [Operator.symbol, Char.isAlpha, Char.isUpper, Char.isLower]
    exact hne (hsymbol c (by simp [hop])) rfl
  have hstands : StandsFor [c] (unknown (.ofList [c])) :=
    .unknown (by simpa using hne rfl) (by simpa using hne rfl)
      (fun literal => literal.text_ne_singleton (isDigit_eq_false_of_isLiteralChar hliteral))
      hoperator
  have hdouble : ¬Doubles c := by
    rintro (hc | hc)
    · exact hne rfl hc
    · exact hne rfl hc
  obtain ⟨before, after, htext⟩ := List.append_of_mem hmem
  rw [tokenize, htext, Scanner.scan_start_append before (.cons hliteral hdouble after),
    Scanner.scan_single hblank hliteral (fun hc => absurd hc (hne rfl))
      (fun hc => absurd hc hdouble), ← standsFor_iff.mp hstands]
  simp

theorem exists_evaluate_eq_error {text symbol : String} (hmem : unknown symbol ∈ tokenize text) :
    ∃ refusal, evaluate text = .error refusal := by
  cases houtcome : evaluate text with
  | ok value => exact absurd hmem ((wellArranged_of_evaluate_eq_ok houtcome).1.known symbol)
  | error refusal => exact ⟨refusal, rfl⟩

/-! ## Results -/

theorem Binary64.toBits_ofUnits_zero (negative : Bool) :
    (ofUnits negative 0).toBits = if negative then 0x8000000000000000 else 0 := by
  have hcode : ofUnits negative 0 = ofCode negative 0 := by
    rw [ofUnits, show (0 : Nat) = unitsOfCode 0 from rfl, nearestCode_unitsOfCode (by decide)]
    rfl
  rw [hcode, ← UInt64.toNat_inj, toNat_toBits_ofCode negative (by decide)]
  cases negative <;> rfl

theorem Binary64.shape_of_toBits_eq_negative_zero {value : Float}
    (hbits : value.toBits = 0x8000000000000000) : shape value = .finite true 0 := by
  rw [shape, hbits]
  rfl

/-- Evaluating the text of a result gives the result again, without the sign of a zero,
unless it is infinite or no number; then the text is refused. -/
theorem evaluate_render_result (value : Float) :
    (Binary64.IsFinite value →
      ∃ literal : Literal, literal.text = (Style.result.render value).toList ∧
        tokenize (Style.result.render value) = [number literal.value] ∧
        evaluate (Style.result.render value) = .ok literal.value ∧
        literal.value.toBits =
          if value.toBits = 0x8000000000000000 then 0 else value.toBits) ∧
    (¬Binary64.IsFinite value →
      ∃ refusal, evaluate (Style.result.render value) = .error refusal) := by
  constructor
  · rintro ⟨negative, units, hshape⟩
    obtain ⟨literal, htext, hnegative, hvalue⟩ := Style.result.exists_literal_render hshape
    have hrender : Style.result.render value = .ofList literal.text := by
      rw [htext, String.ofList_toList]
    refine ⟨literal, htext, ?_, ?_, ?_⟩
    · rw [hrender, tokenize_literal]
    · rw [hrender, evaluate_literal]
    · have hkept := Binary64.ofUnits_of_shape_eq_finite hshape
      by_cases hzero : units = 0
      · subst hzero
        have hunsigned : literal.negative = false := by simpa [Style.result] using hnegative
        rw [hvalue, hunsigned, ← hkept, Binary64.toBits_ofUnits_zero,
          Binary64.toBits_ofUnits_zero]
        cases negative <;> rfl
      · have hsigned : literal.negative = negative := by
          simpa [Style.result, bne_iff_ne.mpr hzero] using hnegative
        have hne : value.toBits ≠ 0x8000000000000000 := by
          intro hbits
          rw [Binary64.shape_of_toBits_eq_negative_zero hbits] at hshape
          exact hzero (Binary64.Shape.finite.inj hshape).2.symm
        rw [hvalue, hsigned, hkept, if_neg hne]
  · intro hinfinite
    cases hshape : Binary64.shape value with
    | finite negative units => exact absurd ⟨negative, units, hshape⟩ hinfinite
    | nan =>
        have hletter : 'N' ∈ (Style.result.render value).toList := by
          simp [Style.render, hshape]
        exact exists_evaluate_eq_error
          (unknown_mem_tokenize_of_isAlpha hletter (by decide))
    | infinite negative =>
        have hletter : 'I' ∈ (Style.result.render value).toList := by
          simp [Style.render, hshape, Style.result]
        exact exists_evaluate_eq_error
          (unknown_mem_tokenize_of_isAlpha hletter (by decide))

theorem evaluate_render_result_of_negative :
    let zero := Binary64.ofCode true 0
    let infinity := Binary64.ofCode true Binary64.infinityCode
    (Binary64.IsFinite zero ∧
      ∃ literal : Literal, literal.text = (Style.result.render zero).toList ∧
        tokenize (Style.result.render zero) = [number literal.value] ∧
        evaluate (Style.result.render zero) = .ok literal.value ∧
        literal.value.toBits = if zero.toBits = 0x8000000000000000 then 0 else zero.toBits) ∧
    ¬Binary64.IsFinite infinity ∧
      ∃ refusal, evaluate (Style.result.render infinity) = .error refusal := by
  intro zero infinity
  have hzero : Binary64.IsFinite zero := by decide +kernel
  have hinfinity : ¬Binary64.IsFinite infinity := by decide +kernel
  exact ⟨⟨hzero, (evaluate_render_result zero).1 hzero⟩,
    hinfinity, (evaluate_render_result infinity).2 hinfinity⟩

end InfixCalculator
