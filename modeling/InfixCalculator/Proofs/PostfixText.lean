import InfixCalculator.Proofs.Outcome
import InfixCalculator.Proofs.Rendering

/-!
# The text of a postfix order

No two tokens that a text can have are written alike, and none is written with a
blank.  So the text of a list of them, with a space between any two, is the text of
no other list.  The conversion only moves the tokens of a text about; hence the
postfix order on display tells which computation was done.
-/

namespace InfixCalculator

open Text (isBlank)

namespace Token

/-- A number that is a number, or an unknown symbol that could be nothing else. -/
structure Plain (token : Token) : Prop where
  shape_ne_nan : ∀ value, number value = token → Binary64.shape value ≠ .nan
  isUnknown : ∀ text, unknown text = token → IsUnknown text.toList

theorem plain_of_mem_tokenize {text : String} {token : Token} (hmem : token ∈ tokenize text) :
    Plain token where
  shape_ne_nan := by
    rintro value rfl
    exact (canonical_tokenize text).shape_ne_nan value hmem
  isUnknown := by
    rintro symbol rfl
    exact (canonical_tokenize text).isUnknown symbol hmem

theorem plain_of_mem_ofInfix {text : String} {output : List Token}
    (hconvert : Rpn.ofInfix (tokenize text) = .ok output) :
    ∀ token ∈ output, Plain token := by
  intro token hmem
  exact plain_of_mem_tokenize (Rpn.mem_of_mem_ofInfix hconvert hmem)

/-! ## Texts of single tokens -/

def infinity (negative : Bool) : Token :=
  number (Binary64.ofCode negative Binary64.infinityCode)

theorem toList_text_infinity (negative : Bool) :
    (infinity negative).text.toList =
      if negative then ['-', 'i', 'n', 'f'] else ['i', 'n', 'f'] := by
  rw [infinity, text, Decimal.Style.render, Binary64.shape_ofCode_infinityCode]
  cases negative <;> simp [Decimal.Style.token]

/-- Only the text of an infinity is no lexeme that stands for the token. -/
theorem Plain.isLexeme_or_eq_infinity {token : Token} (hplain : Plain token) :
    (IsLexeme none token.text.toList [] ∧ StandsFor token.text.toList token) ∨
      ∃ negative, token = infinity negative := by
  by_cases hfinite : ∀ value, number value = token → Binary64.IsFinite value
  · left
    exact isLexeme_and_standsFor_text hfinite hplain.isUnknown (fun _ => Or.inl rfl)
      (by simp [Separated])
  · right
    push Not at hfinite
    obtain ⟨value, rfl, hinfinite⟩ := hfinite
    cases hshape : Binary64.shape value with
    | nan => exact absurd hshape (hplain.shape_ne_nan value rfl)
    | finite negative units => exact absurd ⟨negative, units, hshape⟩ hinfinite
    | infinite negative =>
        refine ⟨negative, ?_⟩
        rw [infinity, Binary64.ofCode_of_shape_eq_infinite hshape]

theorem IsLexeme.ne_nil {previous : Option Token} {lexeme rest : List Char}
    (hlexeme : IsLexeme previous lexeme rest) : lexeme ≠ [] := by
  cases hlexeme with
  | run hne _ _ => exact hne
  | _ => simp

/-- What is no digit, point or minus sign is a lexeme by itself, or doubled. -/
theorem IsLexeme.length_le_two_of_mem {previous : Option Token} {lexeme rest : List Char}
    (hlexeme : IsLexeme previous lexeme rest) {c : Char} (hmem : c ∈ lexeme)
    (hliteral : isLiteralChar c = false) (hminus : c ≠ '-') : lexeme.length ≤ 2 := by
  have hnotMem {run : List Char} (hrun : ∀ d ∈ run, isLiteralChar d = true) : c ∉ run := by
    intro hc
    rw [hrun c hc] at hliteral
    cases hliteral
  cases hlexeme with
  | run _ hrun _ => exact absurd hmem (hnotMem hrun)
  | signed _ hrun _ =>
      rcases List.mem_cons.mp hmem with hc | hc
      · exact absurd hc hminus
      · exact absurd hc (hnotMem hrun)
  | double => exact Nat.le_refl 2
  | single => exact Nat.le_succ 1

theorem Plain.toList_text_ne_nil {token : Token} (hplain : Plain token) :
    token.text.toList ≠ [] := by
  rcases hplain.isLexeme_or_eq_infinity with ⟨hlexeme, -⟩ | ⟨negative, rfl⟩
  · exact hlexeme.ne_nil
  · rw [toList_text_infinity]
    cases negative <;> simp

theorem Plain.space_notMem_text {token : Token} (hplain : Plain token) :
    ' ' ∉ token.text.toList := by
  rcases hplain.isLexeme_or_eq_infinity with ⟨hlexeme, -⟩ | ⟨negative, rfl⟩
  · intro hmem
    have hkept := hlexeme.isBlank_eq_false ' ' hmem
    cases hkept
  · rw [toList_text_infinity]
    cases negative <;> simp

/-- An infinity is written with letters, which no other token of three characters or
more is. -/
theorem Plain.eq_infinity_of_text_eq {token : Token} (hplain : Plain token) {negative : Bool}
    (htext : token.text = (infinity negative).text) : token = infinity negative := by
  rcases hplain.isLexeme_or_eq_infinity with ⟨hlexeme, -⟩ | ⟨other, rfl⟩
  · rw [htext, toList_text_infinity] at hlexeme
    have hletter : 'n' ∈ if negative then ['-', 'i', 'n', 'f'] else ['i', 'n', 'f'] := by
      cases negative <;> simp
    have hlength := hlexeme.length_le_two_of_mem hletter (by decide) (by decide)
    cases negative <;> simp at hlength
  · have hchars := congrArg String.toList htext
    rw [toList_text_infinity, toList_text_infinity] at hchars
    cases other <;> cases negative <;> simp at hchars ⊢

theorem Plain.eq_of_text_eq {first second : Token} (hfirst : Plain first)
    (hsecond : Plain second) (htext : first.text = second.text) : first = second := by
  rcases hfirst.isLexeme_or_eq_infinity with ⟨-, hstands⟩ | ⟨negative, rfl⟩
  · rcases hsecond.isLexeme_or_eq_infinity with ⟨-, hother⟩ | ⟨negative, rfl⟩
    · rw [standsFor_iff.mp hstands, standsFor_iff.mp hother, htext]
    · exact hfirst.eq_infinity_of_text_eq htext
  · exact (hsecond.eq_infinity_of_text_eq htext.symm).symm

/-! ## Texts of lists -/

theorem splitOn_render {tokens : List Token} (hne : tokens ≠ [])
    (hplain : ∀ token ∈ tokens, Plain token) :
    (render tokens).toList.splitOn ' ' = tokens.map fun token => token.text.toList := by
  have hspace : ∀ chars ∈ tokens.map fun token => token.text.toList, ' ' ∉ chars := by
    intro chars hchars
    obtain ⟨token, hmem, rfl⟩ := List.mem_map.mp hchars
    exact (hplain token hmem).space_notMem_text
  rw [render, String.toList_intercalate, List.map_map]
  exact List.splitOn_intercalate ' ' hspace (by simpa using hne)

theorem toList_render_eq_nil_iff {tokens : List Token}
    (hplain : ∀ token ∈ tokens, Plain token) : (render tokens).toList = [] ↔ tokens = [] := by
  cases tokens with
  | nil => simp [render]
  | cons token tokens =>
      obtain ⟨tail, hrender, -, -⟩ := exists_render_cons token tokens
      have hne := (hplain token List.mem_cons_self).toList_text_ne_nil
      simp [hrender, hne]

theorem eq_of_map_text_eq {first second : List Token} (hfirst : ∀ token ∈ first, Plain token)
    (hsecond : ∀ token ∈ second, Plain token)
    (htexts : (first.map fun token => token.text.toList) =
      second.map fun token => token.text.toList) : first = second := by
  induction first generalizing second with
  | nil => exact (List.map_eq_nil_iff.mp htexts.symm).symm
  | cons token first ih =>
      cases second with
      | nil => cases htexts
      | cons other second =>
          obtain ⟨hhead, htail⟩ := List.cons.inj htexts
          have htoken : token = other :=
            (hfirst token List.mem_cons_self).eq_of_text_eq (hsecond other List.mem_cons_self)
              (String.toList_inj.mp hhead)
          have hrest : first = second :=
            ih (fun t ht => hfirst t (List.mem_cons_of_mem _ ht))
              (fun t ht => hsecond t (List.mem_cons_of_mem _ ht)) htail
          rw [htoken, hrest]

theorem eq_of_render_eq {first second : List Token} (hfirst : ∀ token ∈ first, Plain token)
    (hsecond : ∀ token ∈ second, Plain token) (hrender : render first = render second) :
    first = second := by
  have hiff : first = [] ↔ second = [] := by
    rw [← toList_render_eq_nil_iff hfirst, hrender, toList_render_eq_nil_iff hsecond]
  by_cases hnil : first = []
  · rw [hnil, hiff.mp hnil]
  · apply eq_of_map_text_eq hfirst hsecond
    rw [← splitOn_render hnil hfirst, hrender, splitOn_render (mt hiff.mpr hnil) hsecond]

end Token

/-! ## The postfix order on display -/

open Token

theorem Calculation.exists_ofInfix_of_ofText {text : String} {calculation : Calculation}
    (hcalculation : ofText text = .ok calculation) :
    ∃ output, Rpn.ofInfix (tokenize text) = .ok output ∧
      Rpn.evaluate output = .ok calculation.value ∧
        calculation.working.postfixTokens = render output := by
  simp only [ofText] at hcalculation
  cases hconvert : Rpn.ofInfix (tokenize text) with
  | error refusal =>
      rw [hconvert] at hcalculation
      cases hcalculation
  | ok output =>
      rw [hconvert] at hcalculation
      cases hvalue : Rpn.evaluate output with
      | error refusal => simp [bind, Except.bind, hvalue] at hcalculation
      | ok value =>
          simp only [bind, Except.bind, hvalue, pure, Except.pure, Except.ok.injEq]
            at hcalculation
          subst hcalculation
          exact ⟨output, rfl, hvalue, rfl⟩

/-- Two postfix orders that are written alike are the same list of tokens, so two
calculations that show the same postfix order have the same value. -/
theorem ofInfix_eq_of_render_eq (first second : String) :
    (∀ output output', Rpn.ofInfix (tokenize first) = .ok output →
      Rpn.ofInfix (tokenize second) = .ok output' → render output = render output' →
        output = output' ∧ Rpn.evaluate output = Rpn.evaluate output') ∧
    (∀ calculation calculation', Calculation.ofText first = .ok calculation →
      Calculation.ofText second = .ok calculation' →
        calculation.working.postfixTokens = calculation'.working.postfixTokens →
          calculation.value = calculation'.value) := by
  have hsame {output output' : List Token} (hfirst : Rpn.ofInfix (tokenize first) = .ok output)
      (hsecond : Rpn.ofInfix (tokenize second) = .ok output')
      (hrender : render output = render output') : output = output' :=
    eq_of_render_eq (plain_of_mem_ofInfix hfirst) (plain_of_mem_ofInfix hsecond) hrender
  constructor
  · intro output output' hfirst hsecond hrender
    obtain rfl := hsame hfirst hsecond hrender
    exact ⟨rfl, rfl⟩
  · intro calculation calculation' hfirst hsecond hworking
    obtain ⟨output, hconvert, hvalue, hshown⟩ := Calculation.exists_ofInfix_of_ofText hfirst
    obtain ⟨output', hconvert', hvalue', hshown'⟩ := Calculation.exists_ofInfix_of_ofText hsecond
    obtain rfl := hsame hconvert hconvert' (by rw [← hshown, hworking, hshown'])
    exact Except.ok.inj (hvalue.symm.trans hvalue')

theorem ofInfix_eq_of_render_eq_group :
    ∃ output output' calculation calculation',
      Rpn.ofInfix (tokenize "-1") = .ok output ∧ Rpn.ofInfix (tokenize "(-1)") = .ok output' ∧
      Calculation.ofText "-1" = .ok calculation ∧ Calculation.ofText "(-1)" = .ok calculation' ∧
      render output = render output' ∧
      calculation.working.postfixTokens = calculation'.working.postfixTokens ∧
      (output = output' ∧ Rpn.evaluate output = Rpn.evaluate output') ∧
      calculation.value = calculation'.value := by
  let literal : Decimal.Literal := ⟨true, .singleton '1' rfl, none⟩
  let first : Infix Decimal.Literal := .operand (.leaf literal)
  let second : Infix Decimal.Literal := .operand (.group first)
  have hsigns : first.SignsLead ∧ second.SignsLead := ⟨fun _ => rfl, fun _ => rfl⟩
  have hfirst : tokenize "-1" = [number literal.value] :=
    tokenize_of_spells hsigns.1 (.lexeme ['-', '1'] .nil)
  have hsecond : tokenize "(-1)" = [leftParen, number literal.value, rightParen] :=
    tokenize_of_spells hsigns.2 (.lexeme ['('] <| .lexeme ['-', '1'] <| .lexeme [')'] .nil)
  have hconvert : Rpn.ofInfix (tokenize "-1") = .ok [number literal.value] := by
    rw [hfirst]
    rfl
  have hconvert' : Rpn.ofInfix (tokenize "(-1)") = .ok [number literal.value] := by
    rw [hsecond]
    rfl
  have hcalculation : Calculation.ofText "-1" = .ok ⟨literal.value,
      ⟨render [number literal.value], render [number literal.value]⟩⟩ := by
    rw [Calculation.ofText, hfirst]
    rfl
  have hcalculation' : Calculation.ofText "(-1)" = .ok ⟨literal.value,
      ⟨render [leftParen, number literal.value, rightParen], render [number literal.value]⟩⟩ := by
    rw [Calculation.ofText, hsecond]
    rfl
  have hsame := ofInfix_eq_of_render_eq "-1" "(-1)"
  exact ⟨_, _, _, _, hconvert, hconvert', hcalculation, hcalculation', rfl, rfl,
    hsame.1 _ _ hconvert hconvert' rfl, hsame.2 _ _ hcalculation hcalculation' rfl⟩

end InfixCalculator
