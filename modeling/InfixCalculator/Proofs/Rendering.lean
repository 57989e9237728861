import InfixCalculator.Calculation
import InfixCalculator.Proofs.ReadBack
import InfixCalculator.Proofs.Spelling

/-!
# Rendered tokens read back

The tokens of a text are canonical: their numbers are numbers, their unknown
symbols could be nothing else, and what starts with a sign stands where a sign is
read.  Conversely, the text of canonical tokens is cut into the same tokens, as
long as every number has digits, which an infinity has not.

In a rendered text a blank stands between any two lexemes.  It ends a literal and
keeps symbols apart, so only the signs depend on the token before.
-/

namespace InfixCalculator

open Decimal (Literal)
open Text (isBlank)

namespace Token

/-! ## Canonical tokens -/

/-- The texts of unknown symbols: a character that means nothing else, or digits
and points, signed or not, that are no literal. -/
inductive IsUnknown : List Char → Prop
  | char {c : Char} (hblank : isBlank c = false) (hdigit : c.isDigit = false)
      (hparen : c ≠ '(' ∧ c ≠ ')') (hoperator : ∀ op : Operator, op.symbol.toList ≠ [c]) :
      IsUnknown [c]
  | malformed {run lexeme : List Char} (hne : run ≠ [])
      (hrun : ∀ c ∈ run, isLiteralChar c = true) (hlexeme : lexeme = run ∨ lexeme = '-' :: run)
      (hliteral : ∀ literal : Literal, literal.text ≠ lexeme) :
      IsUnknown lexeme

/-- Whether the token is a number or an unknown symbol whose text starts with a
minus sign. -/
def startsWithSign : Token → Bool
  | number value => Binary64.signBit value
  | unknown text => text.toList.head? == some '-'
  | _ => false

structure Canonical (tokens : List Token) : Prop where
  shape_ne_nan : ∀ value, number value ∈ tokens → Binary64.shape value ≠ .nan
  signs_lead : ∀ before token after, tokens = before ++ token :: after →
    token.startsWithSign = true → before = [] ∨ before.getLast? = some leftParen
  isUnknown : ∀ text, unknown text ∈ tokens → IsUnknown text.toList

def FiniteNumbers (tokens : List Token) : Prop :=
  ∀ value, number value ∈ tokens → Binary64.IsFinite value

/-! ## The tokens of a text are canonical -/

theorem IsLexeme.sign_leads {previous : Option Token} {run rest : List Char}
    (hlexeme : IsLexeme previous ('-' :: run) rest) (hne : run ≠ []) :
    previous = none ∨ previous = some leftParen := by
  generalize hcons : '-' :: run = lexeme at hlexeme
  cases hlexeme with
  | run _ hrun _ =>
      have hminus : isLiteralChar '-' = true := hrun '-' (by simp [← hcons])
      exact absurd hminus (by decide)
  | signed hsign _ _ => exact hsign
  | double hc =>
      obtain rfl : '-' = _ := (List.cons.inj hcons).1
      rcases hc with hc | hc
      · exact absurd hc (by decide)
      · exact absurd hc (by decide)
  | single => exact absurd (List.cons.inj hcons).2 hne

theorem IsLexeme.isUnknown {previous : Option Token} {lexeme rest : List Char} {text : String}
    (hlexeme : IsLexeme previous lexeme rest) (hstands : StandsFor lexeme (unknown text)) :
    text.toList = lexeme ∧ IsUnknown lexeme := by
  cases hstands with
  | unknown hleft hright hliteral hoperator =>
      refine ⟨String.toList_ofList, ?_⟩
      cases hlexeme with
      | run hne hrun _ => exact .malformed hne hrun (Or.inl rfl) hliteral
      | signed _ hrun _ =>
          refine .malformed ?_ hrun (Or.inr rfl) hliteral
          rintro rfl
          exact hoperator .minus rfl
      | double hc =>
          rcases hc with rfl | rfl
          · exact absurd rfl (hoperator .power)
          · exact absurd rfl (hoperator .floorDivide)
      | @single c _ hblank hchar _ _ =>
          have hdigit := isDigit_eq_false_of_isLiteralChar hchar
          refine .char hblank hdigit ⟨?_, ?_⟩ hoperator
          · rintro rfl
            exact hleft rfl
          · rintro rfl
            exact hright rfl

theorem canonical_tokenize (text : String) : Canonical (tokenize text) where
  shape_ne_nan := by
    intro value hmem
    obtain ⟨_, lexeme, _, _, hstands⟩ := exists_isLexeme_of_mem_tokenize hmem
    cases hstands with
    | number literal => exact literal.shape_value_ne_nan
  signs_lead := by
    intro before token after htokens hsign
    obtain ⟨lexeme, rest, hlexeme, hstands⟩ := exists_isLexeme_of_tokenize htokens
    rw [← List.getLast?_eq_none_iff]
    cases token with
    | number value =>
        cases hstands with
        | number literal =>
            have hnegative : literal.negative = true := by
              rw [← literal.signBit_value]
              exact hsign
            obtain ⟨c, run, hcons, -⟩ := literal.magnitude_eq_cons
            rw [Literal.text, if_pos hnegative] at hlexeme
            exact hlexeme.sign_leads (by simp [hcons])
    | unknown text =>
        obtain ⟨htext, hunknown⟩ := hlexeme.isUnknown hstands
        have hhead : lexeme.head? = some '-' := by simpa [startsWithSign, htext] using hsign
        obtain ⟨run, rfl⟩ := List.head?_eq_some_iff.mp hhead
        apply hlexeme.sign_leads
        rintro rfl
        have hminus : unknown text = operator .minus :=
          (standsFor_iff.mp hstands).trans (ofLexeme_symbol .minus)
        cases hminus
    | operator => cases hsign
    | leftParen => cases hsign
    | rightParen => cases hsign
  isUnknown := by
    intro symbol hmem
    obtain ⟨_, lexeme, _, hlexeme, hstands⟩ := exists_isLexeme_of_mem_tokenize hmem
    obtain ⟨htext, hunknown⟩ := hlexeme.isUnknown hstands
    rwa [htext]

/-! ## The lexeme of a token -/

theorem IsUnknown.standsFor {lexeme : List Char} (hunknown : IsUnknown lexeme) :
    StandsFor lexeme (unknown (.ofList lexeme)) := by
  cases hunknown with
  | @char c _ hdigit hparen hoperator =>
      refine .unknown ?_ ?_ (fun literal => literal.text_ne_singleton hdigit) hoperator
      · intro hleft
        exact hparen.1 (List.cons.inj hleft).1
      · intro hright
        exact hparen.2 (List.cons.inj hright).1
  | @malformed run _ hne hrun hlexeme hliteral =>
      obtain ⟨c, hc⟩ := List.exists_mem_of_ne_nil run hne
      have hmem : c ∈ lexeme := by
        rcases hlexeme with rfl | rfl
        · exact hc
        · exact List.mem_cons_of_mem _ hc
      have hother {other : List Char} (hall : ∀ d ∈ other, isLiteralChar d = false) :
          other ≠ lexeme := by
        rintro rfl
        have hboth := hall c hmem
        rw [hrun c hc] at hboth
        cases hboth
      exact .unknown (hother (List.forall_mem_singleton.mpr rfl)).symm
        (hother (List.forall_mem_singleton.mpr rfl)).symm hliteral
        (fun op => hother (isLiteralChar_of_mem_symbol op))

/-- Nothing comes next, or a blank. -/
def Separated (rest : List Char) : Prop :=
  ∀ c, rest.head? = some c → isBlank c = true

theorem Separated.endsRun {rest : List Char} (hrest : Separated rest) : EndsRun rest :=
  fun c hc => not_isLiteralChar_of_isBlank (hrest c hc)

theorem IsUnknown.isLexeme {previous : Option Token} {lexeme rest : List Char}
    (hunknown : IsUnknown lexeme)
    (hsign : lexeme.head? = some '-' → previous = none ∨ previous = some leftParen)
    (hrest : Separated rest) : IsLexeme previous lexeme rest := by
  cases hunknown with
  | @char c hblank hdigit _ hoperator =>
      by_cases hliteral : isLiteralChar c = true
      · exact .run (by simp) (by simpa using hliteral) hrest.endsRun
      · refine .single hblank (by simpa using hliteral) ?_ ?_
        · rintro rfl
          exact absurd rfl (hoperator .minus)
        · rintro (rfl | rfl)
          · exact absurd rfl (hoperator .times)
          · exact absurd rfl (hoperator .divide)
  | malformed hne hrun hlexeme _ =>
      rcases hlexeme with rfl | rfl
      · exact .run hne hrun hrest.endsRun
      · exact .signed (hsign rfl) hrun hrest.endsRun

/-- A minus sign alone is a lexeme also where a sign is read. -/
theorem isLexeme_symbol_of_separated (previous : Option Token) (op : Operator)
    {rest : List Char} (hrest : Separated rest) : IsLexeme previous op.symbol.toList rest := by
  by_cases hsign : op = .minus ∧ (previous = none ∨ previous = some leftParen)
  · obtain ⟨rfl, hprevious⟩ := hsign
    have hrun : ∀ c ∈ ([] : List Char), isLiteralChar c = true := by simp
    exact .signed hprevious hrun hrest.endsRun
  · apply isLexeme_symbol op
    · intro hop hprevious
      exact hsign ⟨hop, hprevious⟩
    · intro c hc
      exact not_doubles_of_isBlank (hrest c hc)

/-- Before a blank or at the end, the text of a token is a lexeme that stands for
it. -/
theorem isLexeme_and_standsFor_text {previous : Option Token} {token : Token}
    {rest : List Char} (hfinite : ∀ value, number value = token → Binary64.IsFinite value)
    (hunknown : ∀ text, unknown text = token → IsUnknown text.toList)
    (hsign : token.startsWithSign = true → previous = none ∨ previous = some leftParen)
    (hrest : Separated rest) :
    IsLexeme previous token.text.toList rest ∧ StandsFor token.text.toList token := by
  cases token with
  | number value =>
      obtain ⟨literal, htext, rfl⟩ := Decimal.exists_literal_render_token (hfinite value rfl)
      rw [startsWithSign, literal.signBit_value] at hsign
      rw [text, ← htext]
      exact ⟨isLexeme_text literal hsign hrest.endsRun, .number literal⟩
  | operator op => exact ⟨isLexeme_symbol_of_separated previous op hrest, .operator op⟩
  | unknown text =>
      have hchars := hunknown text rfl
      have hstands := hchars.standsFor
      rw [String.ofList_toList] at hstands
      refine ⟨hchars.isLexeme (fun hhead => hsign ?_) hrest, hstands⟩
      rw [startsWithSign, hhead]
      rfl
  | leftParen => exact ⟨isLexeme_paren (Or.inl rfl) rest, .leftParen⟩
  | rightParen => exact ⟨isLexeme_paren (Or.inr rfl) rest, .rightParen⟩

/-! ## The text of canonical tokens -/

theorem exists_render_cons (token : Token) (tokens : List Token) :
    ∃ tail, (render (token :: tokens)).toList = token.text.toList ++ tail ∧ Separated tail ∧
      ∀ previous lexemes rest, Lexes previous (render tokens).toList lexemes rest →
        Lexes previous tail lexemes rest := by
  cases tokens with
  | nil =>
      refine ⟨[], by simp [render], by simp [Separated], ?_⟩
      intro previous lexemes rest hlexes
      simpa [render] using hlexes
  | cons next tokens =>
      refine ⟨' ' :: (render (next :: tokens)).toList, ?_, ?_, ?_⟩
      · simp [render, String.intercalate_cons_cons]
      · intro c hc
        obtain rfl : ' ' = c := by simpa using hc
        rfl
      · intro previous lexemes rest hlexes
        exact .blank rfl hlexes

theorem exists_lexes_render {tokens before after : List Token} (hcanonical : Canonical tokens)
    (hfinite : FiniteNumbers tokens) (htokens : tokens = before ++ after) :
    ∃ lexemes, Lexes before.getLast? (render after).toList lexemes after := by
  -- What comes before is kept, as it tells where a sign is read.
  induction after generalizing before with
  | nil => exact ⟨[], .nil⟩
  | cons token after ih =>
      obtain ⟨tail, hrender, htail, hlexes⟩ := exists_render_cons token after
      have hnext : tokens = before ++ [token] ++ after := by simp [htokens]
      obtain ⟨lexemes, hrest⟩ := ih hnext
      rw [List.getLast?_concat] at hrest
      have hsign : token.startsWithSign = true →
          before.getLast? = none ∨ before.getLast? = some leftParen := by
        rw [List.getLast?_eq_none_iff]
        exact hcanonical.signs_lead before token after htokens
      have hmem : token ∈ tokens := by simp [htokens]
      obtain ⟨hlexeme, hstands⟩ := isLexeme_and_standsFor_text
        (fun value hvalue => hfinite value (hvalue ▸ hmem))
        (fun text htext => hcanonical.isUnknown text (htext ▸ hmem)) hsign htail
      rw [hrender]
      exact ⟨_, .lexeme hlexeme hstands (hlexes _ _ _ hrest)⟩

theorem tokenize_render_of_canonical {tokens : List Token} (hcanonical : Canonical tokens)
    (hfinite : FiniteNumbers tokens) : tokenize (render tokens) = tokens := by
  obtain ⟨lexemes, hlexes⟩ := exists_lexes_render hcanonical hfinite (List.nil_append tokens).symm
  exact tokenize_of_lexes hlexes

/-- Scanning undoes rendering on exactly the tokens that texts have, infinities
apart; so an expression may be replaced by the text of its tokens. -/
theorem tokenize_undoes_render :
    (∀ text, Canonical (tokenize text)) ∧
    (∀ tokens, Canonical tokens → FiniteNumbers tokens → tokenize (render tokens) = tokens) ∧
    ∀ text, FiniteNumbers (tokenize text) →
      tokenize (render (tokenize text)) = tokenize text ∧
        Calculation.ofText (render (tokenize text)) = Calculation.ofText text := by
  refine ⟨canonical_tokenize, fun _ => tokenize_render_of_canonical, ?_⟩
  intro text hfinite
  have hagain := tokenize_render_of_canonical (canonical_tokenize text) hfinite
  refine ⟨hagain, ?_⟩
  rw [Calculation.ofText, hagain, Calculation.ofText]

theorem tokenize_undoes_render_signed :
    ∃ value, Binary64.signBit value = true ∧
      let tokens := [leftParen, number value, unknown "1.", rightParen]
      Canonical tokens ∧ FiniteNumbers tokens ∧ tokenize (render tokens) = tokens := by
  let literal : Literal := ⟨true, .singleton '5' rfl, none⟩
  have hfinite : FiniteNumbers [leftParen, number literal.value, unknown "1.", rightParen] := by
    intro value hmem
    obtain rfl : value = literal.value := by simpa using hmem
    decide +kernel
  have hlexes : Lexes none "(-5 1.)".toList [['('], ['-', '5'], ['1', '.'], [')']]
      [leftParen, number literal.value, unknown "1.", rightParen] := by
    have hblank : EndsRun [' ', '1', '.', ')'] := by simp [EndsRun, isLiteralChar, Char.isDigit]
    have hparen : EndsRun [')'] := by simp [EndsRun, isLiteralChar, Char.isDigit]
    have hrun : IsLexeme (some (number literal.value)) ['1', '.'] [')'] :=
      .run (by simp) (by simp [isLiteralChar, Char.isDigit]) hparen
    exact .lexeme (isLexeme_paren (Or.inl rfl) _) .leftParen <|
      .lexeme (isLexeme_text literal (fun _ => Or.inr rfl) hblank) (.number literal) <|
        .blank rfl <|
          .lexeme hrun (standsFor_iff.mpr rfl) <|
            .lexeme (isLexeme_paren (Or.inr rfl) _) .rightParen .nil
  have hcanonical := tokenize_undoes_render.1 "(-5 1.)"
  rw [tokenize_of_lexes hlexes] at hcanonical
  exact ⟨literal.value, literal.signBit_value, hcanonical, hfinite,
    tokenize_undoes_render.2.1 _ hcanonical hfinite⟩

end Token
end InfixCalculator
