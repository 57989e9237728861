import InfixCalculator.Proofs.Cut

/-!
# Tokens of a concatenation

Across a cut a scan remembers two things: what the lexeme at the end of the left
part can still go on with, and whether a minus sign on the right would be a sign.
A parenthesis or a blank settles the first.  Of the second an opening parenthesis
leaves what holds at the start of a text, and a blank what the last token says.

So a text can be read part by part.  Which blanks stand between two parts makes no
difference, only that there are any.
-/

namespace InfixCalculator
namespace Token

open Text (isBlank)

/-! ## What is remembered of the last token -/

theorem IsLexeme.of_allowsSign_eq {previous other : Option Token} {lexeme rest : List Char}
    (hlexeme : IsLexeme previous lexeme rest) (hsign : allowsSign previous = allowsSign other) :
    IsLexeme other lexeme rest := by
  have hplace : (previous = none ∨ previous = some leftParen) ↔
      (other = none ∨ other = some leftParen) := by
    rw [← allowsSign_iff, ← allowsSign_iff, hsign]
  cases hlexeme with
  | run hne hrun hend => exact .run hne hrun hend
  | signed hprevious hrun hend => exact .signed (hplace.mp hprevious) hrun hend
  | double hc => exact .double hc
  | single hblank hliteral hprevious hdouble =>
      exact .single hblank hliteral (fun hc => mt hplace.mpr (hprevious hc)) hdouble

/-- Only the first lexeme looks at the token before the text. -/
theorem Lexes.of_allowsSign_eq {previous other : Option Token} {text : List Char}
    {lexemes : List (List Char)} {tokens : List Token}
    (htext : Lexes previous text lexemes tokens)
    (hsign : allowsSign previous = allowsSign other) : Lexes other text lexemes tokens := by
  induction htext with
  | nil => exact .nil
  | blank hblank _ ih => exact .blank hblank (ih hsign)
  | lexeme hlexeme htoken hrest _ =>
      exact .lexeme (hlexeme.of_allowsSign_eq hsign) htoken hrest

namespace Scanner

theorem scan_congr {previous other : Option Token}
    (hsign : allowsSign previous = allowsSign other) (text : List Char) :
    scan ⟨[], previous⟩ text = scan ⟨[], other⟩ text := by
  obtain ⟨lexemes, tokens, htext⟩ := exists_lexes previous text
  rw [scan_of_lexes htext, scan_of_lexes (htext.of_allowsSign_eq hsign)]

theorem scan_paren (previous : Option Token) {c : Char} {token : Token}
    (hc : c = '(' ∨ c = ')') (htoken : StandsFor [c] token) (rest : List Char) :
    scan ⟨[], previous⟩ (c :: rest) = token :: scan ⟨[], some token⟩ rest := by
  obtain ⟨lexemes, tokens, hrest⟩ := exists_lexes (some token) rest
  rw [scan_of_lexes hrest]
  exact scan_of_lexes (.lexeme (isLexeme_paren hc rest) htoken hrest)

end Scanner

/-! ## Parentheses -/

theorem tokenize_append_paren_append (left right : String) {c : Char} {token : Token}
    (hc : c = '(' ∨ c = ')') (htoken : StandsFor [c] token) :
    tokenize (left ++ String.singleton c ++ right) =
      tokenize left ++ token :: Scanner.scan ⟨[], some token⟩ right.toList := by
  have hfresh : Fresh (c :: right.toList) := by
    rcases hc with rfl | rfl
    · exact .cons rfl (by simp [Doubles]) _
    · exact .cons rfl (by simp [Doubles]) _
  calc
    tokenize (left ++ String.singleton c ++ right) =
        Scanner.start.scan (left.toList ++ c :: right.toList) := by
      simp [tokenize]
    _ = tokenize left ++
        Scanner.scan ⟨[], (tokenize left).getLast?⟩ (c :: right.toList) :=
      Scanner.scan_start_append left.toList hfresh
    _ = tokenize left ++ token :: Scanner.scan ⟨[], some token⟩ right.toList := by
      rw [Scanner.scan_paren _ hc htoken]

theorem tokenize_append_leftParen_append (left right : String) :
    tokenize (left ++ "(" ++ right) = tokenize left ++ [leftParen] ++ tokenize right := by
  have hsplit := tokenize_append_paren_append left right (Or.inl rfl) .leftParen
  have hsign : allowsSign (some leftParen) = allowsSign none := rfl
  rw [Scanner.scan_congr hsign] at hsplit
  rw [List.append_assoc]
  exact hsplit

theorem tokenize_append_rightParen_append (left right : String) :
    tokenize (left ++ ")" ++ right) = tokenize left ++ tokenize (")" ++ right) := by
  have hsplit := tokenize_append_paren_append left right (Or.inr rfl) .rightParen
  have hhead := tokenize_append_paren_append "" right (Or.inr rfl) .rightParen
  have hnil : tokenize "" = [] := scan_of_lexes .nil
  rw [hnil, List.nil_append, String.empty_append] at hhead
  rw [← hhead] at hsplit
  exact hsplit

/-! ## Blanks -/

/-- Blanks, at least one, between two parts of a text. -/
structure IsGap (gap : String) : Prop where
  ne_empty : gap ≠ ""
  isBlank_of_mem : ∀ c ∈ gap.toList, isBlank c = true

theorem IsGap.fresh_append {gap : String} (hgap : IsGap gap) (rest : List Char) :
    Fresh (gap.toList ++ rest) := by
  cases hchars : gap.toList with
  | nil => exact absurd (String.toList_eq_nil_iff.mp hchars) hgap.ne_empty
  | cons c chars => exact .blank_cons (hgap.isBlank_of_mem c (by simp [hchars])) _

theorem tokenize_append_gap_append (left right : String) {gap : String} (hgap : IsGap gap) :
    tokenize (left ++ gap ++ right) =
      tokenize left ++ Scanner.scan ⟨[], (tokenize left).getLast?⟩ right.toList := by
  calc
    tokenize (left ++ gap ++ right) =
        Scanner.start.scan (left.toList ++ (gap.toList ++ right.toList)) := by
      simp [tokenize]
    _ = tokenize left ++
        Scanner.scan ⟨[], (tokenize left).getLast?⟩ (gap.toList ++ right.toList) :=
      Scanner.scan_start_append left.toList (hgap.fresh_append _)
    _ = tokenize left ++ Scanner.scan ⟨[], (tokenize left).getLast?⟩ right.toList := by
      rw [Scanner.scan_blanks_append _ hgap.isBlank_of_mem]

/-- After blanks a text reads as after a number, unless a sign can stand there. -/
theorem tail_tokenize_zero_append {previous : Option Token} (hsign : allowsSign previous = false)
    (right : String) {gap : String} (hgap : IsGap gap) :
    (tokenize ("0" ++ gap ++ right)).tail = Scanner.scan ⟨[], previous⟩ right.toList := by
  have hzero : tokenize "0" = [number 0] := by decide +kernel
  have hnumber : allowsSign (some (number 0)) = allowsSign previous := hsign.symm
  rw [tokenize_append_gap_append "0" right hgap, hzero]
  exact Scanner.scan_congr hnumber right.toList

/-- A text is read part by part at parentheses and at blanks, and any blanks serve as
well as any others. -/
theorem tokenize_composes (left right : String) {gap : String} (hgap : IsGap gap) :
    let tokens := tokenize left
    tokenize (left ++ "(" ++ right) = tokens ++ [leftParen] ++ tokenize right ∧
      tokenize (left ++ ")" ++ right) = tokens ++ tokenize (")" ++ right) ∧
      (tokens = [] ∨ tokens.getLast? = some leftParen →
        tokenize (left ++ gap ++ right) = tokens ++ tokenize right) ∧
      (¬(tokens = [] ∨ tokens.getLast? = some leftParen) →
        tokenize (left ++ gap ++ right) = tokens ++ (tokenize ("0" ++ gap ++ right)).tail) ∧
      (∀ other, IsGap other → tokenize (left ++ other ++ right) = tokenize (left ++ gap ++ right)) ∧
      tokenize (gap ++ right) = tokenize right ∧
      tokenize (left ++ gap) = tokenize left := by
  intro tokens
  have hplace : (tokens = [] ∨ tokens.getLast? = some leftParen) ↔
      allowsSign tokens.getLast? = true := by
    rw [allowsSign_iff, List.getLast?_eq_none_iff]
  refine ⟨tokenize_append_leftParen_append left right,
    tokenize_append_rightParen_append left right, ?_, ?_, ?_, ?_, ?_⟩
  · intro hsign
    rw [tokenize_append_gap_append left right hgap]
    exact congrArg _ (Scanner.scan_congr (hplace.mp hsign) right.toList)
  · intro hsign
    have hbinary : allowsSign tokens.getLast? = false := by
      simpa using mt hplace.mpr hsign
    rw [tail_tokenize_zero_append hbinary right hgap]
    exact tokenize_append_gap_append left right hgap
  · intro other hother
    rw [tokenize_append_gap_append left right hgap, tokenize_append_gap_append left right hother]
  · rw [tokenize, String.toList_append, Scanner.start,
      Scanner.scan_blanks_append _ hgap.isBlank_of_mem]
    rfl
  · rw [tokenize, String.toList_append, Scanner.start,
      Scanner.scan_append_blanks _ _ hgap.isBlank_of_mem]
    rfl

theorem tokenize_composes_pending_sign :
    let left := "2*("
    let right := "-3"
    let gap := "\u00a0\t"
    let tokens := tokenize left
    IsGap gap ∧
      tokenize (left ++ "(" ++ right) = tokens ++ [leftParen] ++ tokenize right ∧
      tokenize (left ++ ")" ++ right) = tokens ++ tokenize (")" ++ right) ∧
      (tokens = [] ∨ tokens.getLast? = some leftParen →
        tokenize (left ++ gap ++ right) = tokens ++ tokenize right) ∧
      (¬(tokens = [] ∨ tokens.getLast? = some leftParen) →
        tokenize (left ++ gap ++ right) = tokens ++ (tokenize ("0" ++ gap ++ right)).tail) ∧
      (∀ other, IsGap other → tokenize (left ++ other ++ right) = tokenize (left ++ gap ++ right)) ∧
      tokenize (gap ++ right) = tokenize right ∧
      tokenize (left ++ gap) = tokenize left := by
  intro left right gap
  have hgap : IsGap gap := ⟨by simp [gap], by simp [gap, isBlank]⟩
  exact ⟨hgap, tokenize_composes left right hgap⟩

end Token
end InfixCalculator
