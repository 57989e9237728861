import InfixCalculator.Calculation
import InfixCalculator.Proofs.Lexing
import InfixCalculator.Proofs.RecursiveDescent

/-!
# Spelled expressions

An expression whose leaves are literals is written down lexeme by lexeme, with
any blanks, or none, before, between and after the lexemes.  A literal carries a
sign only at the start of the text and right after an opening parenthesis.

The main result says that such a text is evaluated as recursive descent reads it:
through the lexer, the conversion and the evaluation together.  Lexing goes by
induction on the expression, before any text that cannot go on the last literal.
-/

namespace InfixCalculator

open Decimal (Literal)
open Text (isBlank)
open Token

/-! ## Lexemes, signs and spellings -/

/-- How an operator is written in an expression. -/
def Operator.lexeme : Operator → List Char
  | plus => ['+']
  | minus => ['-']
  | times => ['*']
  | divide => ['/']
  | modulo => ['%']
  | floorDivide => ['/', '/']
  | power => ['*', '*']
  | caret => ['^']

theorem Operator.lexeme_eq_symbol (op : Operator) : op.lexeme = op.symbol.toList := by
  cases op <;> decide

mutual

def Infix.lexemes : Infix Literal → List (List Char)
  | .operand atom => atom.lexemes
  | .chain left op right => left.lexemes ++ op.lexeme :: right.lexemes

def Operand.lexemes : Operand Literal → List (List Char)
  | .leaf literal => [literal.text]
  | .group inner => ['('] :: inner.lexemes ++ [[')']]

end

theorem Infix.lexemes_chain (left : Infix Literal) (op : Operator) (right : Operand Literal) :
    (chain left op right).lexemes = left.lexemes ++ op.symbol.toList :: right.lexemes := by
  rw [Infix.lexemes, op.lexeme_eq_symbol]

mutual

/-- A sign stands only at the start and right after an opening parenthesis. -/
def Infix.SignsLead : Infix Literal → Prop
  | .operand atom => atom.SignsLead true
  | .chain left _ right => left.SignsLead ∧ right.SignsLead false

/-- The same for an operand, which starts with a sign only where `signed` allows
it. -/
def Operand.SignsLead (signed : Bool) : Operand Literal → Prop
  | .leaf literal => literal.negative = true → signed = true
  | .group inner => inner.SignsLead

end

/-- The lexemes in a row, with blanks anywhere around them. -/
inductive Spells : List (List Char) → List Char → Prop
  | nil : Spells [] []
  | blank {c : Char} {lexemes : List (List Char)} {text : List Char}
      (hblank : isBlank c = true) (htext : Spells lexemes text) :
      Spells lexemes (c :: text)
  | lexeme (lexeme : List Char) {lexemes : List (List Char)} {text : List Char}
      (htext : Spells lexemes text) :
      Spells (lexeme :: lexemes) (lexeme ++ text)

namespace Spells

theorem exists_append {first second : List (List Char)} {text : List Char}
    (hspells : Spells (first ++ second) text) :
    ∃ left right, text = left ++ right ∧ Spells first left ∧ Spells second right := by
  generalize hlexemes : first ++ second = lexemes at hspells
  induction hspells generalizing first with
  | nil =>
      obtain ⟨rfl, rfl⟩ := List.append_eq_nil_iff.mp hlexemes
      exact ⟨[], [], rfl, .nil, .nil⟩
  | @blank c _ text hblank _ ih =>
      obtain ⟨left, right, rfl, hleft, hright⟩ := ih hlexemes
      exact ⟨c :: left, right, rfl, .blank hblank hleft, hright⟩
  | @lexeme lexeme lexemes text htext ih =>
      cases first with
      | nil =>
          rw [List.nil_append] at hlexemes
          rw [hlexemes]
          exact ⟨[], lexeme ++ text, rfl, .nil, .lexeme _ htext⟩
      | cons other first =>
          rw [List.cons_append, List.cons.injEq] at hlexemes
          obtain ⟨rfl, hrest⟩ := hlexemes
          obtain ⟨left, right, rfl, hleft, hright⟩ := ih hrest
          exact ⟨other ++ left, right, (List.append_assoc _ _ _).symm, .lexeme _ hleft, hright⟩

theorem exists_cons {lexeme : List Char} {lexemes : List (List Char)} {text : List Char}
    (hspells : Spells (lexeme :: lexemes) text) :
    ∃ left right, text = left ++ right ∧ Spells [lexeme] left ∧ Spells lexemes right := by
  rw [← List.singleton_append] at hspells
  exact hspells.exists_append

theorem isBlank_of_mem {text : List Char} (hspells : Spells [] text) :
    ∀ c ∈ text, isBlank c = true := by
  generalize hlexemes : ([] : List (List Char)) = lexemes at hspells
  induction hspells with
  | nil => simp
  | blank hblank _ ih =>
      intro c hc
      rcases List.mem_cons.mp hc with rfl | hmem
      · exact hblank
      · exact ih hlexemes c hmem
  | lexeme => cases hlexemes

theorem forall_head? {p : Char → Prop} (hp : ∀ c, isBlank c = true → p c)
    {c : Char} {run : List Char} {lexemes : List (List Char)} {text : List Char}
    (hspells : Spells ((c :: run) :: lexemes) text) (hc : p c) (rest : List Char) :
    ∀ d, (text ++ rest).head? = some d → p d := by
  intro d hhead
  cases hspells with
  | @blank b _ _ hblank _ =>
      have heq : b = d := Option.some.inj hhead
      rw [← heq]
      exact hp b hblank
  | lexeme =>
      have heq : c = d := Option.some.inj hhead
      rwa [← heq]

end Spells

/-! ## Where a lexeme ends -/

namespace Token

theorem not_isLiteralChar_of_isBlank {c : Char} (hblank : isBlank c = true) :
    isLiteralChar c = false := by
  by_contra hliteral
  have hkept : isBlank c = false :=
    isBlank_eq_false_of_isLiteralChar (by simpa using hliteral)
  rw [hblank] at hkept
  cases hkept

theorem isLiteralChar_of_mem_symbol (op : Operator) :
    ∀ c ∈ op.symbol.toList, isLiteralChar c = false := by
  cases op <;> simp [Operator.symbol, isLiteralChar, Char.isDigit]

/-- A property of what comes next that blanks have is kept when more blanks come. -/
theorem forall_head?_blanks_append {p : Char → Prop} (hp : ∀ c, isBlank c = true → p c)
    {gap rest : List Char} (hgap : ∀ c ∈ gap, isBlank c = true)
    (hrest : ∀ c, rest.head? = some c → p c) :
    ∀ c, (gap ++ rest).head? = some c → p c := by
  intro c hc
  cases gap with
  | nil => exact hrest c hc
  | cons d gap =>
      have hhead : d = c := by simpa using hc
      rw [← hhead]
      exact hp d (hgap d (by simp))

theorem EndsRun.blanks_append {gap rest : List Char} (hgap : ∀ c ∈ gap, isBlank c = true)
    (hend : EndsRun rest) : EndsRun (gap ++ rest) :=
  forall_head?_blanks_append (fun _ => not_isLiteralChar_of_isBlank) hgap hend

theorem EndsRun.of_spells {c : Char} {run : List Char} {lexemes : List (List Char)}
    {text : List Char} (hspells : Spells ((c :: run) :: lexemes) text)
    (hc : isLiteralChar c = false) (rest : List Char) :
    EndsRun (text ++ rest) :=
  hspells.forall_head? (fun _ => not_isLiteralChar_of_isBlank) hc rest

theorem isLiteralChar_of_mem_magnitude (literal : Literal) :
    ∀ c ∈ literal.magnitude, isLiteralChar c = true := by
  have hdigits (digits : Decimal.Digits) : ∀ c ∈ digits.chars, isLiteralChar c = true := by
    intro c hc
    simp [isLiteralChar, digits.isDigit_of_mem c hc]
  unfold Literal.magnitude
  intro c hc
  cases hfraction : literal.fraction with
  | none =>
      rw [hfraction] at hc
      exact hdigits literal.whole c hc
  | some digits =>
      rw [hfraction] at hc
      rcases List.mem_append.mp hc with hwhole | htail
      · exact hdigits literal.whole c hwhole
      · rcases List.mem_cons.mp htail with rfl | hmem
        · decide
        · exact hdigits digits c hmem

theorem isLexeme_text {previous : Option Token} {rest : List Char} (literal : Literal)
    (hsign : literal.negative = true → previous = none ∨ previous = some leftParen)
    (hend : EndsRun rest) : IsLexeme previous literal.text rest := by
  have hrun := isLiteralChar_of_mem_magnitude literal
  unfold Literal.text
  split
  next hnegative => exact .signed (hsign hnegative) hrun hend
  next =>
    obtain ⟨c, tail, hcons, -⟩ := literal.magnitude_eq_cons
    exact .run (by simp [hcons]) hrun hend

def Doubles (c : Char) : Prop :=
  c = '*' ∨ c = '/'

theorem not_doubles_of_isBlank {c : Char} (hblank : isBlank c = true) : ¬Doubles c := by
  rintro (rfl | rfl)
  · exact absurd hblank (by decide)
  · exact absurd hblank (by decide)

def NoDouble (rest : List Char) : Prop :=
  ∀ c, rest.head? = some c → ¬Doubles c

theorem isLexeme_symbol {previous : Option Token} {rest : List Char} (op : Operator)
    (hsign : op = .minus → ¬(previous = none ∨ previous = some leftParen))
    (hrest : NoDouble rest) : IsLexeme previous op.symbol.toList rest := by
  have hdouble (c : Char) (hc : Doubles c) : rest.head? ≠ some c := by
    intro hhead
    exact hrest c hhead hc
  cases op with
  | power => exact .double (Or.inl rfl)
  | floorDivide => exact .double (Or.inr rfl)
  | minus => exact .single (by decide) (by decide) (fun _ => hsign rfl) (hdouble _)
  | _ => exact .single (by decide) (by decide) (fun hc => absurd hc (by decide)) (hdouble _)

/-- No sign is read after the end of an operand. -/
theorem not_sign_of_endsOperand {last : Token} (hlast : last.endsOperand = true) :
    ¬(some last = none ∨ some last = some leftParen) := by
  rintro (hnone | hleft)
  · cases hnone
  · rw [Option.some.inj hleft] at hlast
    cases hlast

theorem isLexeme_paren {previous : Option Token} {c : Char} (hc : c = '(' ∨ c = ')')
    (rest : List Char) : IsLexeme previous [c] rest := by
  rcases hc with rfl | rfl
  · exact .single (by decide) (by decide) (by simp) (by simp)
  · exact .single (by decide) (by decide) (by simp) (by simp)

/-! ## Lexing a spelled lexeme -/

theorem Lexes.blanks_append {previous : Option Token} {gap rest : List Char}
    {lexemes : List (List Char)} {tokens : List Token}
    (hgap : ∀ c ∈ gap, isBlank c = true) (hrest : Lexes previous rest lexemes tokens) :
    Lexes previous (gap ++ rest) lexemes tokens := by
  induction gap with
  | nil => exact hrest
  | cons c gap ih =>
      have hc : isBlank c = true := hgap c (by simp)
      have htail : ∀ d ∈ gap, isBlank d = true := fun d hd => hgap d (by simp [hd])
      exact .blank hc (ih htail)

theorem Lexes.of_spells {previous : Option Token} {lexeme text rest : List Char}
    {token : Token} {lexemes : List (List Char)} {tokens : List Token}
    (hspells : Spells [lexeme] text)
    (hlexeme : ∀ gap, (∀ c ∈ gap, isBlank c = true) → IsLexeme previous lexeme (gap ++ rest))
    (htoken : StandsFor lexeme token) (hrest : Lexes (some token) rest lexemes tokens) :
    Lexes previous (text ++ rest) (lexeme :: lexemes) (token :: tokens) := by
  generalize hsingle : [lexeme] = spelled at hspells
  induction hspells with
  | nil => cases hsingle
  | blank hblank _ ih => exact .blank hblank (ih hsingle)
  | @lexeme found lexemes' gap htext _ =>
      rw [List.cons.injEq] at hsingle
      obtain ⟨rfl, rfl⟩ := hsingle
      have hgap := htext.isBlank_of_mem
      rw [List.append_assoc]
      exact .lexeme (hlexeme gap hgap) htoken (hrest.blanks_append hgap)

end Token

/-! ## Lexing a spelled expression -/

/-- After `previous` the text is cut into these lexemes and tokens, whatever comes
then that cannot go on a literal, and the last token ends an operand. -/
def LexesOperand (previous : Option Token) (text : List Char) (lexemes : List (List Char))
    (tokens : List Token) : Prop :=
  ∀ rest, EndsRun rest → ∃ last : Token, last.endsOperand = true ∧
    ∀ lexemes' tokens', Lexes (some last) rest lexemes' tokens' →
      Lexes previous (text ++ rest) (lexemes ++ lexemes') (tokens ++ tokens')

theorem Operand.noDouble_of_spells {atom : Operand Literal} (hsigns : atom.SignsLead false)
    {text : List Char} (hspells : Spells atom.lexemes text) (rest : List Char) :
    NoDouble (text ++ rest) := by
  obtain ⟨c, run, lexemes, hcons, hc⟩ :
      ∃ c run lexemes, atom.lexemes = (c :: run) :: lexemes ∧ ¬Doubles c := by
    cases atom with
    | leaf literal =>
        have hnegative : literal.negative = false := by
          rw [Operand.SignsLead] at hsigns
          simpa using hsigns
        obtain ⟨c, run, hmagnitude, hdigit⟩ := literal.magnitude_eq_cons
        refine ⟨c, run, [], by simp [lexemes, Literal.text, hnegative, hmagnitude], ?_⟩
        rintro (rfl | rfl)
        · exact absurd hdigit (by decide)
        · exact absurd hdigit (by decide)
    | group inner => exact ⟨'(', [], _, rfl, by simp [Doubles]⟩
  rw [hcons] at hspells
  exact hspells.forall_head? (fun _ => not_doubles_of_isBlank) hc rest

theorem lexesOperand_leaf {previous : Option Token} {text : List Char} (literal : Literal)
    (hsign : literal.negative = true → previous = none ∨ previous = some leftParen)
    (hspells : Spells [literal.text] text) :
    LexesOperand previous text [literal.text] [.number literal.value] := by
  intro rest hend
  refine ⟨.number literal.value, rfl, ?_⟩
  intro lexemes tokens hrest
  apply Lexes.of_spells hspells _ (.number literal) hrest
  intro gap hgap
  exact isLexeme_text literal hsign (hend.blanks_append hgap)

theorem lexesOperand_group {previous : Option Token} {text : List Char}
    {lexemes : List (List Char)} {tokens : List Token}
    (hinner : ∀ text, Spells lexemes text →
      LexesOperand (some leftParen) text lexemes tokens)
    (hspells : Spells (['('] :: lexemes ++ [[')']]) text) :
    LexesOperand previous text (['('] :: lexemes ++ [[')']])
      (.leftParen :: tokens ++ [.rightParen]) := by
  rw [List.cons_append] at hspells
  obtain ⟨opening, tail, rfl, hopening, htail⟩ := hspells.exists_cons
  obtain ⟨middle, closing, rfl, hmiddle, hclosing⟩ := htail.exists_append
  intro rest _
  refine ⟨.rightParen, rfl, ?_⟩
  intro lexemes' tokens' hrest
  have hclosed {last : Option Token} :
      Lexes last (closing ++ rest) ([')'] :: lexemes') (.rightParen :: tokens') :=
    .of_spells hclosing (fun gap _ => isLexeme_paren (Or.inr rfl) _) .rightParen hrest
  have hend : EndsRun (closing ++ rest) := .of_spells hclosing (by decide) rest
  obtain ⟨last, -, hlexes⟩ := hinner middle hmiddle _ hend
  have hopened :
      Lexes previous (opening ++ (middle ++ (closing ++ rest)))
        (['('] :: (lexemes ++ [')'] :: lexemes'))
        (.leftParen :: (tokens ++ .rightParen :: tokens')) :=
    .of_spells hopening (fun gap _ => isLexeme_paren (Or.inl rfl) _) .leftParen
      (hlexes _ _ hclosed)
  simpa using hopened

theorem lexesOperand_chain {previous : Option Token} {text : List Char} (op : Operator)
    {left right : List (List Char)} {first second : List Token}
    (hleft : ∀ text, Spells left text → LexesOperand previous text left first)
    (hright : ∀ text, Spells right text →
      LexesOperand (some (.operator op)) text right second)
    (hdouble : ∀ text, Spells right text → ∀ rest, NoDouble (text ++ rest))
    (hspells : Spells (left ++ op.symbol.toList :: right) text) :
    LexesOperand previous text (left ++ op.symbol.toList :: right)
      (first ++ .operator op :: second) := by
  obtain ⟨before, tail, rfl, hbefore, htail⟩ := hspells.exists_append
  obtain ⟨symbol, after, rfl, hsymbol, hafter⟩ := htail.exists_cons
  intro rest hend
  obtain ⟨last, hlast, hlexes⟩ := hright after hafter rest hend
  refine ⟨last, hlast, ?_⟩
  intro lexemes tokens hrest
  -- The symbol ends the last literal on its left, and nothing on its right doubles it.
  have hoperator : EndsRun (symbol ++ (after ++ rest)) := by
    obtain ⟨c, run, hcons, hc⟩ :
        ∃ c run, op.symbol.toList = c :: run ∧ isLiteralChar c = false := by
      cases op <;> exact ⟨_, _, rfl, by decide⟩
    rw [hcons] at hsymbol
    exact .of_spells hsymbol hc _
  obtain ⟨previous', hprevious, hlexes'⟩ := hleft before hbefore _ hoperator
  have hlexeme (gap : List Char) (hgap : ∀ c ∈ gap, isBlank c = true) :
      IsLexeme (some previous') op.symbol.toList (gap ++ (after ++ rest)) := by
    apply isLexeme_symbol op (fun _ => not_sign_of_endsOperand hprevious)
    exact forall_head?_blanks_append (fun _ => not_doubles_of_isBlank) hgap
      (hdouble after hafter rest)
  have hsplit := Lexes.of_spells hsymbol hlexeme (.operator op) (hlexes _ _ hrest)
  simpa using hlexes' _ _ hsplit

mutual

theorem Infix.lexesOperand {previous : Option Token}
    (hprevious : previous = none ∨ previous = some leftParen) :
    ∀ expression : Infix Literal, expression.SignsLead → ∀ text,
      Spells expression.lexemes text →
        LexesOperand previous text expression.lexemes (expression.tokens Literal.value)
  | .operand atom, hsigns, _, hspells =>
      atom.lexesOperand (fun _ => hprevious) hsigns _ hspells
  | .chain left op right, hsigns, _, hspells => by
      obtain ⟨hleft, hright⟩ := hsigns
      rw [Infix.lexemes_chain] at hspells ⊢
      apply lexesOperand_chain op (left.lexesOperand hprevious hleft) _ _ hspells
      · exact right.lexesOperand (by simp) hright
      · intro after hafter
        exact right.noDouble_of_spells hright hafter

theorem Operand.lexesOperand {previous : Option Token} {signed : Bool}
    (hprevious : signed = true → previous = none ∨ previous = some leftParen) :
    ∀ atom : Operand Literal, atom.SignsLead signed → ∀ text, Spells atom.lexemes text →
        LexesOperand previous text atom.lexemes (atom.tokens Literal.value)
  | .leaf literal, hsigns, _, hspells =>
      lexesOperand_leaf literal (fun hnegative => hprevious (hsigns hnegative)) hspells
  | .group inner, hsigns, _, hspells =>
      lexesOperand_group (inner.lexesOperand (Or.inr rfl) hsigns) hspells

end

theorem tokenize_of_spells {expression : Infix Literal} {text : String}
    (hsigns : expression.SignsLead) (hspells : Spells expression.lexemes text.toList) :
    tokenize text = expression.tokens Literal.value := by
  have hend : EndsRun [] := by simp [EndsRun]
  obtain ⟨last, -, hlexes⟩ :=
    expression.lexesOperand (Or.inl rfl) hsigns text.toList hspells [] hend
  have hall := hlexes [] [] .nil
  rw [List.append_nil, List.append_nil, List.append_nil] at hall
  exact tokenize_of_lexes hall

/-! ## The value of a spelled expression -/

/-- A spelled expression is evaluated as recursive descent reads it, and only an
integer division by zero is refused. -/
theorem evaluate_eq_value_of_spells {expression : Infix Literal} {text : String}
    (hsigns : expression.SignsLead) (hspells : Spells expression.lexemes text.toList) :
    ∃ tree, RecursiveDescent.tree? (expression.tokens Literal.value) = some tree ∧
      evaluate text = tree.value ∧
        ∀ refusal, evaluate text = .error refusal ↔
          refusal = .integerDivisionByZero ∧ tree.MeetsZeroDivisor := by
  obtain ⟨tree, hgroups⟩ := expression.exists_groups Literal.value
  have hvalue : evaluate text = tree.value := by
    calc
      evaluate text = (Rpn.ofInfix (expression.tokens Literal.value) >>= Rpn.evaluate) := by
        rw [evaluate, tokenize_of_spells hsigns hspells]
      _ = Rpn.evaluate tree.postorder := by
        rw [Rpn.ofInfix_of_groups hgroups]
        rfl
      _ = tree.value := tree.evaluate_postorder
  refine ⟨tree, RecursiveDescent.tree?_of_groups hgroups, hvalue, ?_⟩
  intro refusal
  rw [hvalue]
  exact Tree.value_eq_error_iff

theorem evaluate_eq_value_of_spells_signed :
    ∃ expression : Infix Literal,
      expression.SignsLead ∧ Spells expression.lexemes " -1+ (4//2)".toList ∧
        ∃ tree, RecursiveDescent.tree? (expression.tokens Literal.value) = some tree ∧
          evaluate " -1+ (4//2)" = tree.value ∧
            ∀ refusal, evaluate " -1+ (4//2)" = .error refusal ↔
              refusal = .integerDivisionByZero ∧ tree.MeetsZeroDivisor := by
  let minusOne : Literal := ⟨true, .singleton '1' rfl, none⟩
  let four : Literal := ⟨false, .singleton '4' rfl, none⟩
  let two : Literal := ⟨false, .singleton '2' rfl, none⟩
  let quotient : Infix Literal := .chain (.operand (.leaf four)) .floorDivide (.leaf two)
  let expression : Infix Literal :=
    .chain (.operand (.leaf minusOne)) .plus (.group quotient)
  have hsigns : expression.SignsLead :=
    ⟨fun _ => rfl, fun _ => rfl, fun hnegative => by cases hnegative⟩
  have hspells : Spells expression.lexemes " -1+ (4//2)".toList :=
    .blank rfl <| .lexeme ['-', '1'] <| .lexeme ['+'] <| .blank rfl <| .lexeme ['('] <|
      .lexeme ['4'] <| .lexeme ['/', '/'] <| .lexeme ['2'] <| .lexeme [')'] .nil
  exact ⟨expression, hsigns, hspells, evaluate_eq_value_of_spells hsigns hspells⟩

end InfixCalculator
