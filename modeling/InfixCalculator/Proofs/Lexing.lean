import InfixCalculator.Proofs.Literal
import InfixCalculator.Token.Lexer

/-!
# The lexical grammar

A text is cut from left to right into lexemes, each as long as its kind allows,
and every lexeme stands for one token.  `Lexes` says so without a scanner: its
rules know the whole text that is still to come, while the scanner holds
characters back and decides about them later.

The main result identifies the two.  The scanner never loses, repeats or moves a
character, because a lexing does not.
-/

namespace InfixCalculator
namespace Token

open Text (isBlank)
open Decimal (Literal)

/-! ## Lexemes and lexings -/

/-- A run of digits and points cannot go on in `rest`. -/
def EndsRun (rest : List Char) : Prop :=
  ∀ c, rest.head? = some c → isLiteralChar c = false

/-- The lexeme that is cut off after the token `previous`, and the text that
comes after it. -/
inductive IsLexeme (previous : Option Token) : List Char → List Char → Prop
  | run {run rest : List Char}
      (hne : run ≠ []) (hrun : ∀ c ∈ run, isLiteralChar c = true) (hend : EndsRun rest) :
      IsLexeme previous run rest
  | signed {run rest : List Char}
      (hsign : previous = none ∨ previous = some leftParen)
      (hrun : ∀ c ∈ run, isLiteralChar c = true) (hend : EndsRun rest) :
      IsLexeme previous ('-' :: run) rest
  | double {c : Char} {rest : List Char} (hc : c = '*' ∨ c = '/') :
      IsLexeme previous [c, c] rest
  | single {c : Char} {rest : List Char}
      (hblank : isBlank c = false) (hliteral : isLiteralChar c = false)
      (hsign : c = '-' → ¬(previous = none ∨ previous = some leftParen))
      (hdouble : c = '*' ∨ c = '/' → rest.head? ≠ some c) :
      IsLexeme previous [c] rest

inductive StandsFor : List Char → Token → Prop
  | leftParen : StandsFor ['('] leftParen
  | rightParen : StandsFor [')'] rightParen
  | number (literal : Literal) : StandsFor literal.text (number literal.value)
  | operator (op : Operator) : StandsFor op.symbol.toList (operator op)
  | unknown {lexeme : List Char}
      (hleft : lexeme ≠ ['(']) (hright : lexeme ≠ [')'])
      (hliteral : ∀ literal : Literal, literal.text ≠ lexeme)
      (hoperator : ∀ op : Operator, op.symbol.toList ≠ lexeme) :
      StandsFor lexeme (unknown (.ofList lexeme))

/-- The text that comes after the token `previous`, its lexemes and their
tokens. -/
inductive Lexes : Option Token → List Char → List (List Char) → List Token → Prop
  | nil {previous} : Lexes previous [] [] []
  | blank {previous c rest lexemes tokens} (hblank : isBlank c = true)
      (hrest : Lexes previous rest lexemes tokens) :
      Lexes previous (c :: rest) lexemes tokens
  | lexeme {previous lexeme rest token lexemes tokens}
      (hlexeme : IsLexeme previous lexeme rest) (htoken : StandsFor lexeme token)
      (hrest : Lexes (some token) rest lexemes tokens) :
      Lexes previous (lexeme ++ rest) (lexeme :: lexemes) (token :: tokens)

/-! ## Classes of characters -/

theorem isBlank_eq_false_of_isLiteralChar {c : Char} (hc : isLiteralChar c = true) :
    isBlank c = false := by
  simp only [isLiteralChar, Char.isDigit, Bool.or_eq_true, Bool.and_eq_true, beq_iff_eq,
    decide_eq_true_eq] at hc
  rcases hc with ⟨hlow, hhigh⟩ | rfl
  · have hlow : 48 ≤ c.toNat := hlow
    have hhigh : c.toNat ≤ 57 := hhigh
    simp only [isBlank, Bool.or_eq_false_iff, Bool.and_eq_false_iff, beq_eq_false_iff_ne,
      decide_eq_false_iff_not]
    omega
  · decide

theorem IsLexeme.isBlank_eq_false {previous : Option Token} {lexeme rest : List Char}
    (hlexeme : IsLexeme previous lexeme rest) :
    ∀ c ∈ lexeme, isBlank c = false := by
  intro c hc
  cases hlexeme with
  | run _ hrun _ => exact isBlank_eq_false_of_isLiteralChar (hrun c hc)
  | signed _ hrun _ =>
      rcases List.mem_cons.mp hc with rfl | hmem
      · decide
      · exact isBlank_eq_false_of_isLiteralChar (hrun c hmem)
  | @double d _ hdouble =>
      have heq : c = d := by simpa using hc
      subst heq
      rcases hdouble with rfl | rfl <;> decide
  | @single d _ hblank _ _ _ =>
      have heq : c = d := by simpa using hc
      rwa [heq]

theorem Lexes.flatten_eq_filter {previous : Option Token} {text : List Char}
    {lexemes : List (List Char)} {tokens : List Token}
    (hlexes : Lexes previous text lexemes tokens) :
    lexemes.flatten = text.filter fun c => !isBlank c := by
  induction hlexes with
  | nil => rfl
  | blank hblank _ ih => simp [hblank, ih]
  | @lexeme previous lexeme rest token lexemes tokens hlexeme _ _ ih =>
      have hkept : lexeme.filter (fun c => !isBlank c) = lexeme := by
        apply List.filter_eq_self.mpr
        intro c hc
        simp [hlexeme.isBlank_eq_false c hc]
      rw [List.flatten_cons, List.filter_append, hkept, ih]

/-! ## Tokens of lexemes -/

/-- The token of a lexeme, computed as the scanner does at its different places. -/
def ofLexeme (lexeme : List Char) : Token :=
  if lexeme = ['('] then leftParen
  else if lexeme = [')'] then rightParen
  else ofHeld lexeme

theorem isDigit_eq_false_of_isLiteralChar {c : Char} (hc : isLiteralChar c = false) :
    c.isDigit = false :=
  (Bool.or_eq_false_iff.mp hc).1

theorem read?_singleton {c : Char} (hc : isLiteralChar c = false) :
    Decimal.read? [c] = none := by
  rw [Decimal.read?_eq_none_iff]
  intro literal
  exact literal.text_ne_singleton (isDigit_eq_false_of_isLiteralChar hc)

theorem ofChar_eq_ofLexeme {c : Char} (hc : isLiteralChar c = false) :
    ofChar c = ofLexeme [c] := by
  simp [ofChar, ofLexeme, ofHeld, read?_singleton hc]

theorem ofHeld_eq_ofLexeme {c : Char} {run : List Char} (hleft : c ≠ '(') (hright : c ≠ ')') :
    ofHeld (c :: run) = ofLexeme (c :: run) := by
  simp [ofLexeme, hleft, hright]

theorem ofLexeme_text (literal : Literal) :
    ofLexeme literal.text = number literal.value := by
  have hread := Decimal.read?_text literal
  have hparen (c : Char) (hc : Decimal.read? [c] = none) : literal.text ≠ [c] := by
    intro htext
    rw [htext, hc] at hread
    simp at hread
  rw [ofLexeme, if_neg (hparen '(' rfl), if_neg (hparen ')' rfl), ofHeld, hread]

theorem ofLexeme_symbol (op : Operator) : ofLexeme op.symbol.toList = operator op := by
  have hread : Decimal.read? op.symbol.toList = none := by
    cases op <;> rfl
  have hleft : op.symbol.toList ≠ ['('] := by
    cases op <;> decide
  have hright : op.symbol.toList ≠ [')'] := by
    cases op <;> decide
  rw [ofLexeme, if_neg hleft, if_neg hright, ofHeld, hread]
  simp [ofSymbol]

theorem standsFor_iff {lexeme : List Char} {token : Token} :
    StandsFor lexeme token ↔ token = ofLexeme lexeme := by
  constructor
  · intro hstands
    cases hstands with
    | leftParen => rfl
    | rightParen => rfl
    | number literal => rw [ofLexeme_text]
    | operator op => rw [ofLexeme_symbol]
    | unknown hleft hright hliteral hoperator =>
        have hsymbol : Operator.ofSymbol? (.ofList lexeme) = none := by
          cases hfound : Operator.ofSymbol? (.ofList lexeme) with
          | none => rfl
          | some op =>
              have heq := Operator.symbol_of_ofSymbol?_eq_some hfound
              exact absurd (by rw [heq, String.toList_ofList]) (hoperator op)
        rw [ofLexeme, if_neg hleft, if_neg hright, ofHeld,
          Decimal.read?_eq_none_iff.mpr hliteral, ofSymbol, hsymbol]
  · rintro rfl
    by_cases hleft : lexeme = ['(']
    · subst hleft
      exact .leftParen
    by_cases hright : lexeme = [')']
    · subst hright
      exact .rightParen
    rw [ofLexeme, if_neg hleft, if_neg hright, ofHeld]
    cases hread : Decimal.read? lexeme with
    | some value =>
        obtain ⟨literal, rfl, rfl⟩ := Decimal.read?_eq_some_iff.mp hread
        exact .number literal
    | none =>
        rw [ofSymbol]
        cases hfound : Operator.ofSymbol? (.ofList lexeme) with
        | some op =>
            have heq := Operator.symbol_of_ofSymbol?_eq_some hfound
            have hchars : lexeme = op.symbol.toList := by
              rw [heq, String.toList_ofList]
            rw [hchars]
            exact .operator op
        | none =>
            refine .unknown hleft hright (Decimal.read?_eq_none_iff.mp hread) ?_
            intro op hop
            rw [← hop, String.ofList_toList, Operator.ofSymbol?_symbol] at hfound
            simp at hfound

/-! ## What the scanner does with each lexeme -/

theorem allowsSign_iff {previous : Option Token} :
    allowsSign previous = true ↔ previous = none ∨ previous = some leftParen := by
  cases previous with
  | none => simp [allowsSign]
  | some token => cases token <;> simp [allowsSign]

namespace Scanner

theorem scan_append_of_isLiteralChar (held : List Char) {run rest : List Char}
    {last : Option Token} (hrun : ∀ c ∈ run, isLiteralChar c = true) :
    scan ⟨held, last⟩ (run ++ rest) = scan ⟨held ++ run, last⟩ rest := by
  induction run generalizing held with
  | nil => simp
  | cons c run ih =>
      have hc : isLiteralChar c = true := hrun c (by simp)
      have hrest : ∀ d ∈ run, isLiteralChar d = true := fun d hd => hrun d (by simp [hd])
      have hhold :
          scan ⟨held, last⟩ (c :: (run ++ rest)) =
            scan ⟨held ++ [c], last⟩ (run ++ rest) := by
        rw [scan]
        simp [isBlank_eq_false_of_isLiteralChar hc, hc, hold]
      calc
        scan ⟨held, last⟩ (c :: run ++ rest) =
            scan ⟨held ++ [c], last⟩ (run ++ rest) := hhold
        _ = scan ⟨held ++ [c] ++ run, last⟩ rest := ih (held ++ [c]) hrest
        _ = scan ⟨held ++ c :: run, last⟩ rest := by
          rw [List.append_assoc, List.singleton_append]

/-- Whatever ends a run, its token comes first and is the last token then. -/
theorem scan_of_endsRun {held rest : List Char} {last : Option Token}
    (hne : held ≠ []) (hend : EndsRun rest) :
    scan ⟨held, last⟩ rest = ofHeld held :: (after (ofHeld held)).scan rest := by
  have hpending : pending ⟨held, last⟩ = some (ofHeld held) := by
    simp [pending, hne]
  have hflush : flush ⟨held, last⟩ = after (ofHeld held) := by
    simp [flush, hpending]
  -- Both scans meet the same first character, one with the run still held back.
  have hafter : (after (ofHeld held)).pending = none := rfl
  have hafterFlush : (after (ofHeld held)).flush = after (ofHeld held) := rfl
  cases rest with
  | nil => simp [scan, hpending, hafter]
  | cons c rest =>
      have hc : isLiteralChar c = false := hend c rfl
      rw [scan.eq_def ⟨held, last⟩, scan.eq_def (after _)]
      simp only [hpending, hflush, hafter, hafterFlush, hc]
      by_cases hblank : isBlank c = true
      · simp [hblank]
      · simp [hblank]

theorem scan_blank {c : Char} {rest : List Char} {last : Option Token}
    (hblank : isBlank c = true) :
    scan ⟨[], last⟩ (c :: rest) = scan ⟨[], last⟩ rest := by
  rw [scan]
  simp [hblank, pending, flush]

theorem scan_run {run rest : List Char} {last : Option Token}
    (hne : run ≠ []) (hrun : ∀ c ∈ run, isLiteralChar c = true) (hend : EndsRun rest) :
    scan ⟨[], last⟩ (run ++ rest) = ofLexeme run :: (after (ofLexeme run)).scan rest := by
  have htoken : ofHeld run = ofLexeme run := by
    cases run with
    | nil => exact absurd rfl hne
    | cons c run =>
        have hc : isLiteralChar c = true := hrun c (by simp)
        apply ofHeld_eq_ofLexeme <;> (rintro rfl; exact absurd hc (by decide))
  rw [scan_append_of_isLiteralChar _ hrun, List.nil_append, scan_of_endsRun hne hend, htoken]

theorem scan_signed {run rest : List Char} {last : Option Token}
    (hsign : allowsSign last = true)
    (hrun : ∀ c ∈ run, isLiteralChar c = true) (hend : EndsRun rest) :
    scan ⟨[], last⟩ ('-' :: run ++ rest) =
      ofLexeme ('-' :: run) :: (after (ofLexeme ('-' :: run))).scan rest := by
  have hhold : scan ⟨[], last⟩ ('-' :: (run ++ rest)) = scan ⟨['-'], last⟩ (run ++ rest) := by
    rw [scan]
    simp [isBlank, isLiteralChar, pending, flush, hold, hsign, Char.isDigit]
  rw [List.cons_append, hhold, scan_append_of_isLiteralChar _ hrun, List.singleton_append,
    scan_of_endsRun (by simp) hend,
    ofHeld_eq_ofLexeme (c := '-') (by decide) (by decide)]

theorem scan_double {c : Char} {rest : List Char} {last : Option Token}
    (hc : c = '*' ∨ c = '/') :
    scan ⟨[], last⟩ (c :: c :: rest) =
      ofLexeme [c, c] :: (after (ofLexeme [c, c])).scan rest := by
  rcases hc with rfl | rfl
  · have htoken : ofLexeme ['*', '*'] = operator .power := by decide
    rw [htoken, scan]
    simp [isBlank, isLiteralChar, pending, Char.isDigit, ofPair?]
  · have htoken : ofLexeme ['/', '/'] = operator .floorDivide := by decide
    rw [htoken, scan]
    simp [isBlank, isLiteralChar, pending, Char.isDigit, ofPair?]

theorem scan_single {c : Char} {rest : List Char} {last : Option Token}
    (hblank : isBlank c = false) (hliteral : isLiteralChar c = false)
    (hsign : c = '-' → allowsSign last = false)
    (hdouble : c = '*' ∨ c = '/' → rest.head? ≠ some c) :
    scan ⟨[], last⟩ (c :: rest) = ofLexeme [c] :: (after (ofLexeme [c])).scan rest := by
  have hminus : (c == '-' && allowsSign last) = false := by
    by_cases hc : c = '-'
    · simp [hsign hc]
    · simp [hc]
  rw [← ofChar_eq_ofLexeme hliteral, scan]
  simp only [hblank, hliteral, pending, flush, List.isEmpty_nil, if_true, Option.toList_none,
    List.nil_append, hminus, Bool.false_eq_true, if_false]
  have hpower : ¬(c = '*' ∧ rest.head? = some '*') := by
    rintro ⟨rfl, hhead⟩
    exact hdouble (Or.inl rfl) hhead
  have hfloor : ¬(c = '/' ∧ rest.head? = some '/') := by
    rintro ⟨rfl, hhead⟩
    exact hdouble (Or.inr rfl) hhead
  rw [ofPair?, if_neg hpower, if_neg hfloor]

end Scanner

/-! ## The scanner computes the only lexing -/

theorem scan_of_lexes {previous : Option Token} {text : List Char}
    {lexemes : List (List Char)} {tokens : List Token}
    (hlexes : Lexes previous text lexemes tokens) :
    Scanner.scan ⟨[], previous⟩ text = tokens := by
  induction hlexes with
  | nil => simp [Scanner.scan, Scanner.pending]
  | blank hblank _ ih => rw [Scanner.scan_blank hblank, ih]
  | @lexeme previous lexeme rest token lexemes tokens hlexeme htoken _ ih =>
      have hofLexeme : token = ofLexeme lexeme := standsFor_iff.mp htoken
      subst hofLexeme
      rw [← ih]
      cases hlexeme with
      | run hne hrun hend => exact Scanner.scan_run hne hrun hend
      | signed hsign hrun hend =>
          exact Scanner.scan_signed (allowsSign_iff.mpr hsign) hrun hend
      | double hc => exact Scanner.scan_double hc
      | single hblank hliteral hsign hdouble =>
          refine Scanner.scan_single hblank hliteral ?_ hdouble
          intro hc
          exact Bool.eq_false_iff.mpr (mt allowsSign_iff.mp (hsign hc))

theorem tokenize_of_lexes {text : String} {lexemes : List (List Char)} {tokens : List Token}
    (hlexes : Lexes none text.toList lexemes tokens) :
    tokenize text = tokens :=
  scan_of_lexes hlexes

theorem exists_isLexeme (previous : Option Token) {c : Char} (rest : List Char)
    (hblank : isBlank c = false) :
    ∃ lexeme tail, c :: rest = lexeme ++ tail ∧ lexeme ≠ [] ∧ IsLexeme previous lexeme tail := by
  obtain ⟨hsplit, hrun, hend⟩ :=
    takeWhile_dropWhile_iff.mp ⟨rfl, (rfl : rest.dropWhile isLiteralChar = _)⟩
  by_cases hliteral : isLiteralChar c = true
  · refine ⟨c :: rest.takeWhile isLiteralChar, rest.dropWhile isLiteralChar,
      by rw [List.cons_append, ← hsplit], by simp, .run (by simp) ?_ hend⟩
    intro d hd
    rcases List.mem_cons.mp hd with rfl | hmem
    · exact hliteral
    · exact hrun d hmem
  by_cases hsign : c = '-' ∧ (previous = none ∨ previous = some leftParen)
  · obtain ⟨rfl, hprevious⟩ := hsign
    exact ⟨'-' :: rest.takeWhile isLiteralChar, rest.dropWhile isLiteralChar,
      by rw [List.cons_append, ← hsplit], by simp,
      .signed hprevious hrun hend⟩
  by_cases hdouble : (c = '*' ∨ c = '/') ∧ rest.head? = some c
  · obtain ⟨hc, hhead⟩ := hdouble
    obtain ⟨tail, rfl⟩ := List.head?_eq_some_iff.mp hhead
    exact ⟨[c, c], tail, rfl, by simp, .double hc⟩
  · refine ⟨[c], rest, rfl, by simp, .single hblank (by simpa using hliteral) ?_ ?_⟩
    · intro hc hprevious
      exact hsign ⟨hc, hprevious⟩
    · intro hc hhead
      exact hdouble ⟨hc, hhead⟩

theorem exists_lexes (previous : Option Token) (text : List Char) :
    ∃ lexemes tokens, Lexes previous text lexemes tokens := by
  -- By strong induction, as a lexeme takes any number of characters.
  induction hlength : text.length using Nat.strongRecOn generalizing previous text with
  | ind length ih =>
    cases text with
    | nil => exact ⟨[], [], .nil⟩
    | cons c rest =>
        by_cases hblank : isBlank c = true
        · obtain ⟨lexemes, tokens, hrest⟩ := ih rest.length (by simp [← hlength]) previous rest rfl
          exact ⟨lexemes, tokens, .blank hblank hrest⟩
        · obtain ⟨lexeme, tail, hsplit, hne, hlexeme⟩ :=
            exists_isLexeme previous rest (by simpa using hblank)
          have hshorter : tail.length < length := by
            have hsum := congrArg List.length hsplit
            have hpos := List.length_pos_iff.mpr hne
            rw [List.length_append] at hsum
            omega
          obtain ⟨lexemes, tokens, hrest⟩ :=
            ih tail.length hshorter (some (ofLexeme lexeme)) tail rfl
          rw [hsplit]
          exact ⟨lexeme :: lexemes, ofLexeme lexeme :: tokens,
            .lexeme hlexeme (standsFor_iff.mpr rfl) hrest⟩

theorem getLast?_cons_or {a : α} {l : List α} {b : Option α} :
    (a :: l).getLast?.or b = l.getLast?.or (some a) := by
  rw [List.getLast?_cons]
  cases l.getLast? <;> rfl

/-- Every token was cut off after the token before it. -/
theorem Lexes.exists_isLexeme {previous : Option Token} {text : List Char}
    {lexemes : List (List Char)} {before after : List Token} {token : Token}
    (hlexes : Lexes previous text lexemes (before ++ token :: after)) :
    ∃ lexeme rest, IsLexeme (before.getLast?.or previous) lexeme rest ∧
      StandsFor lexeme token := by
  generalize htokens : before ++ token :: after = tokens at hlexes
  induction hlexes generalizing before with
  | nil => simp at htokens
  | blank _ _ ih => exact ih htokens
  | @lexeme previous lexeme rest first lexemes tokens hlexeme hstands _ ih =>
      cases before with
      | nil =>
          have hfirst : token = first := by simpa using congrArg List.head? htokens
          rw [hfirst]
          exact ⟨lexeme, rest, hlexeme, hstands⟩
      | cons other before =>
          rw [List.cons_append, List.cons.injEq] at htokens
          obtain ⟨rfl, hrest⟩ := htokens
          obtain ⟨lexeme', rest', hlexeme', hstands'⟩ := ih hrest
          refine ⟨lexeme', rest', ?_, hstands'⟩
          rwa [getLast?_cons_or]

theorem exists_isLexeme_of_tokenize {text : String} {before after : List Token} {token : Token}
    (htokens : tokenize text = before ++ token :: after) :
    ∃ lexeme rest, IsLexeme before.getLast? lexeme rest ∧ StandsFor lexeme token := by
  obtain ⟨lexemes, tokens, hlexes⟩ := exists_lexes none text.toList
  rw [← tokenize_of_lexes hlexes, htokens] at hlexes
  simpa using hlexes.exists_isLexeme

theorem exists_isLexeme_of_mem_tokenize {text : String} {token : Token}
    (hmem : token ∈ tokenize text) :
    ∃ previous lexeme rest, IsLexeme previous lexeme rest ∧ StandsFor lexeme token := by
  obtain ⟨before, after, htokens⟩ := List.append_of_mem hmem
  exact ⟨before.getLast?, exists_isLexeme_of_tokenize htokens⟩

/-- The tokens of a text are those of its lexing, and no other list of tokens has
one. -/
theorem exists_lexes_iff_eq_tokenize (text : String) :
    (∀ tokens, (∃ lexemes, Lexes none text.toList lexemes tokens) ↔ tokens = tokenize text) ∧
      ∀ lexemes tokens, Lexes none text.toList lexemes tokens →
        lexemes.flatten = text.toList.filter fun c => !isBlank c := by
  constructor
  · intro tokens
    constructor
    · rintro ⟨lexemes, hlexes⟩
      exact (tokenize_of_lexes hlexes).symm
    · rintro rfl
      obtain ⟨lexemes, tokens, hlexes⟩ := exists_lexes none text.toList
      rw [tokenize_of_lexes hlexes]
      exact ⟨lexemes, hlexes⟩
  · intro lexemes tokens hlexes
    exact hlexes.flatten_eq_filter

end Token
end InfixCalculator
