import InfixCalculator.Proofs.Rendering
import InfixCalculator.Proofs.Undo

/-!
# What a key adds to the tokens

An operator or a parenthesis of the keypad is one more token, whatever is in the
entry already.  A digit or a point goes on the literal that is pending at the end of
the entry, and starts a new one where none is pending.

The keypad looks at the last characters of the entry, while the lexer knows all the
tokens before them.  Both views meet at the literal that is pending: it starts where
the text before it can be cut off.
-/

namespace InfixCalculator
namespace Keypad

open Text (isBlank)
open Token

/-! ## Places of a sign -/

/-- Whether a minus sign after these tokens is the sign of a literal. -/
def SignPlace (tokens : List Token) : Prop :=
  tokens = [] ∨ tokens.getLast? = some leftParen

instance (tokens : List Token) : Decidable (SignPlace tokens) :=
  inferInstanceAs (Decidable (_ ∨ _))

theorem signPlace_iff {tokens : List Token} :
    SignPlace tokens ↔ tokens.getLast? = none ∨ tokens.getLast? = some leftParen := by
  rw [SignPlace, List.getLast?_eq_none_iff]

theorem signPlace_of_awaitsSign {entry : List Char}
    (hawaits : awaitsSign (stripSpaces entry) = true) :
    SignPlace (Scanner.start.scan entry) := by
  rw [← scan_stripSpaces]
  generalize stripSpaces entry = kept at hawaits ⊢
  cases hlast : kept.getLast? with
  | none =>
      rw [List.getLast?_eq_none_iff.mp hlast]
      exact Or.inl (scan_of_lexes .nil)
  | some c =>
      obtain rfl : c = '(' := by simpa [awaitsSign, hlast] using hawaits
      obtain ⟨front, rfl⟩ := List.getLast?_eq_some_iff.mp hlast
      have hparen : Fresh ['('] := .cons rfl (by simp [Doubles]) []
      right
      rw [Scanner.scan_start_append front hparen,
        Scanner.scan_lexeme (isLexeme_paren (Or.inl rfl) []) .leftParen, List.getLast?_concat]

theorem awaitsSign_of_signPlace {entry : List Char}
    (hblank : ∀ c, (stripSpaces entry).getLast? = some c → isBlank c = false)
    (hsign : SignPlace (Scanner.start.scan entry)) : awaitsSign (stripSpaces entry) = true := by
  by_contra hawaits
  exact not_sign_of_awaitsSign_eq_false hblank (by simpa using hawaits) (signPlace_iff.mp hsign)

/-! ## The pending literal -/

/-- The digits and points at the end of an entry, with the sign that stands before
them.  A sign alone is pending as well. -/
def pendingLiteral (entry : List Char) : List Char :=
  let run := entry.rtakeWhile isLiteralChar
  let front := entry.rdropWhile isLiteralChar
  if front.getLast? = some '-' ∧ SignPlace (Scanner.start.scan front.dropLast) then '-' :: run
  else run

/-- The tokens before and after one more character of a literal.  It goes on the
pending literal, whose token is replaced, or starts a new one. -/
inductive Continues (pending : List Char) (c : Char) : List Token → List Token → Prop
  | replace {settled : List Token} {last token : Token} (hne : pending ≠ [])
      (hlast : StandsFor pending last) (htoken : StandsFor (pending ++ [c]) token) :
      Continues pending c (settled ++ [last]) (settled ++ [token])
  | start {tokens : List Token} {token : Token} (hnil : pending = [])
      (htoken : StandsFor [c] token) : Continues pending c tokens (tokens ++ [token])

/-- The text ends neither in a literal nor in a sign. -/
structure Settled (text : List Char) : Prop where
  not_literal : ∀ c, text.getLast? = some c → isLiteralChar c = false
  not_sign : ∀ front, text = front ++ ['-'] → ¬SignPlace (Scanner.start.scan front)

theorem Settled.scan_append {text rest : List Char} (hsettled : Settled text)
    (hrest : NoDouble rest) :
    Scanner.start.scan (text ++ rest) =
      Scanner.start.scan text ++ Scanner.scan ⟨[], (Scanner.start.scan text).getLast?⟩ rest := by
  by_cases hminus : text.getLast? = some '-'
  · -- The rest may start with a digit, so the cut is made before the minus sign.
    obtain ⟨front, rfl⟩ := List.getLast?_eq_some_iff.mp hminus
    have hsign := mt signPlace_iff.mpr (hsettled.not_sign front rfl)
    have hcut (more : List Char) (hmore : NoDouble more) :
        Scanner.start.scan (front ++ '-' :: more) =
          Scanner.start.scan front ++
            operator .minus :: Scanner.scan ⟨[], some (operator .minus)⟩ more := by
      rw [Scanner.scan_start_append front (.cons rfl (by simp [Doubles]) more)]
      exact congrArg _ (Scanner.scan_symbol .minus (fun _ => hsign) hmore)
    have halone : Scanner.start.scan (front ++ ['-']) =
        Scanner.start.scan front ++ [operator .minus] := by
      rw [hcut [] (by simp [NoDouble]), scan_of_lexes .nil]
    rw [halone, List.getLast?_concat, List.append_assoc, List.append_assoc,
      List.singleton_append, List.singleton_append, hcut rest hrest]
  · have hapart : Apart text rest := by
      constructor
      · rintro c hc (hliteral | rfl)
        · rw [hsettled.not_literal c hc] at hliteral
          cases hliteral
        · exact absurd hc hminus
      · intro c _ hc hhead
        exact hrest c hhead hc
    have hcut := Scanner.scan_append none hapart
    rwa [Option.or_none] at hcut

theorem Settled.scan_append_literal {text run : List Char} {token : Token}
    (hsettled : Settled text) (hne : run ≠ []) (hrun : ∀ c ∈ run, isLiteralChar c = true)
    (htoken : StandsFor run token) :
    Scanner.start.scan (text ++ run) = Scanner.start.scan text ++ [token] := by
  have hdouble : NoDouble run := by
    intro c hc
    exact not_doubles_of_isLiteralChar (hrun c (List.mem_of_head? hc))
  have hend : EndsRun [] := by simp [EndsRun]
  rw [hsettled.scan_append hdouble, Scanner.scan_lexeme (.run hne hrun hend) htoken]

theorem scan_append_signed {text run : List Char} {token : Token}
    (hsign : SignPlace (Scanner.start.scan text)) (hrun : ∀ c ∈ run, isLiteralChar c = true)
    (htoken : StandsFor ('-' :: run) token) :
    Scanner.start.scan (text ++ '-' :: run) = Scanner.start.scan text ++ [token] := by
  have hfresh : Fresh ('-' :: run) := .cons rfl (by simp [Doubles]) run
  have hend : EndsRun [] := by simp [EndsRun]
  rw [Scanner.scan_start_append text hfresh,
    Scanner.scan_lexeme (.signed (signPlace_iff.mp hsign) hrun hend) htoken]

theorem isLiteralChar_of_mem_concat {run : List Char} {c : Char}
    (hrun : ∀ d ∈ run, isLiteralChar d = true) (hc : isLiteralChar c = true) :
    ∀ d ∈ run ++ [c], isLiteralChar d = true := by
  intro d hd
  rcases List.mem_append.mp hd with hmem | hlast
  · exact hrun d hmem
  · rwa [List.mem_singleton.mp hlast]

section

variable {text run : List Char} {c : Char} (hrun : ∀ d ∈ run, isLiteralChar d = true)
  (hc : isLiteralChar c = true)

include hrun hc

theorem continues_signed (hsign : SignPlace (Scanner.start.scan text)) :
    Continues ('-' :: run) c (Scanner.start.scan (text ++ '-' :: run))
      (Scanner.start.scan (text ++ '-' :: (run ++ [c]))) := by
  have hlast : StandsFor ('-' :: run) (ofLexeme ('-' :: run)) := standsFor_iff.mpr rfl
  have htoken : StandsFor ('-' :: (run ++ [c])) (ofLexeme ('-' :: (run ++ [c]))) :=
    standsFor_iff.mpr rfl
  rw [scan_append_signed hsign hrun hlast,
    scan_append_signed hsign (isLiteralChar_of_mem_concat hrun hc) htoken]
  exact .replace (by simp) hlast htoken

theorem Settled.continues (hsettled : Settled text) :
    Continues run c (Scanner.start.scan (text ++ run))
      (Scanner.start.scan (text ++ (run ++ [c]))) := by
  have htoken : StandsFor (run ++ [c]) (ofLexeme (run ++ [c])) := standsFor_iff.mpr rfl
  rw [hsettled.scan_append_literal (by simp) (isLiteralChar_of_mem_concat hrun hc) htoken]
  by_cases hnil : run = []
  · subst hnil
    rw [List.append_nil]
    exact .start rfl htoken
  · have hlast : StandsFor run (ofLexeme run) := standsFor_iff.mpr rfl
    rw [hsettled.scan_append_literal hnil hrun hlast]
    exact .replace hnil hlast htoken

end

theorem continues_concat (entry : List Char) {c : Char} (hc : isLiteralChar c = true) :
    Continues (pendingLiteral entry) c (Scanner.start.scan entry)
      (Scanner.start.scan (entry ++ [c])) := by
  have hsplit : entry.rdropWhile isLiteralChar ++ entry.rtakeWhile isLiteralChar = entry :=
    List.rdropWhile_append_rtakeWhile
  have hrun : ∀ d ∈ entry.rtakeWhile isLiteralChar, isLiteralChar d = true :=
    fun _ => List.mem_rtakeWhile_imp
  have hfront : ∀ d, (entry.rdropWhile isLiteralChar).getLast? = some d →
      isLiteralChar d = false := fun _ => eq_false_of_getLast?_rdropWhile
  unfold pendingLiteral
  generalize entry.rtakeWhile isLiteralChar = run at hsplit hrun ⊢
  generalize entry.rdropWhile isLiteralChar = front at hsplit hfront ⊢
  subst hsplit
  dsimp only
  split
  next hsign =>
    obtain ⟨hminus, hplace⟩ := hsign
    obtain ⟨text, rfl⟩ := List.getLast?_eq_some_iff.mp hminus
    rw [List.dropLast_concat] at hplace
    simpa using continues_signed hrun hc hplace
  next hsign =>
    have hsettled : Settled front := by
      refine ⟨hfront, ?_⟩
      rintro text rfl hplace
      exact hsign ⟨by simp, by simpa using hplace⟩
    rw [List.append_assoc]
    exact hsettled.continues hrun hc

/-! ## Operators -/

theorem scan_insert_operator (op : Operator) (entry : List Char) :
    Scanner.start.scan (insert (.operator op) entry) =
      Scanner.start.scan entry ++ [operator op] := by
  have hadds := scan_insertOperator op entry []
  rw [List.append_nil] at hadds
  rw [insert, hadds]
  split
  next hminus =>
    have hend : Separated [] := by simp [Separated]
    rw [hminus.1]
    exact congrArg _ (Scanner.scan_lexeme (isLexeme_symbol_of_separated _ .minus hend)
      (.operator .minus))
  next =>
    have hspace : Separated [' '] := by simp [Separated, isBlank]
    rw [scan_of_lexes (.lexeme (isLexeme_symbol_of_separated _ op hspace) (.operator op)
      (.blank rfl .nil))]

/-! ## A minus sign and a digit -/

def digitLiteral (negative : Bool) (d : Fin 10) : Decimal.Literal :=
  ⟨negative, .singleton d.val.digitChar (by revert d; decide), none⟩

theorem value_digitLiteral (d : Fin 10) :
    (digitLiteral false d).value = Float.ofNat d ∧
      (digitLiteral true d).value = -Float.ofNat d := by
  revert d
  decide +kernel

theorem scan_digitLiteral {previous : Option Token} {negative : Bool} (d : Fin 10)
    (hsign : negative = true → previous = none ∨ previous = some leftParen) :
    Scanner.scan ⟨[], previous⟩ (digitLiteral negative d).text =
      [number (digitLiteral negative d).value] := by
  have hend : EndsRun [] := by simp [EndsRun]
  exact Scanner.scan_lexeme (isLexeme_text _ hsign hend) (.number _)

theorem scan_insert_minus_digit_of_signPlace {entry : List Char}
    (hblank : ∀ c, (stripSpaces entry).getLast? = some c → isBlank c = false)
    (hsign : SignPlace (Scanner.start.scan entry)) (d : Fin 10) :
    Scanner.start.scan (insert (.digit d) (insert (.operator .minus) entry)) =
      Scanner.start.scan entry ++ [number (-Float.ofNat d)] := by
  have hawaits := awaitsSign_of_signPlace hblank hsign
  have hliteral := scan_digitLiteral d (fun (_ : true = true) => signPlace_iff.mp hsign)
  rw [(value_digitLiteral d).2] at hliteral
  rw [insert, insert, scan_insertOperator, if_pos ⟨rfl, hawaits⟩]
  exact congrArg _ hliteral

theorem scan_insert_minus_digit_of_not_signPlace {entry : List Char}
    (hsign : ¬SignPlace (Scanner.start.scan entry)) (d : Fin 10) :
    Scanner.start.scan (insert (.digit d) (insert (.operator .minus) entry)) =
      Scanner.start.scan entry ++ [operator .minus, number (Float.ofNat d)] := by
  have hawaits : ¬(Operator.minus = .minus ∧ awaitsSign (stripSpaces entry) = true) :=
    fun hawaits => hsign (signPlace_of_awaitsSign hawaits.2)
  have hspace : NoDouble [' ', d.val.digitChar] := (Fresh.blank_cons rfl _).noDouble
  have hliteral : Scanner.scan ⟨[], some (operator .minus)⟩ (digitLiteral false d).text =
      [number (digitLiteral false d).value] := scan_digitLiteral d (by simp)
  have htext : (digitLiteral false d).text = [d.val.digitChar] := rfl
  rw [(value_digitLiteral d).1, htext] at hliteral
  rw [insert, insert, scan_insertOperator, if_neg hawaits,
    Scanner.scan_symbol .minus (fun _ => mt signPlace_iff.mpr hsign) hspace,
    Scanner.scan_blank rfl, hliteral]

end Keypad

theorem Session.tokenize_press (session : Session) (key : Key) :
    Token.tokenize (session.press key).entry =
      Token.Scanner.start.scan (Keypad.insert key session.entry.toList) := by
  rw [press, Token.tokenize, String.toList_ofList]

open Token Keypad in
/-- A key adds its own token to those of the entry, and a digit or a point goes on the
literal that is pending.  A minus sign and a digit after it are a negative number
where a value is due, and an operator and a number elsewhere. -/
theorem press_adds_token (session : Session) :
    let entry := session.entry.toList
    let tokens := tokenize session.entry
    (∀ op, tokenize (session.press (.operator op)).entry = tokens ++ [operator op]) ∧
      tokenize (session.press .leftParen).entry = tokens ++ [leftParen] ∧
      tokenize (session.press .rightParen).entry = tokens ++ [rightParen] ∧
      (∀ d, Continues (pendingLiteral entry) d.val.digitChar tokens
        (tokenize (session.press (.digit d)).entry)) ∧
      Continues (pendingLiteral entry) '.' tokens (tokenize (session.press .point).entry) ∧
      ∀ d : Fin 10,
        let pressed := (session.press (.operator .minus)).press (.digit d)
        (SignPlace tokens → (∀ c, (stripSpaces entry).getLast? = some c → Text.isBlank c = false) →
          tokenize pressed.entry = tokens ++ [number (-Float.ofNat d)]) ∧
        (¬SignPlace tokens →
          tokenize pressed.entry = tokens ++ [operator .minus, number (Float.ofNat d)]) := by
  intro entry tokens
  refine ⟨?_, ?_, ?_, ?_, ?_, ?_⟩
  · intro op
    rw [session.tokenize_press]
    exact scan_insert_operator op entry
  · have hadds := scan_insert_leftParen entry []
    rw [List.append_nil, Scanner.scan_lexeme (isLexeme_paren (Or.inl rfl) []) .leftParen] at hadds
    rw [session.tokenize_press]
    exact hadds
  · have hadds := scan_insert_rightParen entry []
    rw [List.append_nil,
      Scanner.scan_lexeme (isLexeme_paren (Or.inr rfl) []) .rightParen] at hadds
    rw [session.tokenize_press]
    exact hadds
  · intro d
    rw [session.tokenize_press]
    exact continues_concat entry (isLiteralChar_digitChar d)
  · rw [session.tokenize_press]
    exact continues_concat entry rfl
  · intro d pressed
    have hpressed : tokenize pressed.entry =
        Scanner.start.scan
          (Keypad.insert (.digit d) (Keypad.insert (.operator .minus) entry)) := by
      rw [Session.tokenize_press, Session.press, String.toList_ofList]
    rw [hpressed]
    exact ⟨fun hsign hblank => scan_insert_minus_digit_of_signPlace hblank hsign d,
      fun hsign => scan_insert_minus_digit_of_not_signPlace hsign d⟩

end InfixCalculator
