import InfixCalculator.Proofs.Insertion

/-!
# What an erasure takes from the tokens

An erasure is meant to take the last symbol of the entry.  It looks for a double
operator from the right, while the lexer pairs asterisks and slashes from the left.
The two agree on a symbol at the end of an entry unless it ends in an odd number of
asterisks, or of slashes, and more than one: the lexer leaves the last of them alone,
but the erasure takes two.
-/

namespace InfixCalculator

/-- An operator, a parenthesis or an unknown symbol of one character, a point apart. -/
def Token.IsSymbol : Token → Prop
  | operator _ | leftParen | rightParen => True
  | unknown text => text.length = 1 ∧ text ≠ "."
  | number _ => False

namespace Keypad

open Text (isBlank)
open Token

/-! ## Runs of one character -/

/-- How often an entry has the same character at its end. -/
def finalRun (c : Char) (entry : List Char) : Nat :=
  (entry.rtakeWhile (· == c)).length

theorem finalRun_eq_zero_iff {c : Char} {entry : List Char} :
    finalRun c entry = 0 ↔ entry.getLast? ≠ some c := by
  rw [finalRun, List.length_eq_zero_iff]
  cases entry using List.reverseRecOn with
  | nil => simp
  | append_singleton front d => simp [List.rtakeWhile_concat]

theorem exists_eq_append_finalRun (c : Char) (entry : List Char) :
    ∃ front, entry = front ++ List.replicate (finalRun c entry) c ∧ front.getLast? ≠ some c := by
  refine ⟨entry.rdropWhile (· == c), ?_, ?_⟩
  · have hrun : entry.rtakeWhile (· == c) = List.replicate (finalRun c entry) c := by
      apply List.eq_replicate_of_mem
      intro d hd
      simpa using List.mem_rtakeWhile_imp hd
    rw [← hrun]
    exact List.rdropWhile_append_rtakeWhile.symm
  · intro hlast
    simpa using eq_false_of_getLast?_rdropWhile hlast

/-- The tokens of a run of asterisks, or of slashes. -/
def pairs (c : Char) : Nat → List Token
  | 0 => []
  | 1 => [ofLexeme [c]]
  | n + 2 => ofLexeme [c, c] :: pairs c n

theorem scan_replicate {c : Char} (hc : Doubles c) (previous : Option Token) (n : Nat) :
    Scanner.scan ⟨[], previous⟩ (List.replicate n c) = pairs c n := by
  induction n using Nat.twoStepInduction generalizing previous with
  | zero => exact scan_of_lexes .nil
  | one =>
      have hsingle : IsLexeme previous [c] [] := by
        rcases hc with rfl | rfl
        · exact .single rfl rfl nofun (by simp)
        · exact .single rfl rfl nofun (by simp)
      exact Scanner.scan_lexeme hsingle (standsFor_iff.mpr rfl)
  | more n ih _ =>
      rw [List.replicate_succ, List.replicate_succ, Scanner.scan_double hc]
      exact congrArg _ (ih _)

theorem pairs_ne_nil (c : Char) (n : Nat) : pairs c (n + 1) ≠ [] := by
  cases n <;> simp [pairs]

/-- The last two of a run are its last token exactly when the lexer leaves none over. -/
theorem dropLast_pairs_eq_iff {c : Char} (hc : Doubles c) (n : Nat) :
    (pairs c (n + 2)).dropLast = pairs c n ↔ n % 2 = 0 := by
  induction n using Nat.twoStepInduction with
  | zero => simp [pairs]
  | one =>
      have hne : ofLexeme [c, c] ≠ ofLexeme [c] := by
        rcases hc with rfl | rfl <;> decide
      simpa [pairs] using hne
  | more n ih _ =>
      rw [pairs, List.dropLast_cons_of_ne_nil (pairs_ne_nil c (n + 1)), pairs.eq_3 c n,
        List.cons.injEq, ← pairs.eq_3 c n, Nat.add_mod_right]
      simpa using ih

/-! ## The last character of an entry -/

theorem not_isLiteralChar_of_isSymbol {entry : List Char} {c : Char} {last : Token}
    (hc : entry.getLast? = some c) (hlast : (Scanner.start.scan entry).getLast? = some last)
    (hsymbol : last.IsSymbol) : isLiteralChar c = false := by
  by_contra hliteral
  have hliteral : isLiteralChar c = true := by simpa using hliteral
  obtain ⟨lexemes, tokens, hlexes⟩ := exists_lexes none entry
  obtain ⟨lexeme, token, htoken, hstands, hmem⟩ :=
    hlexes.exists_getLast?_eq_some hc (isBlank_eq_false_of_isLiteralChar hliteral)
  rw [Scanner.start, scan_of_lexes hlexes, htoken] at hlast
  obtain rfl := Option.some.inj hlast
  cases hstands with
  | leftParen =>
      obtain rfl := List.mem_singleton.mp hmem
      cases hliteral
  | rightParen =>
      obtain rfl := List.mem_singleton.mp hmem
      cases hliteral
  | number => exact hsymbol
  | operator op =>
      rw [isLiteralChar_of_mem_symbol op c hmem] at hliteral
      cases hliteral
  | unknown _ _ hmalformed _ =>
      obtain ⟨hlength, hpoint⟩ := hsymbol
      rw [String.length_ofList] at hlength
      obtain ⟨d, rfl⟩ := List.length_eq_one_iff.mp hlength
      obtain rfl := List.mem_singleton.mp hmem
      rcases Bool.or_eq_true_iff.mp hliteral with hdigit | hdot
      · exact hmalformed ⟨false, .singleton c hdigit, none⟩ rfl
      · obtain rfl : c = '.' := by simpa using hdot
        exact hpoint rfl

theorem scan_erase_of_not_doubles {entry : List Char} {c : Char}
    (hc : (stripSpaces entry).getLast? = some c) (hblank : isBlank c = false)
    (hliteral : isLiteralChar c = false) (hdouble : ¬Doubles c) :
    Scanner.start.scan (erase entry) = (Scanner.start.scan entry).dropLast := by
  obtain ⟨front, hfront⟩ := List.getLast?_eq_some_iff.mp hc
  have hspace : c ≠ ' ' := by
    rintro rfl
    cases hblank
  have hfresh : Fresh [c] := .cons hliteral hdouble []
  obtain ⟨lexeme, tail, hsplit, hne, hlexeme⟩ :=
    exists_isLexeme (Scanner.start.scan front).getLast? [] hblank
  obtain ⟨rfl, rfl⟩ : lexeme = [c] ∧ tail = [] := by
    rcases List.append_eq_singleton_iff.mp hsplit.symm with ⟨hnil, -⟩ | hwhole
    · exact absurd hnil hne
    · exact hwhole
  rw [← erase_stripSpaces, ← scan_stripSpaces entry, hfront,
    erase_concat hspace (fun hc => absurd hc hdouble), scan_stripSpaces,
    Scanner.scan_start_append front hfresh, Scanner.scan_lexeme hlexeme (standsFor_iff.mpr rfl),
    List.dropLast_concat]

theorem scan_erase_of_doubles {entry : List Char} {c : Char}
    (hc : (stripSpaces entry).getLast? = some c) (hdouble : Doubles c) :
    Scanner.start.scan (erase entry) = (Scanner.start.scan entry).dropLast ↔
      (finalRun c (stripSpaces entry) % 2 = 1 → finalRun c (stripSpaces entry) = 1) := by
  obtain ⟨front, hsplit, hfront⟩ := exists_eq_append_finalRun c (stripSpaces entry)
  have hpositive : finalRun c (stripSpaces entry) ≠ 0 := fun hzero =>
    finalRun_eq_zero_iff.mp hzero hc
  have hspace : c ≠ ' ' := by
    rintro rfl
    simp [Doubles] at hdouble
  -- The run is cut off, as the text before it does not end with the same character.
  have hapart (n : Nat) : Apart front (List.replicate n c) := by
    constructor
    · intro d _ _ e he
      obtain rfl := List.eq_of_mem_replicate (List.mem_of_head? he)
      rcases hdouble with rfl | rfl <;> rfl
    · rintro d hd _ hhead
      obtain rfl := List.eq_of_mem_replicate (List.mem_of_head? hhead)
      exact hfront hd
  have hscan (n : Nat) : Scanner.start.scan (front ++ List.replicate n c) =
      Scanner.start.scan front ++ pairs c n := by
    have hcut := Scanner.scan_append none (hapart n)
    rwa [scan_replicate hdouble] at hcut
  rw [← erase_stripSpaces, ← scan_stripSpaces entry]
  generalize finalRun c (stripSpaces entry) = n at hsplit hpositive ⊢
  rw [hsplit, hscan]
  cases n with
  | zero => exact absurd rfl hpositive
  | succ n =>
      cases n with
      | zero =>
          rw [List.replicate_one, erase_concat hspace (fun _ => hfront), scan_stripSpaces]
          simp [pairs]
      | succ n =>
          have hlast : front ++ List.replicate (n + 2) c =
              front ++ List.replicate n c ++ [c, c] := by
            rw [List.append_assoc, ← List.replicate_append_replicate]
            rfl
          rw [hlast, erase_double hdouble, scan_stripSpaces, hscan,
            List.dropLast_append_of_ne_nil (pairs_ne_nil c (n + 1)), eq_comm,
            List.append_cancel_left_eq, dropLast_pairs_eq_iff hdouble]
          omega

end Keypad

open Keypad in
/-- An erasure takes exactly the last token, when that is a symbol and the entry does
not end in a blank, unless the entry ends in an odd number of asterisks or slashes and
more than one. -/
theorem erase_takes_last_token_iff {session : Session} {last : Token}
    (hblank : ∀ c, (stripSpaces session.entry.toList).getLast? = some c → Text.isBlank c = false)
    (hlast : (Token.tokenize session.entry).getLast? = some last) (hsymbol : last.IsSymbol) :
    Token.tokenize session.erase.entry = (Token.tokenize session.entry).dropLast ↔
      ∀ c, c = '*' ∨ c = '/' →
        let count := finalRun c (stripSpaces session.entry.toList)
        count % 2 = 1 → count = 1 := by
  rw [Session.erase, Token.tokenize, String.toList_ofList]
  rw [Token.tokenize, ← scan_stripSpaces] at hlast
  cases hc : (stripSpaces session.entry.toList).getLast? with
  | none =>
      have hempty : Token.Scanner.start.scan [] = [] := Token.scan_of_lexes .nil
      rw [List.getLast?_eq_none_iff.mp hc, hempty] at hlast
      cases hlast
  | some c =>
      have hother {d : Char} (hd : d ≠ c) :
          finalRun d (stripSpaces session.entry.toList) = 0 := by
        rw [finalRun_eq_zero_iff, hc]
        exact fun heq => hd (Option.some.inj heq).symm
      by_cases hdouble : Token.Doubles c
      · refine (scan_erase_of_doubles hc hdouble).trans ⟨?_, fun hall => hall c hdouble⟩
        intro hcount d _
        by_cases hd : d = c
        · rwa [hd]
        · simp [hother hd]
      · have hliteral := not_isLiteralChar_of_isSymbol hc hlast hsymbol
        refine iff_of_true (scan_erase_of_not_doubles hc (hblank c hc) hliteral hdouble) ?_
        intro d hd
        have hne : d ≠ c := by
          rintro rfl
          exact hdouble hd
        simp [hother hne]

open Keypad in
theorem erase_takes_last_token_iff_four :
    let session : Session := { entry := "2**** ", history := .empty 1 }
    (∀ c, (stripSpaces session.entry.toList).getLast? = some c → Text.isBlank c = false) ∧
      (Token.tokenize session.entry).getLast? = some (.operator .power) ∧
      (Token.operator .power).IsSymbol ∧
      (Token.tokenize session.erase.entry = (Token.tokenize session.entry).dropLast ↔
        ∀ c, c = '*' ∨ c = '/' →
          let count := finalRun c (stripSpaces session.entry.toList)
          count % 2 = 1 → count = 1) := by
  intro session
  have hblank : ∀ c, (stripSpaces session.entry.toList).getLast? = some c →
      Text.isBlank c = false := by
    intro c hc
    have hstar : (stripSpaces session.entry.toList).getLast? = some '*' := by decide
    obtain rfl := Option.some.inj (hstar.symm.trans hc)
    rfl
  have hlast : (Token.tokenize session.entry).getLast? = some (.operator .power) := by
    decide +kernel
  exact ⟨hblank, hlast, trivial, erase_takes_last_token_iff hblank hlast trivial⟩

open Keypad in
/-- Of a power and a multiplication sign, typed by hand, the multiplication sign
remains. -/
theorem erase_splits_three :
    let session : Session := { entry := "2***", history := .empty 1 }
    (∀ c, (stripSpaces session.entry.toList).getLast? = some c → Text.isBlank c = false) ∧
      Token.tokenize session.entry = [.number 2, .operator .power, .operator .times] ∧
      (Token.operator .times).IsSymbol ∧
      Token.tokenize session.erase.entry = [.number 2, .operator .times] ∧
      Token.tokenize session.erase.entry ≠ (Token.tokenize session.entry).dropLast := by
  intro session
  have htokens : Token.tokenize session.entry =
      [.number 2, .operator .power, .operator .times] := by
    decide +kernel
  have herased : Token.tokenize session.erase.entry = [.number 2, .operator .times] := by
    decide +kernel
  refine ⟨?_, htokens, trivial, herased, ?_⟩
  · intro c hc
    have hstar : (stripSpaces session.entry.toList).getLast? = some '*' := by decide
    obtain rfl := Option.some.inj (hstar.symm.trans hc)
    rfl
  · rw [htokens, herased]
    simp

end InfixCalculator
