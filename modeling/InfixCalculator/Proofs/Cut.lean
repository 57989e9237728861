import InfixCalculator.Proofs.Spelling
import Mathlib.Data.List.DropRight

/-!
# Cutting a text in two

A text may be cut where nothing on the right can go on a lexeme on the left: the
right part starts with no digit, no point and no half of a double operator, or the
left part ends with nothing that these could go on.  The right part is then scanned
as after the last token of the left one.

Blanks cut a text in this way.  So none of those around a text has any effect on
its tokens.
-/

namespace InfixCalculator
namespace Token

open Text (isBlank)

/-- No lexeme goes on into the text, whatever comes before it. -/
structure Fresh (rest : List Char) : Prop where
  endsRun : EndsRun rest
  noDouble : NoDouble rest

theorem Fresh.cons {c : Char} (hliteral : isLiteralChar c = false) (hdouble : ¬Doubles c)
    (rest : List Char) : Fresh (c :: rest) where
  endsRun := by simpa [EndsRun] using hliteral
  noDouble := by simpa [NoDouble] using hdouble

theorem Fresh.blank_cons {c : Char} (hblank : isBlank c = true) (rest : List Char) :
    Fresh (c :: rest) :=
  .cons (not_isLiteralChar_of_isBlank hblank) (not_doubles_of_isBlank hblank) rest

theorem Fresh.of_blanks {gap : List Char} (hgap : ∀ c ∈ gap, isBlank c = true) : Fresh gap := by
  cases gap with
  | nil => constructor <;> simp [EndsRun, NoDouble]
  | cons c gap => exact .blank_cons (hgap c List.mem_cons_self) gap

/-- No lexeme at the end of the text goes on into the rest: neither a literal nor a
sign, and no half of a double operator. -/
structure Apart (text rest : List Char) : Prop where
  endsRun : ∀ c, text.getLast? = some c → isLiteralChar c = true ∨ c = '-' → EndsRun rest
  noDouble : ∀ c, text.getLast? = some c → Doubles c → rest.head? ≠ some c

theorem Fresh.apart {rest : List Char} (hfresh : Fresh rest) (text : List Char) :
    Apart text rest where
  endsRun _ _ _ := hfresh.endsRun
  noDouble c _ hc hhead := hfresh.noDouble c hhead hc

theorem Apart.of_append (front : List Char) {text rest : List Char}
    (hapart : Apart (front ++ text) rest) : Apart text rest := by
  have hlast {c : Char} (hc : text.getLast? = some c) : (front ++ text).getLast? = some c := by
    simp [List.getLast?_append, hc]
  constructor
  · intro c hc
    exact hapart.endsRun c (hlast hc)
  · intro c hc
    exact hapart.noDouble c (hlast hc)

/-- A literal that has ended goes on into nothing that stands apart from it. -/
theorem EndsRun.append {lexeme rest more : List Char} (hend : EndsRun rest) (hne : lexeme ≠ [])
    (hlexeme : ∀ c ∈ lexeme, isLiteralChar c = true ∨ c = '-')
    (hmore : Apart (lexeme ++ rest) more) : EndsRun (rest ++ more) := by
  cases rest with
  | nil =>
      have hlast := List.getLast?_eq_some_getLast hne
      rw [List.append_nil] at hmore
      exact hmore.endsRun _ hlast (hlexeme _ (List.mem_of_getLast? hlast))
  | cons c rest => exact hend

/-! ## Lexing across a cut -/

theorem IsLexeme.append {previous : Option Token} {lexeme rest more : List Char}
    (hlexeme : IsLexeme previous lexeme rest) (hmore : Apart (lexeme ++ rest) more) :
    IsLexeme previous lexeme (rest ++ more) := by
  cases hlexeme with
  | run hne hrun hend =>
      exact .run hne hrun (hend.append hne (fun c hc => Or.inl (hrun c hc)) hmore)
  | @signed run _ hsign hrun hend =>
      have hchars : ∀ c ∈ '-' :: run, isLiteralChar c = true ∨ c = '-' := by
        intro c hc
        rcases List.mem_cons.mp hc with rfl | hmem
        · exact Or.inr rfl
        · exact Or.inl (hrun c hmem)
      exact .signed hsign hrun (hend.append (List.cons_ne_nil _ _) hchars hmore)
  | double hc => exact .double hc
  | @single c _ hblank hliteral hsign hdouble =>
      refine .single hblank hliteral hsign ?_
      intro hc
      cases rest with
      | nil => exact hmore.noDouble c rfl hc
      | cons d rest => exact hdouble hc

theorem Lexes.append {previous : Option Token} {text rest : List Char}
    {lexemes lexemes' : List (List Char)} {tokens tokens' : List Token}
    (htext : Lexes previous text lexemes tokens) (hapart : Apart text rest)
    (hrest : Lexes (tokens.getLast?.or previous) rest lexemes' tokens') :
    Lexes previous (text ++ rest) (lexemes ++ lexemes') (tokens ++ tokens') := by
  induction htext with
  | nil => exact hrest
  | blank hblank _ ih => exact .blank hblank (ih (hapart.of_append [_]) hrest)
  | @lexeme previous lexeme text token lexemes tokens hlexeme htoken _ ih =>
      rw [getLast?_cons_or] at hrest
      rw [List.append_assoc]
      exact .lexeme (hlexeme.append hapart) htoken (ih (hapart.of_append _) hrest)

/-- The last character of a text that is not blank belongs to its last token. -/
theorem Lexes.exists_getLast?_eq_some {previous : Option Token} {text : List Char}
    {lexemes : List (List Char)} {tokens : List Token}
    (htext : Lexes previous text lexemes tokens) {c : Char} (hc : text.getLast? = some c)
    (hblank : isBlank c = false) :
    ∃ lexeme token, tokens.getLast? = some token ∧ StandsFor lexeme token ∧ c ∈ lexeme := by
  induction htext with
  | nil => cases hc
  | @blank previous d rest _ _ hd _ ih =>
      cases rest with
      | nil =>
          obtain rfl : d = c := by simpa using hc
          rw [hd] at hblank
          cases hblank
      | cons e rest => exact ih (by simpa using hc)
  | @lexeme previous lexeme rest token _ tokens _ htoken hrest ih =>
      by_cases hnil : rest = []
      · subst hnil
        obtain rfl : tokens = [] := (scan_of_lexes hrest).symm.trans (scan_of_lexes .nil)
        rw [List.append_nil] at hc
        exact ⟨lexeme, token, rfl, htoken, List.mem_of_getLast? hc⟩
      · rw [List.getLast?_append_of_ne_nil _ hnil] at hc
        obtain ⟨lexeme', token', hlast, hstands, hmem⟩ := ih hc
        refine ⟨lexeme', token', ?_, hstands, hmem⟩
        rw [List.getLast?_cons, hlast]
        rfl

namespace Scanner

theorem scan_append (previous : Option Token) {text rest : List Char}
    (hapart : Apart text rest) :
    scan ⟨[], previous⟩ (text ++ rest) =
      scan ⟨[], previous⟩ text ++
        scan ⟨[], (scan ⟨[], previous⟩ text).getLast?.or previous⟩ rest := by
  obtain ⟨lexemes, tokens, htext⟩ := exists_lexes previous text
  rw [scan_of_lexes htext]
  obtain ⟨lexemes', tokens', hrest⟩ := exists_lexes (tokens.getLast?.or previous) rest
  rw [scan_of_lexes hrest, scan_of_lexes (htext.append hapart hrest)]

theorem scan_start_append (text : List Char) {rest : List Char} (hfresh : Fresh rest) :
    start.scan (text ++ rest) =
      start.scan text ++ scan ⟨[], (start.scan text).getLast?⟩ rest := by
  have hcut := scan_append none (hfresh.apart text)
  rwa [Option.or_none] at hcut

theorem scan_lexeme {previous : Option Token} {lexeme : List Char} {token : Token}
    (hlexeme : IsLexeme previous lexeme []) (htoken : StandsFor lexeme token) :
    scan ⟨[], previous⟩ lexeme = [token] := by
  simpa using scan_of_lexes (.lexeme hlexeme htoken .nil)

theorem scan_symbol {previous : Option Token} (op : Operator) {rest : List Char}
    (hsign : op = .minus → ¬(previous = none ∨ previous = some leftParen))
    (hrest : NoDouble rest) :
    scan ⟨[], previous⟩ (op.symbol.toList ++ rest) =
      operator op :: scan ⟨[], some (operator op)⟩ rest := by
  obtain ⟨lexemes, tokens, htokens⟩ := exists_lexes (some (operator op)) rest
  rw [scan_of_lexes htokens]
  exact scan_of_lexes (.lexeme (isLexeme_symbol op hsign hrest) (.operator op) htokens)

/-! ## Blanks around a text -/

theorem scan_blanks_append (previous : Option Token) {gap : List Char}
    (hgap : ∀ c ∈ gap, isBlank c = true) (rest : List Char) :
    scan ⟨[], previous⟩ (gap ++ rest) = scan ⟨[], previous⟩ rest := by
  obtain ⟨lexemes, tokens, hrest⟩ := exists_lexes previous rest
  rw [scan_of_lexes hrest, scan_of_lexes (hrest.blanks_append hgap)]

theorem scan_blanks (previous : Option Token) {gap : List Char}
    (hgap : ∀ c ∈ gap, isBlank c = true) : scan ⟨[], previous⟩ gap = [] := by
  have hnil := scan_blanks_append previous hgap []
  rw [List.append_nil] at hnil
  exact hnil.trans (scan_of_lexes .nil)

theorem scan_append_blanks (previous : Option Token) (text : List Char) {gap : List Char}
    (hgap : ∀ c ∈ gap, isBlank c = true) :
    scan ⟨[], previous⟩ (text ++ gap) = scan ⟨[], previous⟩ text := by
  rw [scan_append previous ((Fresh.of_blanks hgap).apart text), scan_blanks _ hgap,
    List.append_nil]

theorem scan_dropEndWhile (previous : Option Token) (text : List Char) {p : Char → Bool}
    (hp : ∀ c, p c = true → isBlank c = true) :
    scan ⟨[], previous⟩ (Text.dropEndWhile p text) = scan ⟨[], previous⟩ text := by
  have hsplit : Text.dropEndWhile p text ++ text.rtakeWhile p = text :=
    List.rdropWhile_append_rtakeWhile
  have hgap : ∀ c ∈ text.rtakeWhile p, isBlank c = true := by
    intro c hc
    exact hp c (List.mem_rtakeWhile_imp hc)
  have hkept := scan_append_blanks previous (Text.dropEndWhile p text) hgap
  rw [hsplit] at hkept
  exact hkept.symm

end Scanner

theorem tokenize_trim (text : String) : tokenize (Text.trim text) = tokenize text := by
  have hgap : ∀ c ∈ text.toList.takeWhile isBlank, isBlank c = true :=
    List.all_eq_true.mp List.all_takeWhile
  have hlead := Scanner.scan_blanks_append none hgap (text.toList.dropWhile isBlank)
  rw [List.takeWhile_append_dropWhile] at hlead
  calc
    tokenize (Text.trim text) =
        Scanner.start.scan (Text.dropEndWhile isBlank (text.toList.dropWhile isBlank)) := by
      rw [tokenize, Text.trim, String.toList_ofList]
    _ = Scanner.start.scan (text.toList.dropWhile isBlank) :=
      Scanner.scan_dropEndWhile none _ (fun _ => id)
    _ = tokenize text := hlead.symm

end Token
end InfixCalculator
