import InfixCalculator.Proofs.Cut
import InfixCalculator.Proofs.Runs
import Mathlib.Data.List.Induction

/-!
# Erasing what was typed on the keypad

An erasure right after a key leaves the entry as it was, but for spaces at its end.
The spaces that operators are set off by can get lost in this way, so after more
keys the entry need not be the one typed without the erased keys.

It is read in the same way, though.  Two entries are alike when no text that is
typed after them tells them apart; every key keeps this, and an entry that was typed
on the keypad is like the same entry without the spaces at its end.
-/

namespace InfixCalculator
namespace Keypad

open Text (isBlank)
open Token

/-! ## Trailing spaces -/

theorem stripSpaces_concat_of_ne {c : Char} (entry : List Char) (hc : c ≠ ' ') :
    stripSpaces (entry ++ [c]) = entry ++ [c] :=
  Text.dropEndWhile_concat_of_neg entry (by simpa using hc)

theorem stripSpaces_concat_space (entry : List Char) :
    stripSpaces (entry ++ [' ']) = stripSpaces entry :=
  Text.dropEndWhile_concat_of_pos entry rfl

theorem stripSpaces_stripSpaces (entry : List Char) :
    stripSpaces (stripSpaces entry) = stripSpaces entry :=
  List.rdropWhile_idempotent _ entry

theorem isBlank_of_eq_space {c : Char} (hc : (c == ' ') = true) : isBlank c = true := by
  obtain rfl : c = ' ' := by simpa using hc
  rfl

/-- The entry with a space after it, unless it is empty. -/
def setOff (entry : List Char) : List Char :=
  if entry.isEmpty then [] else entry ++ [' ']

theorem insertOperator_eq (op : Operator) (entry : List Char) :
    insertOperator op entry =
      if op = .minus ∧ awaitsSign (stripSpaces entry) then stripSpaces entry ++ ['-']
      else setOff (stripSpaces entry) ++ op.symbol.toList ++ [' '] := rfl

theorem stripSpaces_setOff (entry : List Char) :
    stripSpaces (setOff (stripSpaces entry)) = stripSpaces entry := by
  by_cases hnil : stripSpaces entry = []
  · rw [hnil]
    rfl
  · rw [setOff, if_neg (by simpa using hnil), stripSpaces_concat_space, stripSpaces_stripSpaces]

theorem not_doubles_of_getLast?_setOff {entry : List Char} {c : Char}
    (hc : (setOff entry).getLast? = some c) : ¬Doubles c := by
  unfold setOff at hc
  split at hc
  next => cases hc
  next =>
    obtain rfl : ' ' = c := by simpa using hc
    simp [Doubles]

/-! ## What a key adds -/

theorem isLiteralChar_digitChar (d : Fin 10) : isLiteralChar d.val.digitChar = true := by
  revert d
  decide

theorem not_doubles_of_isLiteralChar {c : Char} (hc : isLiteralChar c = true) : ¬Doubles c := by
  rintro (rfl | rfl)
  · cases hc
  · cases hc

theorem ne_space_of_isLiteralChar {c : Char} (hc : isLiteralChar c = true) : c ≠ ' ' := by
  rintro rfl
  cases hc

/-- All that a key can do to an entry: put one character after it, where the spaces
before that character may have changed, or set an operator off. -/
inductive Adds (key : Key) (entry : List Char) : Prop
  | char (front : List Char) (c : Char) (hinsert : insert key entry = front ++ [c])
      (hfront : stripSpaces front = stripSpaces entry) (hlabel : key.label.toList = [c])
      (hspace : c ≠ ' ') (hdouble : ¬Doubles c)
  | setOff (op : Operator)
      (hinsert : insert key entry = setOff (stripSpaces entry) ++ op.symbol.toList ++ [' '])
      (hlabel : key.label = op.symbol)
      (hset : ¬(op = .minus ∧ awaitsSign (stripSpaces entry)))

theorem adds (key : Key) (entry : List Char) : Adds key entry := by
  cases key with
  | digit d =>
      have hdigit := isLiteralChar_digitChar d
      exact .char entry _ rfl rfl (String.toList_singleton _) (ne_space_of_isLiteralChar hdigit)
        (not_doubles_of_isLiteralChar hdigit)
  | point => exact .char entry '.' rfl rfl rfl (by decide) (by simp [Doubles])
  | rightParen =>
      exact .char _ ')' rfl (stripSpaces_stripSpaces entry) rfl (by decide) (by simp [Doubles])
  | leftParen =>
      by_cases hoperand : endsOperand entry = true
      · have hinsert : insert .leftParen entry = entry ++ [' '] ++ ['('] := by
          simp [insert, hoperand]
        exact .char _ '(' hinsert (stripSpaces_concat_space entry) rfl (by decide)
          (by simp [Doubles])
      · exact .char entry '(' (if_neg hoperand) rfl rfl (by decide) (by simp [Doubles])
  | operator op =>
      by_cases hsign : op = .minus ∧ awaitsSign (stripSpaces entry)
      · have hlabel : (Key.operator op).label.toList = ['-'] := by
          rw [hsign.1]
          rfl
        exact .char _ '-' (if_pos hsign) (stripSpaces_stripSpaces entry) hlabel (by decide)
          (by simp [Doubles])
      · exact .setOff op (if_neg hsign) rfl hsign

/-! ## Erasing what one key added -/

theorem erase_stripSpaces (entry : List Char) : erase (stripSpaces entry) = erase entry := by
  rw [erase, stripSpaces_stripSpaces, erase]

theorem erase_concat {entry : List Char} {c : Char} (hc : c ≠ ' ')
    (hdouble : Doubles c → entry.getLast? ≠ some c) :
    erase (entry ++ [c]) = stripSpaces entry := by
  have hsuffix {d : Char} (hd : Doubles d) : [d, d].isSuffixOf (entry ++ [c]) = false := by
    rw [← Bool.not_eq_true, List.isSuffixOf_iff_suffix]
    rintro ⟨front, hfront⟩
    have hsplit : (front ++ [d]) ++ [d] = entry ++ [c] := by simpa using hfront
    obtain ⟨rfl, hlast⟩ := List.append_inj' hsplit rfl
    obtain rfl : d = c := by simpa using hlast
    exact hdouble hd (by simp)
  rw [erase, stripSpaces_concat_of_ne entry hc]
  simp [hsuffix (Or.inl rfl), hsuffix (Or.inr rfl)]

theorem erase_double {c : Char} (hc : Doubles c) (entry : List Char) :
    erase (entry ++ [c, c]) = stripSpaces entry := by
  have hstrip : stripSpaces (entry ++ [c, c]) = entry ++ [c, c] := by
    have hne : c ≠ ' ' := by
      rintro rfl
      simp [Doubles] at hc
    simpa using stripSpaces_concat_of_ne (entry ++ [c]) hne
  have hsuffix : [c, c].isSuffixOf (entry ++ [c, c]) = true :=
    List.isSuffixOf_iff_suffix.mpr (List.suffix_append entry [c, c])
  rw [erase, hstrip]
  rcases hc with rfl | rfl
  · simp [hsuffix]
  · simp [hsuffix]

theorem erase_symbol (op : Operator) {entry : List Char}
    (hentry : ∀ c, entry.getLast? = some c → ¬Doubles c) :
    erase (entry ++ op.symbol.toList) = stripSpaces entry := by
  have hsingle (c : Char) (hc : c ≠ ' ') : erase (entry ++ [c]) = stripSpaces entry :=
    erase_concat hc (fun hdouble hlast => hentry c hlast hdouble)
  cases op with
  | power => exact erase_double (Or.inl rfl) entry
  | floorDivide => exact erase_double (Or.inr rfl) entry
  | _ => exact hsingle _ (by decide)

theorem erase_insert (key : Key) (entry : List Char) :
    erase (insert key entry) = stripSpaces entry := by
  cases adds key entry with
  | char front c hinsert hfront _ hspace hdouble =>
      rw [hinsert, erase_concat hspace (fun hc => absurd hc hdouble), hfront]
  | setOff op hinsert _ _ =>
      rw [hinsert, ← erase_stripSpaces, stripSpaces_concat_space, erase_stripSpaces,
        erase_symbol op (fun c => not_doubles_of_getLast?_setOff), stripSpaces_setOff]

/-! ## The end of an entry -/

theorem exists_symbol_eq_concat (op : Operator) :
    ∃ front c, op.symbol.toList = front ++ [c] ∧ c ≠ ' ' ∧ isBlank c = false := by
  cases op with
  | power => exact ⟨['*'], '*', rfl, by decide, by decide⟩
  | floorDivide => exact ⟨['/'], '/', rfl, by decide, by decide⟩
  | _ => exact ⟨[], _, rfl, by decide, by decide⟩

theorem stripSpaces_append_symbol (entry : List Char) (op : Operator) :
    stripSpaces (entry ++ op.symbol.toList) = entry ++ op.symbol.toList := by
  obtain ⟨front, c, hsymbol, hspace, -⟩ := exists_symbol_eq_concat op
  rw [hsymbol, ← List.append_assoc, stripSpaces_concat_of_ne _ hspace]

/-- Whatever was there before, an entry ends with the label of the last key. -/
theorem getLast?_stripSpaces_insert (key : Key) (entry : List Char) :
    (stripSpaces (insert key entry)).getLast? = key.label.toList.getLast? := by
  cases adds key entry with
  | char front c hinsert _ hlabel hspace _ =>
      rw [hinsert, stripSpaces_concat_of_ne front hspace, hlabel, List.getLast?_concat,
        List.getLast?_singleton]
  | setOff op hinsert hlabel _ =>
      obtain ⟨front, c, hsymbol, -, -⟩ := exists_symbol_eq_concat op
      rw [hinsert, stripSpaces_concat_space, stripSpaces_append_symbol, hlabel, hsymbol]
      simp

theorem isBlank_eq_false_of_getLast?_label {key : Key} {c : Char}
    (hc : key.label.toList.getLast? = some c) : isBlank c = false := by
  cases key with
  | digit d =>
      obtain rfl : d.val.digitChar = c := by simpa [Key.label] using hc
      exact isBlank_eq_false_of_isLiteralChar (isLiteralChar_digitChar d)
  | operator op =>
      obtain ⟨front, d, hsymbol, -, hblank⟩ := exists_symbol_eq_concat op
      rw [Key.label, hsymbol, List.getLast?_concat] at hc
      rwa [← Option.some.inj hc]
  | _ =>
      obtain rfl := Option.some.inj hc
      rfl

/-! ## How an entry is read after one more key -/

theorem scan_stripSpaces (entry : List Char) :
    Scanner.start.scan (stripSpaces entry) = Scanner.start.scan entry :=
  Scanner.scan_dropEndWhile none entry (fun _ => isBlank_of_eq_space)

theorem scan_stripSpaces_append (entry : List Char) {rest : List Char} (hrest : Fresh rest) :
    Scanner.start.scan (stripSpaces entry ++ rest) =
      Scanner.start.scan entry ++
        Scanner.scan ⟨[], (Scanner.start.scan entry).getLast?⟩ rest := by
  rw [Scanner.scan_start_append _ hrest, scan_stripSpaces]

theorem scan_setOff_append (entry rest : List Char) :
    Scanner.start.scan (setOff (stripSpaces entry) ++ rest) =
      Scanner.start.scan entry ++
        Scanner.scan ⟨[], (Scanner.start.scan entry).getLast?⟩ rest := by
  have hset : Scanner.start.scan (setOff (stripSpaces entry) ++ rest) =
      Scanner.start.scan (stripSpaces entry ++ ' ' :: rest) := by
    by_cases hnil : stripSpaces entry = []
    · rw [hnil]
      exact (Scanner.scan_blank rfl).symm
    · simp [setOff, hnil]
  rw [hset, scan_stripSpaces_append entry (.blank_cons rfl rest), Scanner.scan_blank rfl]

theorem scan_insertOperator (op : Operator) (entry rest : List Char) :
    Scanner.start.scan (insertOperator op entry ++ rest) =
      Scanner.start.scan entry ++
        Scanner.scan ⟨[], (Scanner.start.scan entry).getLast?⟩
          (if op = .minus ∧ awaitsSign (stripSpaces entry) then '-' :: rest
            else op.symbol.toList ++ ' ' :: rest) := by
  have hminus : Fresh ('-' :: rest) := .cons rfl (by simp [Doubles]) rest
  rw [insertOperator_eq]
  split
  next => rw [List.append_assoc, List.singleton_append, scan_stripSpaces_append entry hminus]
  next => rw [List.append_assoc, List.append_assoc, scan_setOff_append, List.singleton_append]

theorem scan_insert_leftParen (entry rest : List Char) :
    Scanner.start.scan (insert .leftParen entry ++ rest) =
      Scanner.start.scan entry ++
        Scanner.scan ⟨[], (Scanner.start.scan entry).getLast?⟩ ('(' :: rest) := by
  have hparen : Fresh ('(' :: rest) := .cons rfl (by simp [Doubles]) rest
  rw [insert]
  split
  next =>
    rw [List.append_assoc, List.cons_append, List.singleton_append,
      Scanner.scan_start_append entry (.blank_cons rfl _), Scanner.scan_blank rfl]
  next => rw [List.append_assoc, List.singleton_append, Scanner.scan_start_append entry hparen]

theorem scan_insert_rightParen (entry rest : List Char) :
    Scanner.start.scan (insert .rightParen entry ++ rest) =
      Scanner.start.scan entry ++
        Scanner.scan ⟨[], (Scanner.start.scan entry).getLast?⟩ (')' :: rest) := by
  have hparen : Fresh (')' :: rest) := .cons rfl (by simp [Doubles]) rest
  rw [insert, List.append_assoc, List.singleton_append, scan_stripSpaces_append entry hparen]

/-! ## Entries that are alike -/

/-- No text typed after the entries tells them apart, unless it doubles a symbol at
their end, and a minus sign is the same in both. -/
structure Alike (first second : List Char) : Prop where
  scan_eq : ∀ rest, NoDouble rest →
    Scanner.start.scan (first ++ rest) = Scanner.start.scan (second ++ rest)
  getLast?_eq : (stripSpaces first).getLast? = (stripSpaces second).getLast?

namespace Alike

variable {first second third : List Char}

theorem refl (entry : List Char) : Alike entry entry :=
  ⟨fun _ _ => rfl, rfl⟩

theorem trans (hfirst : Alike first second) (hsecond : Alike second third) :
    Alike first third where
  scan_eq rest hrest := (hfirst.scan_eq rest hrest).trans (hsecond.scan_eq rest hrest)
  getLast?_eq := hfirst.getLast?_eq.trans hsecond.getLast?_eq

theorem scan_eq_scan (halike : Alike first second) :
    Scanner.start.scan first = Scanner.start.scan second := by
  simpa using halike.scan_eq [] (by simp [NoDouble])

theorem awaitsSign_eq (halike : Alike first second) :
    awaitsSign (stripSpaces first) = awaitsSign (stripSpaces second) := by
  rw [awaitsSign, halike.getLast?_eq, awaitsSign]

theorem scan_concat (halike : Alike first second) {c : Char} (hc : isLiteralChar c = true)
    (rest : List Char) :
    Scanner.start.scan (first ++ [c] ++ rest) = Scanner.start.scan (second ++ [c] ++ rest) := by
  have hdouble : NoDouble (c :: rest) := by
    simpa [NoDouble] using not_doubles_of_isLiteralChar hc
  simpa using halike.scan_eq (c :: rest) hdouble

theorem insert (halike : Alike first second) (key : Key) :
    Alike (insert key first) (insert key second) where
  scan_eq rest _ := by
    cases key with
    | digit d => exact halike.scan_concat (isLiteralChar_digitChar d) rest
    | point => exact halike.scan_concat rfl rest
    | operator op =>
        rw [Keypad.insert, Keypad.insert, scan_insertOperator, scan_insertOperator,
          halike.scan_eq_scan, halike.awaitsSign_eq]
    | leftParen => rw [scan_insert_leftParen, scan_insert_leftParen, halike.scan_eq_scan]
    | rightParen => rw [scan_insert_rightParen, scan_insert_rightParen, halike.scan_eq_scan]
  getLast?_eq := by rw [getLast?_stripSpaces_insert, getLast?_stripSpaces_insert]

end Alike

/-! ## Spaces after an operator -/

/-- A minus sign that is no sign of a literal comes after a token that ends a value. -/
theorem not_sign_of_awaitsSign_eq_false {entry : List Char}
    (hblank : ∀ c, (stripSpaces entry).getLast? = some c → isBlank c = false)
    (hawaits : awaitsSign (stripSpaces entry) = false) :
    ¬((Scanner.start.scan entry).getLast? = none ∨
      (Scanner.start.scan entry).getLast? = some leftParen) := by
  cases hlast : (stripSpaces entry).getLast? with
  | none => simp [awaitsSign, hlast] at hawaits
  | some c =>
      have hparen : c ≠ '(' := by simpa [awaitsSign, hlast] using hawaits
      obtain ⟨lexemes, tokens, hlexes⟩ := exists_lexes none (stripSpaces entry)
      have htokens : Scanner.start.scan entry = tokens :=
        (scan_stripSpaces entry).symm.trans (scan_of_lexes hlexes)
      obtain ⟨lexeme, token, htoken, hstands, hmem⟩ :=
        hlexes.exists_getLast?_eq_some hlast (hblank c hlast)
      rw [htokens, htoken]
      rintro (hnone | hleft)
      · cases hnone
      · obtain rfl := Option.some.inj hleft
        cases hstands with
        | leftParen => exact hparen (by simpa using hmem)

theorem scan_setOff_symbol_append {op : Operator} {entry rest : List Char}
    (hblank : ∀ c, (stripSpaces entry).getLast? = some c → isBlank c = false)
    (hset : ¬(op = .minus ∧ awaitsSign (stripSpaces entry))) (hrest : NoDouble rest) :
    Scanner.start.scan (setOff (stripSpaces entry) ++ op.symbol.toList ++ rest) =
      Scanner.start.scan entry ++
        operator op :: Scanner.scan ⟨[], some (operator op)⟩ rest := by
  have hsign (hop : op = .minus) :
      ¬((Scanner.start.scan entry).getLast? = none ∨
        (Scanner.start.scan entry).getLast? = some leftParen) := by
    apply not_sign_of_awaitsSign_eq_false hblank
    by_contra hawaits
    exact hset ⟨hop, by simpa using hawaits⟩
  rw [List.append_assoc, scan_setOff_append, Scanner.scan_symbol op hsign hrest]

theorem alike_stripSpaces_insert (key : Key) {entry : List Char}
    (hblank : ∀ c, (stripSpaces entry).getLast? = some c → isBlank c = false) :
    Alike (stripSpaces (insert key entry)) (insert key entry) := by
  cases adds key entry with
  | char front c hinsert _ _ hspace _ =>
      rw [hinsert, stripSpaces_concat_of_ne front hspace]
      exact .refl _
  | setOff op hinsert _ hset =>
      rw [hinsert, stripSpaces_concat_space, stripSpaces_append_symbol]
      constructor
      case getLast?_eq => rw [stripSpaces_concat_space]
      case scan_eq =>
        intro rest hrest
        have hspace : NoDouble (' ' :: rest) := (Fresh.blank_cons rfl rest).noDouble
        rw [scan_setOff_symbol_append hblank hset hrest, List.append_assoc,
          List.singleton_append, scan_setOff_symbol_append hblank hset hspace,
          Scanner.scan_blank rfl]

/-! ## Strokes on the keypad -/

/-- The entry that the keys give, the oldest first. -/
def entryOf (keys : List Key) : List Char :=
  keys.foldl (fun entry key => insert key entry) []

theorem entryOf_concat (keys : List Key) (key : Key) :
    entryOf (keys ++ [key]) = insert key (entryOf keys) := by
  rw [entryOf, List.foldl_concat, entryOf]

/-- The entries that the keys can have been typed into.  At every point, keys that were
erased again can have taken the spaces at the end with them. -/
inductive Types : List Key → List Char → Prop
  | empty : Types [] []
  | key {keys : List Key} {entry : List Char} (htyped : Types keys entry) (key : Key) :
      Types (keys ++ [key]) (insert key entry)
  | strip {keys : List Key} {entry : List Char} (htyped : Types keys entry) :
      Types keys (stripSpaces entry)

namespace Types

variable {keys : List Key} {entry : List Char}

theorem erase (htyped : Types keys entry) : Types keys.dropLast (erase entry) := by
  induction htyped with
  | empty => exact .empty
  | key htyped key _ =>
      rw [List.dropLast_concat, erase_insert]
      exact .strip htyped
  | strip _ ih =>
      rw [erase_stripSpaces]
      exact ih

theorem isBlank_eq_false (htyped : Types keys entry) :
    ∀ c, (stripSpaces entry).getLast? = some c → isBlank c = false := by
  induction htyped with
  | empty =>
      intro c hc
      cases hc
  | key _ key _ =>
      intro c hc
      rw [getLast?_stripSpaces_insert] at hc
      exact isBlank_eq_false_of_getLast?_label hc
  | strip _ ih =>
      rw [stripSpaces_stripSpaces]
      exact ih

theorem alike_stripSpaces (htyped : Types keys entry) : Alike (stripSpaces entry) entry := by
  cases htyped with
  | empty => exact .refl []
  | key htyped key => exact alike_stripSpaces_insert key htyped.isBlank_eq_false
  | strip htyped =>
      rw [stripSpaces_stripSpaces]
      exact .refl _

theorem alike (htyped : Types keys entry) : Alike entry (entryOf keys) := by
  induction htyped with
  | empty => exact .refl []
  | key _ key ih =>
      rw [entryOf_concat]
      exact ih.insert key
  | strip htyped ih => exact htyped.alike_stripSpaces.trans ih

end Types

/-- A click on a key, or on the button that erases. -/
inductive Stroke where
  | key (key : Key)
  | erase
deriving DecidableEq, Repr

namespace Stroke

def action : Stroke → Action
  | key k => .frame (.click (.key k))
  | erase => .frame (.click .erase)

/-- The keys that stand after one more stroke: an erasure cancels the last of them. -/
def next (keys : List Key) : Stroke → List Key
  | key k => keys ++ [k]
  | erase => keys.dropLast

/-- The keys that no erasure cancels. -/
def remaining (strokes : List Stroke) : List Key :=
  strokes.foldl next []

end Stroke

/-- The entry after a stroke. -/
def strike (entry : List Char) : Stroke → List Char
  | .key k => insert k entry
  | .erase => erase entry

theorem Types.strike {keys : List Key} {entry : List Char} (htyped : Types keys entry)
    (stroke : Stroke) : Types (stroke.next keys) (strike entry stroke) := by
  cases stroke with
  | key k => exact htyped.key k
  | erase => exact htyped.erase

theorem Types.foldl_strike {keys : List Key} {entry : List Char} (htyped : Types keys entry)
    (strokes : List Stroke) :
    Types (strokes.foldl Stroke.next keys) (strokes.foldl Keypad.strike entry) := by
  induction strokes generalizing keys entry with
  | nil => exact htyped
  | cons stroke strokes ih => exact ih (htyped.strike stroke)

theorem foldl_strike_map_key (keys : List Key) :
    (keys.map Stroke.key).foldl strike [] = entryOf keys := by
  rw [List.foldl_map]
  rfl

theorem entry_run [Toolkit] (session : Session) (strokes : List Stroke) :
    (session.run (strokes.map Stroke.action)).entry =
      .ofList (strokes.foldl strike session.entry.toList) := by
  induction strokes generalizing session with
  | nil => exact String.ofList_toList.symm
  | cons stroke strokes ih =>
      have hstroke : (session.act stroke.action).entry =
          .ofList (strike session.entry.toList stroke) := by
        cases stroke <;> rfl
      have hrest := ih (session.act stroke.action)
      rw [hstroke, String.toList_ofList] at hrest
      exact hrest

end Keypad

open Keypad in
/-- An erasure right after a key only takes the spaces at the end of the entry with
it.  After any strokes from an empty entry, the entry has the tokens of the keys that
no erasure cancels. -/
theorem erase_undoes_keys [Toolkit] (session : Session) :
    (∀ key, (session.run ([.key key, .erase].map Stroke.action)).entry =
      .ofList (session.entry.toList.rdropWhile (· == ' '))) ∧
    (session.entry = "" → ∀ strokes : List Stroke,
      Token.tokenize (session.run (strokes.map Stroke.action)).entry =
        Token.tokenize
          (session.run ((Stroke.remaining strokes).map (Stroke.action ∘ .key))).entry) := by
  constructor
  · intro key
    rw [entry_run]
    exact congrArg String.ofList (erase_insert key session.entry.toList)
  · intro hentry strokes
    have halike := (Types.empty.foldl_strike strokes).alike
    rw [← List.map_map, entry_run, entry_run, hentry, String.toList_empty, foldl_strike_map_key,
      Token.tokenize, Token.tokenize, String.toList_ofList, String.toList_ofList]
    exact halike.scan_eq_scan

open Keypad in
theorem erase_undoes_keys_before_group :
    let session : Session := { history := .empty 1 }
    let strokes : List Stroke :=
      [.key (.digit 5), .key (.operator .minus), .key (.digit 3), .erase, .key .leftParen]
    session.entry = "" ∧
      (session.run (strokes.map Stroke.action)).entry = "5 -(" ∧
      (session.run ((Stroke.remaining strokes).map (Stroke.action ∘ .key))).entry = "5 - (" ∧
      (∀ key, (session.run ([.key key, .erase].map Stroke.action)).entry =
        .ofList (session.entry.toList.rdropWhile (· == ' '))) ∧
      Token.tokenize (session.run (strokes.map Stroke.action)).entry =
        Token.tokenize
          (session.run ((Stroke.remaining strokes).map (Stroke.action ∘ .key))).entry := by
  intro session strokes
  have htyped : strokes.foldl strike [] = ['5', ' ', '-', '('] := by decide
  have hkept : entryOf (Stroke.remaining strokes) = ['5', ' ', '-', ' ', '('] := by decide
  have hundo := erase_undoes_keys session
  refine ⟨rfl, ?_, ?_, hundo.1, hundo.2 rfl strokes⟩
  · rw [entry_run, String.toList_empty, htyped]
  · rw [← List.map_map, entry_run, String.toList_empty, foldl_strike_map_key, hkept]

end InfixCalculator
