import InfixCalculator.Decimal.Literal
import InfixCalculator.Text.Blank
import InfixCalculator.Token

/-!
# Scanning a text

A text is scanned one character at a time.  Digits and points are held back
until the literal that they spell is over: at a blank, at any other character or
at the end.  A minus sign is held back with them where no value can stand before
it, at the start of the text and after an opening parenthesis.

An asterisk or a slash looks one character ahead for its double.  Scanning never
fails: what is no number, operator or parenthesis is an unknown symbol.
-/

namespace InfixCalculator.Token

def isLiteralChar (c : Char) : Bool :=
  c.isDigit || c == '.'

/-- Whether a minus sign after this token is the sign of a literal. -/
def allowsSign : Option Token → Bool
  | none | some leftParen => true
  | _ => false

def ofSymbol (symbol : List Char) : Token :=
  match Operator.ofSymbol? (.ofList symbol) with
  | some op => operator op
  | none => unknown (.ofList symbol)

/-- The token of a literal that was held back, well formed or not. -/
def ofHeld (held : List Char) : Token :=
  match Decimal.read? held with
  | some value => number value
  | none => ofSymbol held

def ofChar (c : Char) : Token :=
  if c = '(' then leftParen
  else if c = ')' then rightParen
  else ofSymbol [c]

/-- The operator that a character forms with the next one. -/
def ofPair? (c : Char) (next : Option Char) : Option Operator :=
  if c = '*' ∧ next = some '*' then some .power
  else if c = '/' ∧ next = some '/' then some .floorDivide
  else none

/-- What a scan remembers between two characters: the characters that it holds
back, and the last token. -/
structure Scanner where
  held : List Char
  last : Option Token
deriving DecidableEq

namespace Scanner

def start : Scanner := ⟨[], none⟩

def after (token : Token) : Scanner := ⟨[], some token⟩

def hold (scanner : Scanner) (c : Char) : Scanner :=
  { scanner with held := scanner.held ++ [c] }

/-- The token of the characters held back, if there are any. -/
def pending (scanner : Scanner) : Option Token :=
  if scanner.held.isEmpty then none else some (ofHeld scanner.held)

/-- What is remembered once the literal that is held back is over. -/
def flush (scanner : Scanner) : Scanner :=
  match scanner.pending with
  | some token => after token
  | none => scanner

def scan (scanner : Scanner) : List Char → List Token
  | [] => scanner.pending.toList
  | c :: rest =>
    if Text.isBlank c then
      scanner.pending.toList ++ scanner.flush.scan rest
    else if isLiteralChar c then
      (scanner.hold c).scan rest
    else
      scanner.pending.toList ++
        if c == '-' && allowsSign scanner.flush.last then
          (scanner.flush.hold c).scan rest
        else
          match ofPair? c rest.head? with
          | some op => operator op :: (after (operator op)).scan rest.tail
          | none => ofChar c :: (after (ofChar c)).scan rest
termination_by text => text.length
decreasing_by
  all_goals
    simp only [List.length_cons, List.length_tail]
    omega

end Scanner

def tokenize (text : String) : List Token :=
  Scanner.start.scan text.toList

end InfixCalculator.Token
