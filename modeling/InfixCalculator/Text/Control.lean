/-!
# Control sequences

A terminal takes some characters for commands and does not show them.  They are
the control characters that lay out no text, and the sequences that start with
an escape character: short ones, ones with parameters, and ones that carry a
string.  A sequence that is not finished reaches to the end of the text.
-/

namespace InfixCalculator.Text

def isLayout (c : Char) : Bool :=
  c == '\t' || c == '\n' || c == '\x0c' || c == '\r'

/-- Whether a terminal shows the character where it is part of no sequence. -/
def isShown (c : Char) : Bool :=
  isLayout c || (' ' ≤ c && c != '\x7f')

/-- Where a text stands in a control sequence.  A command to the system is a string
that a bell ends. -/
inductive ControlState where
  | outside
  | escape
  | intermediate
  | parameters
  | command
  | string
deriving DecidableEq, Repr

namespace ControlState

/-- The character after an escape character tells the kinds of sequences apart. -/
def afterEscape (c : Char) : ControlState :=
  if ' ' ≤ c ∧ c ≤ '/' then intermediate
  else if c = '[' then parameters
  else if c = ']' then command
  else if c = 'P' ∨ c = 'X' ∨ c = '^' ∨ c = '_' then string
  else if '0' ≤ c ∧ c ≤ '~' then outside
  else escape

/-- The state after one more character.  An escape character starts a new sequence
in every state, and two characters cancel the one that is open. -/
def next (state : ControlState) (c : Char) : ControlState :=
  if c = '\x1b' then escape
  else if c = '\x18' ∨ c = '\x1a' then outside
  else
    match state with
    | outside => outside
    | escape => afterEscape c
    | intermediate => if '0' ≤ c ∧ c ≤ '~' then outside else intermediate
    | parameters => if '@' ≤ c ∧ c ≤ '~' then outside else parameters
    | command => if c = '\x07' then outside else command
    | string => string

/-- Whether a character is shown.  Layout takes effect even inside a sequence,
unless it is part of a string. -/
def shows : ControlState → Char → Bool
  | outside, c => isShown c
  | escape, c | intermediate, c | parameters, c => isLayout c
  | command, _ | string, _ => false

def shown (state : ControlState) : List Char → List Char
  | [] => []
  | c :: rest =>
    if state.shows c then c :: (state.next c).shown rest else (state.next c).shown rest

end ControlState

/-- A text as a terminal shows it. -/
def withoutControls (text : String) : String :=
  .ofList (ControlState.outside.shown text.toList)

end InfixCalculator.Text
