import InfixCalculator.History

/-!
# Arguments

The command line holds expressions, each after `--eval` or `-e`, and at most one
capacity for the history, after `--historique-max`.  The program only declares
these options.  To find them among the arguments, with their values, is left to a
reader.
-/

namespace InfixCalculator.CommandLine

structure Arguments where
  expressions : List String := []
  historyMax : Nat := History.defaultCapacity
deriving DecidableEq, Repr

inductive Misuse where
  | unknownArgument
  | missingValue
  | invalidCapacity
  | repeatedCapacity
  | unexpectedValue
deriving DecidableEq, Repr

def Misuse.message : Misuse → String
  | unknownArgument => "unexpected argument"
  | missingValue => "an option lacks its value"
  | invalidCapacity => "the capacity of the history has to be a number from 1 to 1000"
  | repeatedCapacity => "the capacity of the history can be given only once"
  | unexpectedValue => "an option takes no value"

/-- Why the arguments are read no further. -/
inductive Stop where
  | help
  | version
  | misuse (cause : Misuse)
deriving DecidableEq, Repr

/-! ## Declared options -/

/-- What an option takes as its value: any text, or a number in a range. -/
inductive Values where
  | texts
  | numbers (least greatest : Nat)
deriving DecidableEq, Repr

inductive Value where
  | text (text : String)
  | number (n : Nat)
deriving DecidableEq, Repr

/-- An option with a name and possibly a letter.  It can be given again only if it
repeats, and takes a value that starts with a minus sign only if it takes hyphens. -/
structure Declaration where
  name : String
  letter : Option Char := none
  values : Values := .texts
  repeats : Bool := false
  takesHyphens : Bool := false
deriving DecidableEq, Repr

def evalOption : Declaration where
  name := "eval"
  letter := some 'e'
  repeats := true
  takesHyphens := true

def historyMaxOption : Declaration where
  name := "historique-max"
  values := .numbers 1 History.maxCapacity

def declared : List Declaration :=
  [evalOption, historyMaxOption]

/-! ## Readers -/

/-- An option that was found, with its value. -/
structure Occurrence where
  option : Declaration
  value : Value
deriving DecidableEq, Repr

/-- What is found in the arguments, without the name of the program, in order. -/
abbrev Reader := List String → Except Stop (List Occurrence)

namespace Occurrence

def expression? : Occurrence → Option String
  | ⟨option, .text text⟩ => if option = evalOption then some text else none
  | _ => none

def historyMax? : Occurrence → Option Nat
  | ⟨option, .number n⟩ => if option = historyMaxOption then some n else none
  | _ => none

end Occurrence

/-- Every expression counts, and a capacity in place of the default one. -/
def Arguments.ofOccurrences (found : List Occurrence) : Arguments where
  expressions := found.filterMap Occurrence.expression?
  historyMax := (found.findSome? Occurrence.historyMax?).getD History.defaultCapacity

end InfixCalculator.CommandLine
