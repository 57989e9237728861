import InfixCalculator.CommandLine.Arguments

/-!
# Reading from left to right

The reader that the program runs with, unless it is given another.  It knows no
positional arguments and no abbreviations.

A value in an argument of its own is checked only when the next argument is not
wrong by itself, so the fault of that argument comes first.
-/

namespace InfixCalculator.CommandLine

/-- What an argument is where an option can stand; an option may bring its value
along. -/
inductive Argument where
  | option (declaration : Declaration) (value : Option String)
  | help
  | version
  | terminator
  | refused (cause : Misuse)
deriving DecidableEq, Repr

namespace Argument

def ofLong (name : List Char) (value : Option (List Char)) : Argument :=
  match declared.find? (·.name.toList = name) with
  | some declaration => option declaration (value.map .ofList)
  | none =>
    if name = "help".toList then value.elim help fun _ => refused .unexpectedValue
    else if name = "version".toList then value.elim version fun _ => refused .unexpectedValue
    else refused .unknownArgument

def attached? : List Char → Option String
  | [] => none
  | '=' :: value => some (.ofList value)
  | value => some (.ofList value)

def ofShort (letter : Char) (rest : List Char) : Argument :=
  match declared.find? (·.letter = some letter) with
  | some declaration => option declaration (attached? rest)
  | none =>
    match letter with
    | 'h' => help
    | 'V' => version
    | _ => refused .unknownArgument

def ofChars : List Char → Argument
  | ['-', '-'] => terminator
  | '-' :: '-' :: long =>
    let name := long.takeWhile (· != '=')
    ofLong name (long.dropWhile (· != '=')).tail?
  | '-' :: letter :: rest => ofShort letter rest
  | _ => refused .unknownArgument

def ofString (text : String) : Argument :=
  ofChars text.toList

/-- The fault of the first of the arguments, if it is wrong by itself. -/
def fault? : List String → Option Misuse
  | [] => none
  | argument :: arguments =>
    match ofString argument with
    | refused cause => some cause
    | terminator => if arguments.isEmpty then none else some .unknownArgument
    | _ => none

end Argument

/-- Whether a text in the next argument is taken as the value.  A single minus sign is
no option. -/
def Declaration.takes (declaration : Declaration) (text : String) : Bool :=
  declaration.takesHyphens ||
    match text.toList with
    | '-' :: _ :: _ => false
    | _ => true

/-- Reads digits, with a plus sign before them or not. -/
def number? (text : String) : Option Nat :=
  let digits :=
    match text.toList with
    | '+' :: digits => digits
    | digits => digits
  if !digits.isEmpty && digits.all Char.isDigit then some (Nat.ofDigitChars 10 digits 0) else none

def Values.value? (text : String) : Values → Option Value
  | texts => some (.text text)
  | numbers least greatest =>
    match number? text with
    | some n => if least ≤ n ∧ n ≤ greatest then some (.number n) else none
    | none => none

/-- What the arguments start with: an option with the text of its value, before the
rest of them. -/
inductive Next where
  | nothing
  | stop (stop : Stop)
  | option (declaration : Declaration) (text : String) (rest : List String)

def Next.ofArguments : List String → Next
  | [] => nothing
  | argument :: arguments =>
    match Argument.ofString argument with
    | .refused cause => stop (.misuse cause)
    | .terminator => if arguments.isEmpty then nothing else stop (.misuse .unknownArgument)
    | .help => stop .help
    | .version => stop .version
    | .option declaration (some text) => option declaration text arguments
    | .option declaration none =>
      match arguments with
      | [] => stop (.misuse .missingValue)
      | text :: rest =>
        if declaration.takes text then
          match Argument.fault? rest with
          | some cause => stop (.misuse cause)
          | none => option declaration text rest
        else stop (.misuse ((Argument.fault? arguments).getD .missingValue))

theorem Next.length_rest_lt {arguments rest : List String} {declaration : Declaration}
    {text : String} (hnext : ofArguments arguments = option declaration text rest) :
    rest.length < arguments.length := by
  fun_cases ofArguments arguments with
  | case7 argument arguments _ _ hargument =>
      simp only [ofArguments, hargument, option.injEq] at hnext
      rw [hnext.2.2, List.length_cons]
      omega
  | case10 argument _ hargument first arguments htakes hfault =>
      simp only [ofArguments, hargument, htakes, hfault, if_true, option.injEq] at hnext
      rw [hnext.2.2, List.length_cons, List.length_cons]
      omega
  | _ => simp_all [ofArguments]

namespace Reader

/-- The value that a text stands for, if the option can be given after the others that
were seen. -/
def check (seen : List Declaration) (declaration : Declaration) (text : String) :
    Except Stop Value :=
  if declaration.repeats = false ∧ declaration ∈ seen then .error (.misuse .repeatedCapacity)
  else
    match declaration.values.value? text with
    | some value => .ok value
    | none => .error (.misuse .invalidCapacity)

def read (seen : List Declaration) (arguments : List String) :
    Except Stop (List Occurrence) :=
  match hnext : Next.ofArguments arguments with
  | .nothing => .ok []
  | .stop stop => .error stop
  | .option declaration text rest =>
    have _ := Next.length_rest_lt hnext
    match check seen declaration text with
    | .error stop => .error stop
    | .ok value => (read (declaration :: seen) rest).map (⟨declaration, value⟩ :: ·)
termination_by arguments.length

def leftToRight : Reader :=
  read []

end Reader

def parse (arguments : List String) (reader : Reader := .leftToRight) : Except Stop Arguments :=
  (reader arguments).map Arguments.ofOccurrences

end InfixCalculator.CommandLine
