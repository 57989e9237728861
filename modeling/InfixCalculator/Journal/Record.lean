import InfixCalculator.Text.Control

/-!
# Records of the journal

The calculator keeps a journal of what it does.  A record has a level, the part
of the program that it comes from, and a message.
-/

namespace InfixCalculator.Journal

/-- The levels, from the most serious one to the most detailed one. -/
inductive Level where
  | error
  | warn
  | info
  | debug
  | trace
deriving DecidableEq, Repr

namespace Level

def all : List Level := [error, warn, info, debug, trace]

/-- The number of levels at least as serious. -/
def verbosity : Level → Nat
  | error => 1
  | warn => 2
  | info => 3
  | debug => 4
  | trace => 5

def label : Level → String
  | error => "ERROR"
  | warn => "WARN"
  | info => "INFO"
  | debug => "DEBUG"
  | trace => "TRACE"

def column (level : Level) : String :=
  level.label ++ .ofList (List.replicate (5 - level.label.length) ' ')

end Level

inductive Source where
  | tokens
  | conversion
  | evaluation
  | calculation
  | batch
  | window
  | main
deriving DecidableEq, Repr

/-- The path of a part below the program; the main part has none. -/
def Source.path : Source → String
  | tokens => "noyau::jetons"
  | conversion => "noyau::postfixe"
  | evaluation => "noyau::evaluation"
  | calculation => "noyau::eval"
  | batch => "cli"
  | window => "app::vue"
  | main => ""

def programName : String := "calculatrice_rpn"

/-- The full path of a part, by which filters select records. -/
def Source.target (source : Source) : String :=
  if source.path = "" then programName else programName ++ "::" ++ source.path

structure Record where
  level : Level
  source : Source
  message : String
deriving DecidableEq, Repr

/-- The line written for a record, without anything that a terminal would obey. -/
def Record.line (record : Record) : String :=
  let header := "[" ++ record.level.column ++ " " ++ record.source.target ++ "] "
  Text.withoutControls (header ++ record.message ++ "\n")

end InfixCalculator.Journal
