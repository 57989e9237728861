import InfixCalculator.Batch
import InfixCalculator.CommandLine.Reader
import InfixCalculator.Journal.Calculation
import InfixCalculator.Journal.Filter

/-!
# The program

What a run of the program prints and which code it exits with.  With expressions
on the command line it evaluates them as a batch; without any it opens its
window.  The journal goes to the errors, each record before what follows from
it.
-/

namespace InfixCalculator.CommandLine

/-- What a run depends on besides its arguments. -/
structure Environment where
  reader : Reader := .leftToRight
  filter : Journal.Filter := .errors
  outputOpen : Bool := true

structure Report where
  code : Nat
  output : String := ""
  errors : String := ""
deriving DecidableEq, Repr

/-- A run ends by itself, or opens a window with a history of some capacity after
it has written the journal to the errors. -/
inductive Run where
  | exit (report : Report)
  | window (capacity : Nat) (errors : String)
deriving DecidableEq, Repr

def helpText : String :=
  "Calculatrice RPN : infixe -> postfixe -> f64\n" ++
  "\n" ++
  "Usage: calculatrice_rpn [OPTIONS]\n" ++
  "\n" ++
  "Options:\n" ++
  "  -e, --eval <EXPR>\n" ++
  "          Évalue EXPR sans interface graphique (répétable)\n" ++
  "      --historique-max <HISTORIQUE_MAX>\n" ++
  "          Nombre maximal de lignes gardées dans l’historique de la vue [default: 50]\n" ++
  "  -h, --help\n" ++
  "          Print help\n" ++
  "  -V, --version\n" ++
  "          Print version\n"

def versionText : String := "calculatrice_rpn 0.1.0\n"

/-- The reason given when the output is closed. -/
def closedOutput : String := "Broken pipe (os error 32)"

def writeFailed (reason : String) : Journal.Record :=
  ⟨.error, .main, "écriture impossible: " ++ reason⟩

def windowOpened (capacity : Nat) : Journal.Record :=
  ⟨.info, .main, "interface graphique (historique: " ++ capacity.repr ++ ")"⟩

/-- The code after a batch, which succeeds when every expression has a value and every
line was written. -/
def exitCode : Batch.Outcome → Nat
  | .completed true => 0
  | _ => 1

namespace Environment

/-- The output of a run; a closed one takes nothing. -/
def output (environment : Environment) : Batch.Sink :=
  { limit := if environment.outputOpen then none else some 0 }

/-- A text on the output, without complaint when that is closed. -/
def printed (environment : Environment) (text : String) : String :=
  if environment.outputOpen then text else ""

/-- What one expression of a batch leaves on the errors: its records, and its line
if it is refused. -/
def errorsOf (environment : Environment) (expression : String) : String :=
  environment.filter.lines (Journal.ofAttempt .batch expression) ++
    match evaluate expression with
    | .ok _ => ""
    | .error refusal => Batch.refusalLine expression refusal

/-- A batch run from the command line. -/
def batch (environment : Environment) (expressions : List String) : Report :=
  let (streams, outcome) := Batch.run { output := environment.output } expressions
  let output := (String.fromUTF8? ⟨streams.output.written.toArray⟩).getD ""
  let errors :=
    match outcome with
    | .completed _ => .join (expressions.map environment.errorsOf)
    | .interrupted index =>
      let begun := (expressions.take (index + 1)).map environment.errorsOf
      .join begun ++ environment.filter.lines [writeFailed closedOutput]
  ⟨exitCode outcome, output, errors⟩

def run (environment : Environment) (arguments : List String) : Run :=
  match parse arguments environment.reader with
  | .error .help => .exit { code := 0, output := environment.printed helpText }
  | .error .version => .exit { code := 0, output := environment.printed versionText }
  | .error (.misuse cause) => .exit { code := 2, errors := "error: " ++ cause.message ++ "\n" }
  | .ok ⟨[], historyMax⟩ =>
    let capacity := (History.empty historyMax).capacity
    .window capacity (environment.filter.lines [windowOpened capacity])
  | .ok ⟨expressions, _⟩ => .exit (environment.batch expressions)

end Environment

/-- What a run leaves where no window can be opened. -/
def Run.withoutDisplay : Run → Report
  | exit report => report
  | window _ errors => { code := 1, errors }

end InfixCalculator.CommandLine
