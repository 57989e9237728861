import InfixCalculator.Calculation

/-!
# Batches

A batch evaluates expressions in order and writes a line for each: its value to
the output, or its refusal to the errors.  A sink may have a limit; it takes
bytes up to its limit and fails on the next one, and the batch stops there.
-/

namespace InfixCalculator.Batch

/-- A place to write to, with the bytes that it took so far. -/
structure Sink where
  limit : Option Nat := none
  written : List UInt8 := []
deriving DecidableEq, Repr

/-- The sink after an attempt to write a text, and whether all of it fitted. -/
def Sink.write (sink : Sink) (text : String) : Sink × Bool :=
  let bytes := text.toUTF8.data.toList
  match sink.limit with
  | none => ({ sink with written := sink.written ++ bytes }, true)
  | some limit =>
    let room := limit - sink.written.length
    ({ sink with written := sink.written ++ bytes.take room }, decide (bytes.length ≤ room))

structure Streams where
  output : Sink := {}
  errors : Sink := {}
deriving DecidableEq, Repr

def valueLine (expression : String) (value : Float) : String :=
  expression ++ " = " ++ Decimal.Style.result.render value ++ "\n"

def refusalLine (expression : String) (refusal : Refusal) : String :=
  expression ++ " = erreur: " ++ refusal.message ++ "\n"

/-- The streams after the line of one expression, and whether the line fitted. -/
def Streams.report (streams : Streams) (expression : String) : Streams × Bool :=
  match evaluate expression with
  | .ok value =>
    let (output, fits) := streams.output.write (valueLine expression value)
    ({ streams with output }, fits)
  | .error refusal =>
    let (errors, fits) := streams.errors.write (refusalLine expression refusal)
    ({ streams with errors }, fits)

/-- How a batch ends: after its last expression, with whether all of them have a
value, or at the expression whose line did not fit. -/
inductive Outcome where
  | completed (accepted : Bool)
  | interrupted (index : Nat)
deriving DecidableEq, Repr

def isAccepted (expression : String) : Bool :=
  (evaluate expression).isOk

def Outcome.after (expression : String) : Outcome → Outcome
  | completed accepted => completed (isAccepted expression && accepted)
  | interrupted index => interrupted (index + 1)

def run (streams : Streams) : List String → Streams × Outcome
  | [] => (streams, .completed true)
  | expression :: expressions =>
    match streams.report expression with
    | (streams, false) => (streams, .interrupted 0)
    | (streams, true) =>
      let (streams, outcome) := run streams expressions
      (streams, outcome.after expression)

end InfixCalculator.Batch
