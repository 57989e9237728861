import InfixCalculator.CommandLine.Program
import InfixCalculator.Proofs.Agreement

/-!
# Batches into sinks with limits

Every expression of a batch has one line, for the output or for the errors.  When the
lines of each stream fit its limit, the batch writes them all.  Otherwise it stops at
the first line that does not fit, of which the stream still takes what it has room
for; the other stream has the lines of the expressions before.

The limits are two budgets that are spent in turns.  What is written so far is always
the lines of the expressions behind, so a batch can be cut after any of them.
-/

namespace InfixCalculator.Batch

/-! ## Lines and streams -/

inductive Channel where
  | output
  | errors
deriving DecidableEq, Repr

/-- The stream that the line of an expression goes to. -/
def Channel.of (expression : String) : Channel :=
  if isAccepted expression then output else errors

/-- The line that an expression should have. -/
def lineText (expression : String) : String :=
  match evaluate expression with
  | .ok value => expression ++ " = " ++ Decimal.Style.result.render value ++ "\n"
  | .error refusal => expression ++ " = erreur: " ++ refusal.message ++ "\n"

def bytes (text : String) : List UInt8 :=
  text.toUTF8.data.toList

def line (expression : String) : List UInt8 :=
  bytes (lineText expression)

/-- What the expressions write to a stream if nothing stops them. -/
def linesOn (channel : Channel) (expressions : List String) : List UInt8 :=
  (expressions.filter (Channel.of · = channel)).flatMap line

theorem linesOn_append (channel : Channel) (first second : List String) :
    linesOn channel (first ++ second) = linesOn channel first ++ linesOn channel second := by
  rw [linesOn, List.filter_append, List.flatMap_append, linesOn, linesOn]

theorem linesOn_of (expression : String) :
    linesOn (.of expression) [expression] = line expression := by
  simp [linesOn]

theorem linesOn_of_ne {channel : Channel} {expression : String}
    (hne : channel ≠ .of expression) : linesOn channel [expression] = [] := by
  simp [linesOn, hne.symm]

namespace Streams

def sink (streams : Streams) : Channel → Sink
  | .output => streams.output
  | .errors => streams.errors

def extend (streams : Streams) (bytes : Channel → List UInt8) : Streams where
  output := { streams.output with written := streams.output.written ++ bytes .output }
  errors := { streams.errors with written := streams.errors.written ++ bytes .errors }

def after (streams : Streams) (expressions : List String) : Streams :=
  streams.extend fun channel => linesOn channel expressions

theorem limit_sink_extend (streams : Streams) (bytes : Channel → List UInt8) (channel : Channel) :
    ((streams.extend bytes).sink channel).limit = (streams.sink channel).limit := by
  cases channel <;> rfl

theorem written_sink_extend (streams : Streams) (bytes : Channel → List UInt8)
    (channel : Channel) :
    ((streams.extend bytes).sink channel).written =
      (streams.sink channel).written ++ bytes channel := by
  cases channel <;> rfl

theorem after_nil (streams : Streams) : streams.after [] = streams := by
  simp [after, extend, linesOn]

theorem after_after (streams : Streams) (first second : List String) :
    (streams.after first).after second = streams.after (first ++ second) := by
  simp [after, extend, linesOn_append]

/-- Each stream has room for the lines of the expressions that go to it. -/
def Take (streams : Streams) (expressions : List String) : Prop :=
  ∀ channel limit, (streams.sink channel).limit = some limit →
    (streams.sink channel).written.length + (linesOn channel expressions).length ≤ limit

theorem take_after_iff {streams : Streams} {first second : List String} :
    (streams.after first).Take second ↔ streams.Take (first ++ second) := by
  simp only [Take, after, limit_sink_extend, written_sink_extend, linesOn_append,
    List.length_append, Nat.add_assoc]

theorem Take.of_append {streams : Streams} {first second : List String}
    (htake : streams.Take (first ++ second)) : streams.Take first := by
  intro channel limit hlimit
  have hall := htake channel limit hlimit
  rw [linesOn_append, List.length_append] at hall
  omega

end Streams

/-! ## One line -/

theorem Sink.write_of_room {sink : Sink} {text : String}
    (hroom : ∀ limit, sink.limit = some limit →
      sink.written.length + (bytes text).length ≤ limit) :
    sink.write text = (sink.append text, true) := by
  cases hlimit : sink.limit with
  | none => exact write_of_limit_eq_none hlimit text
  | some limit =>
      have hfits : (bytes text).length ≤ limit - sink.written.length := by
        have hlength := hroom limit hlimit
        omega
      simp only [write, hlimit, append]
      rw [← bytes, List.take_of_length_le hfits, decide_eq_true hfits]

/-- A text that does not fit fills the sink to its limit. -/
theorem Sink.write_of_full {sink : Sink} {text : String} {limit : Nat}
    (hlimit : sink.limit = some limit) (hwithin : sink.written.length ≤ limit)
    (hfull : limit < sink.written.length + (bytes text).length) :
    ∃ part, part <+: bytes text ∧ sink.written.length + part.length = limit ∧
      sink.write text = ({ sink with written := sink.written ++ part }, false) := by
  have hlong : ¬(bytes text).length ≤ limit - sink.written.length := by omega
  refine ⟨(bytes text).take (limit - sink.written.length), List.take_prefix _ _, ?_, ?_⟩
  · rw [List.length_take]
    omega
  · simp only [write, hlimit]
    rw [← bytes, decide_eq_false hlong]

namespace Streams

def put (streams : Streams) : Channel → Sink → Streams
  | .output, output => { streams with output }
  | .errors, errors => { streams with errors }

theorem put_eq_extend (streams : Streams) (channel : Channel) (part : List UInt8) :
    streams.put channel
        { streams.sink channel with written := (streams.sink channel).written ++ part } =
      streams.extend fun other => if other = channel then part else [] := by
  cases channel <;> simp [put, extend, sink]

theorem report_eq (streams : Streams) (expression : String) :
    streams.report expression =
      (streams.put (.of expression)
          ((streams.sink (.of expression)).write (lineText expression)).1,
        ((streams.sink (.of expression)).write (lineText expression)).2) := by
  unfold report Channel.of isAccepted lineText
  cases evaluate expression <;> rfl

theorem report_of_take {streams : Streams} {expression : String}
    (htake : streams.Take [expression]) :
    streams.report expression = (streams.after [expression], true) := by
  have hroom := htake (.of expression)
  rw [linesOn_of] at hroom
  have hlines : (fun other => if other = .of expression then line expression else []) =
      fun channel => linesOn channel [expression] := by
    funext channel
    split
    next heq => rw [heq, linesOn_of]
    next hne => rw [linesOn_of_ne hne]
  rw [report_eq, Sink.write_of_room hroom, after, ← hlines]
  exact congrArg (·, true) (streams.put_eq_extend _ _)

/-- A line that does not fit on its stream. -/
structure Overflow (streams : Streams) (expression : String) (limit : Nat) : Prop where
  limit_eq : (streams.sink (.of expression)).limit = some limit
  within : (streams.sink (.of expression)).written.length ≤ limit
  full : limit < (streams.sink (.of expression)).written.length + (line expression).length

theorem exists_overflow {streams : Streams} {expression : String} (hwithin : streams.Take [])
    (htake : ¬streams.Take [expression]) : ∃ limit, streams.Overflow expression limit := by
  simp only [Take, not_forall, Nat.not_le] at htake
  obtain ⟨channel, limit, hlimit, hfull⟩ := htake
  have hroom : (streams.sink channel).written.length ≤ limit := hwithin channel limit hlimit
  by_cases heq : channel = .of expression
  · subst heq
    rw [linesOn_of] at hfull
    exact ⟨limit, hlimit, hroom, hfull⟩
  · rw [linesOn_of_ne heq, List.length_nil] at hfull
    omega

theorem Overflow.exists_report_eq {streams : Streams} {expression : String} {limit : Nat}
    (hoverflow : streams.Overflow expression limit) :
    ∃ part, part <+: line expression ∧
      (streams.sink (.of expression)).written.length + part.length = limit ∧
      streams.report expression =
        (streams.extend fun channel => if channel = .of expression then part else [], false) := by
  obtain ⟨part, hpart, hlength, hwrite⟩ :=
    Sink.write_of_full hoverflow.limit_eq hoverflow.within hoverflow.full
  refine ⟨part, hpart, hlength, ?_⟩
  rw [report_eq, hwrite]
  exact congrArg (·, false) (streams.put_eq_extend _ _)

end Streams

/-! ## Runs -/

theorem foldr_after_completed (expressions : List String) :
    expressions.foldr Outcome.after (.completed true) =
      .completed (expressions.all isAccepted) := by
  induction expressions with
  | nil => rfl
  | cons expression expressions ih => rw [List.foldr_cons, ih, List.all_cons, Outcome.after]

theorem foldr_after_interrupted (expressions : List String) :
    expressions.foldr Outcome.after (.interrupted 0) = .interrupted expressions.length := by
  induction expressions with
  | nil => rfl
  | cons expression expressions ih => rw [List.foldr_cons, ih, List.length_cons, Outcome.after]

/-- A batch can be cut after any expressions whose lines fit. -/
theorem run_append {streams : Streams} {first : List String} (htake : streams.Take first)
    (second : List String) :
    run streams (first ++ second) =
      let rest := run (streams.after first) second
      (rest.1, first.foldr Outcome.after rest.2) := by
  induction first generalizing streams with
  | nil => rw [streams.after_nil]; rfl
  | cons expression first ih =>
      rw [← List.singleton_append] at htake
      have hstep := Streams.report_of_take htake.of_append
      have hrest := ih (Streams.take_after_iff.mpr htake)
      rw [Streams.after_after, List.singleton_append] at hrest
      simp only [List.cons_append, run, hstep, hrest, List.foldr_cons]

theorem run_of_take {streams : Streams} {expressions : List String}
    (htake : streams.Take expressions) :
    run streams expressions =
      (streams.after expressions, .completed (expressions.all isAccepted)) := by
  have hrun := run_append htake []
  rw [List.append_nil] at hrun
  rw [hrun, ← foldr_after_completed]
  rfl

theorem run_of_report_eq {streams stopped : Streams} {first : List String} {expression : String}
    (htake : streams.Take first)
    (hreport : (streams.after first).report expression = (stopped, false))
    (others : List String) :
    run streams (first ++ expression :: others) = (stopped, .interrupted first.length) := by
  rw [run_append htake, run, hreport, ← foldr_after_interrupted]

theorem exists_first_not_take {streams : Streams} (hwithin : streams.Take [])
    {expressions : List String} (htake : ¬streams.Take expressions) :
    ∃ first expression others, expressions = first ++ expression :: others ∧
      streams.Take first ∧ ¬streams.Take (first ++ [expression]) := by
  induction expressions using List.reverseRecOn with
  | nil => exact absurd hwithin htake
  | append_singleton expressions last ih =>
      by_cases hinit : streams.Take expressions
      · exact ⟨expressions, last, [], rfl, hinit, htake⟩
      · obtain ⟨first, expression, others, rfl, hfirst, hover⟩ := ih hinit
        exact ⟨first, expression, others ++ [last], by simp, hfirst, hover⟩

/-! ## Limits -/

/-- Streams with limits that nothing was written to yet. -/
def Streams.limited (limits : Channel → Option Nat) : Streams where
  output := { limit := limits .output }
  errors := { limit := limits .errors }

/-- On no stream do the lines of the expressions together exceed its limit. -/
def Fit (limits : Channel → Option Nat) (expressions : List String) : Prop :=
  ∀ channel limit, limits channel = some limit → (linesOn channel expressions).length ≤ limit

/-- A batch that wrote every line. -/
structure Completes (expressions : List String) (streams : Streams) (outcome : Outcome) :
    Prop where
  accepted : ∃ accepted, outcome = .completed accepted ∧
    (accepted = true ↔ ∀ expression ∈ expressions, ∃ value, evaluate expression = .ok value)
  written : ∀ channel, (streams.sink channel).written = linesOn channel expressions

/-- A batch that was stopped by the line of an expression after the `first` ones. -/
structure StopsAt (limits : Channel → Option Nat) (first : List String) (expression : String)
    (streams : Streams) (outcome : Outcome) : Prop where
  interrupted : outcome = .interrupted first.length
  part_written : ∃ limit part, limits (.of expression) = some limit ∧ part <+: line expression ∧
    (streams.sink (.of expression)).written = linesOn (.of expression) first ++ part ∧
    (streams.sink (.of expression)).written.length = limit
  written : ∀ channel, channel ≠ .of expression →
    (streams.sink channel).written = linesOn channel first

theorem Streams.written_sink_limited (limits : Channel → Option Nat) (channel : Channel) :
    ((limited limits).sink channel).written = [] := by
  cases channel <;> rfl

theorem Streams.limit_sink_limited (limits : Channel → Option Nat) (channel : Channel) :
    ((limited limits).sink channel).limit = limits channel := by
  cases channel <;> rfl

theorem Streams.take_limited_iff {limits : Channel → Option Nat} {expressions : List String} :
    (limited limits).Take expressions ↔ Fit limits expressions := by
  simp [Take, Fit, written_sink_limited, limit_sink_limited]

theorem isAccepted_iff {expression : String} :
    isAccepted expression = true ↔ ∃ value, evaluate expression = .ok value := by
  unfold isAccepted
  cases evaluate expression <;> simp [Except.isOk, Except.toBool]

theorem completes_of_fit {limits : Channel → Option Nat} {expressions : List String}
    (hfit : Fit limits expressions) :
    Completes expressions (run (.limited limits) expressions).1
      (run (.limited limits) expressions).2 := by
  rw [run_of_take (Streams.take_limited_iff.mpr hfit)]
  constructor
  · refine ⟨_, rfl, ?_⟩
    simp [List.all_eq_true, isAccepted_iff]
  · intro channel
    rw [Streams.after, Streams.written_sink_extend, Streams.written_sink_limited,
      List.nil_append]

theorem exists_stopsAt_of_not_fit {limits : Channel → Option Nat} {expressions : List String}
    (hfit : ¬Fit limits expressions) :
    ∃ first expression others, expressions = first ++ expression :: others ∧
      Fit limits first ∧ ¬Fit limits (first ++ [expression]) ∧
      ∃ streams outcome, StopsAt limits first expression streams outcome ∧
        ∀ others, run (.limited limits) (first ++ expression :: others) = (streams, outcome) := by
  have hwithin : (Streams.limited limits).Take [] := by
    simp [Streams.take_limited_iff, Fit, linesOn]
  rw [← Streams.take_limited_iff] at hfit
  obtain ⟨first, expression, others, hsplit, hfirst, hover⟩ := exists_first_not_take hwithin hfit
  have hroom : ((Streams.limited limits).after first).Take [] := by
    rwa [Streams.take_after_iff, List.append_nil]
  rw [← Streams.take_after_iff] at hover
  obtain ⟨limit, hoverflow⟩ := Streams.exists_overflow hroom hover
  obtain ⟨part, hpart, hlength, hreport⟩ := hoverflow.exists_report_eq
  have hbefore (channel : Channel) :
      (((Streams.limited limits).after first).sink channel).written = linesOn channel first := by
    rw [Streams.after, Streams.written_sink_extend, Streams.written_sink_limited,
      List.nil_append]
  have hlimit : limits (.of expression) = some limit := by
    have hkept := hoverflow.limit_eq
    rwa [Streams.after, Streams.limit_sink_extend, Streams.limit_sink_limited] at hkept
  refine ⟨first, expression, others, hsplit, Streams.take_limited_iff.mp hfirst, ?_, _, _, ?_,
    run_of_report_eq hfirst hreport⟩
  · rwa [← Streams.take_limited_iff, ← Streams.take_after_iff]
  · refine ⟨rfl, ⟨limit, part, hlimit, hpart, ?_, ?_⟩, ?_⟩
    · rw [Streams.written_sink_extend, hbefore, if_pos rfl]
    · rw [Streams.written_sink_extend, if_pos rfl, List.length_append, hlength]
    · intro channel hne
      rw [Streams.written_sink_extend, hbefore, if_neg hne, List.append_nil]

end InfixCalculator.Batch

namespace InfixCalculator.CommandLine

theorem Environment.run_of_parse_eq_ok {arguments expressions : List String} {historyMax : Nat}
    {environment : Environment}
    (hparse : parse arguments environment.reader = .ok ⟨expressions, historyMax⟩)
    (hne : expressions ≠ []) :
    environment.run arguments = .exit (environment.batch expressions) := by
  unfold run
  rw [hparse]
  cases expressions with
  | nil => exact absurd rfl hne
  | cons expression expressions => rfl

end InfixCalculator.CommandLine

namespace InfixCalculator

open Batch CommandLine in
/-- A batch completes when the lines fit the limits of the streams, and stops at the
first line that does not fit, whatever comes after it.  The program exits with `0`
exactly when its batch completes with a value for every expression. -/
theorem batch_fills_limits (limits : Channel → Option Nat) (expressions : List String) :
    let ended := run (.limited limits) expressions
    (Fit limits expressions → Completes expressions ended.1 ended.2) ∧
      (¬Fit limits expressions →
        ∃ first expression others, expressions = first ++ expression :: others ∧
          Fit limits first ∧ ¬Fit limits (first ++ [expression]) ∧
          StopsAt limits first expression ended.1 ended.2 ∧
          ∀ others, run (.limited limits) (first ++ expression :: others) = ended) ∧
      exitCode ended.2 = (if ended.2 = .completed true then 0 else 1) ∧
      ∀ (environment : Environment) arguments historyMax,
        parse arguments environment.reader = .ok ⟨expressions, historyMax⟩ → expressions ≠ [] →
          ∃ report, environment.run arguments = .exit report ∧
            report.code = exitCode (run { output := environment.output } expressions).2 := by
  intro ended
  refine ⟨completes_of_fit, ?_, ?_, ?_⟩
  · intro hfit
    obtain ⟨first, expression, others, rfl, hfirst, hover, streams, outcome, hstops, hrun⟩ :=
      exists_stopsAt_of_not_fit hfit
    have hended : ended = (streams, outcome) := hrun others
    rw [hended]
    exact ⟨first, expression, others, rfl, hfirst, hover, hstops, hrun⟩
  · cases ended.2 with
    | completed accepted => cases accepted <;> rfl
    | interrupted index => rfl
  · intro environment arguments historyMax hparse hne
    exact ⟨_, Environment.run_of_parse_eq_ok hparse hne, rfl⟩

end InfixCalculator
