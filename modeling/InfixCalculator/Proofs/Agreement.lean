import InfixCalculator.Batch
import InfixCalculator.Proofs.Cut
import InfixCalculator.Proofs.Replay

/-!
# The window agrees with the batch

The window evaluates its entry without the outer blanks, a batch the expression as
it stands.  Outer blanks have no effect on the tokens, so both have the same
outcome, and the window shows what the batch writes after the expression.
-/

namespace InfixCalculator

theorem evaluate_trim (text : String) : evaluate (Text.trim text) = evaluate text := by
  rw [evaluate, Token.tokenize_trim, evaluate]

theorem Refusal.message_ne_empty (refusal : Refusal) : refusal.message ≠ "" := by
  have hquoted (first middle last : String) (hlast : last ≠ "") :
      first ++ middle ++ last ≠ "" := by
    simp [hlast]
  cases refusal with
  | unbalancedParentheses => decide
  | insufficientOperands op => exact hquoted _ _ _ (by decide)
  | unknownSymbol text => exact hquoted _ _ _ (by decide)
  | invalidExpression remaining => exact hquoted _ _ _ (by decide)
  | integerDivisionByZero => decide

theorem Text.trim_ne_empty {text : String} (htext : ∃ c ∈ text.toList, isBlank c = false) :
    trim text ≠ "" := by
  obtain ⟨c, hc, hblank⟩ := htext
  intro hempty
  have hnil : dropEndWhile isBlank (text.toList.dropWhile isBlank) = [] := by
    simpa [trim] using congrArg String.toList hempty
  have hrest : ∀ d ∈ text.toList.dropWhile isBlank, isBlank d = true :=
    List.rdropWhile_eq_nil_iff.mp hnil
  have hall : ∀ d ∈ text.toList, isBlank d = true := by
    intro d hd
    rw [← List.takeWhile_append_dropWhile (p := isBlank) (l := text.toList)] at hd
    rcases List.mem_append.mp hd with hlead | hkept
    · exact List.mem_takeWhile_imp hlead
    · exact hrest d hkept
  rw [hall c hc] at hblank
  cases hblank

/-! ## What the window shows -/

theorem Session.evaluate_shows_outcome {session : Session}
    (hne : Text.trim session.entry ≠ "") :
    (∃ value, InfixCalculator.evaluate session.entry = .ok value ∧
        session.evaluate.error = "" ∧
        session.evaluate.result = Decimal.Style.result.render value) ∨
      ∃ refusal, InfixCalculator.evaluate session.entry = .error refusal ∧
        session.evaluate.error = refusal.message := by
  have hreports := session.reports_attempt (Text.trim session.entry)
  rw [← evaluate_of_ne_blank hne] at hreports
  have htruthful := Entry.truthful_ofInput hne (Text.trim_trim session.entry)
  have houtcome := htruthful.outcome_eq
  rw [Entry.expression_ofInput, evaluate_trim] at houtcome
  rcases houtcome with ⟨haccepted, value, hvalue, htext⟩ | ⟨hrefused, refusal, hrefusal, htext⟩
  · obtain ⟨hresult, herror⟩ := hreports.accepted haccepted
    exact Or.inl ⟨value, hvalue, herror, hresult.trans htext⟩
  · obtain ⟨herror, -⟩ := hreports.refused hrefused
    exact Or.inr ⟨refusal, hrefusal, herror.trans htext⟩

/-! ## What a batch of one expression writes -/

namespace Batch

def Sink.append (sink : Sink) (text : String) : Sink :=
  { sink with written := sink.written ++ text.toUTF8.data.toList }

def Streams.append (streams : Streams) (output errors : String) : Streams :=
  ⟨streams.output.append output, streams.errors.append errors⟩

/-- Neither sink has a limit, so no write fails. -/
structure Streams.Unlimited (streams : Streams) : Prop where
  output : streams.output.limit = none
  errors : streams.errors.limit = none

theorem Sink.write_of_limit_eq_none {sink : Sink} (hlimit : sink.limit = none) (text : String) :
    sink.write text = (sink.append text, true) := by
  simp only [write, hlimit, append]

theorem Sink.append_empty (sink : Sink) : sink.append "" = sink := by
  simp [append]

theorem Sink.append_inj {sink : Sink} {first second : String} :
    sink.append first = sink.append second ↔ first = second := by
  constructor
  · intro happend
    have hwritten := congrArg written happend
    have hbytes := List.append_cancel_left hwritten
    exact String.toByteArray_inj.mp (ByteArray.ext (Array.toList_inj.mp hbytes))
  · rintro rfl
    rfl

theorem Streams.append_inj {streams : Streams} {output output' errors errors' : String} :
    streams.append output errors = streams.append output' errors' ↔
      output = output' ∧ errors = errors' := by
  rw [append, append, Streams.mk.injEq, Sink.append_inj, Sink.append_inj]

theorem run_singleton_of_eq_ok {streams : Streams} (hstreams : streams.Unlimited)
    {expression : String} {value : Float} (hvalue : evaluate expression = .ok value) :
    run streams [expression] =
      (streams.append (valueLine expression value) "", .completed true) := by
  simp [run, Streams.report, hvalue, Sink.write_of_limit_eq_none hstreams.output, Streams.append,
    Sink.append_empty, Outcome.after, isAccepted, Except.isOk, Except.toBool]

theorem run_singleton_of_eq_error {streams : Streams} (hstreams : streams.Unlimited)
    {expression : String} {refusal : Refusal} (hrefusal : evaluate expression = .error refusal) :
    run streams [expression] =
      (streams.append "" (refusalLine expression refusal), .completed false) := by
  simp [run, Streams.report, hrefusal, Sink.write_of_limit_eq_none hstreams.errors,
    Streams.append, Sink.append_empty, Outcome.after, isAccepted, Except.isOk, Except.toBool]

theorem valueLine_eq_iff {expression text : String} {value : Float} :
    valueLine expression value = expression ++ " = " ++ text ++ "\n" ↔
      Decimal.Style.result.render value = text := by
  rw [valueLine, String.append_left_inj, String.append_right_inj]

theorem refusalLine_eq_iff {expression message : String} {refusal : Refusal} :
    refusalLine expression refusal = expression ++ " = erreur: " ++ message ++ "\n" ↔
      refusal.message = message := by
  rw [refusalLine, String.append_left_inj, String.append_right_inj]

end Batch

/-! ## The two agree -/

open Batch in
/-- An entry that is not blank has the same outcome in the window and in a batch, with
the same text for it. -/
theorem window_agrees_with_batch {session : Session} {streams : Streams}
    (hentry : ∃ c ∈ session.entry.toList, Text.isBlank c = false)
    (hstreams : streams.Unlimited) :
    (∀ text,
      run streams [session.entry] =
          (streams.append (session.entry ++ " = " ++ text ++ "\n") "", .completed true) ↔
        session.evaluate.error = "" ∧ session.evaluate.result = text) ∧
    ∀ message,
      run streams [session.entry] =
          (streams.append "" (session.entry ++ " = erreur: " ++ message ++ "\n"),
            .completed false) ↔
        session.evaluate.error = message ∧ message ≠ "" := by
  have hne := Text.trim_ne_empty hentry
  rcases session.evaluate_shows_outcome hne with
    ⟨value, hvalue, herror, hresult⟩ | ⟨refusal, hrefusal, herror⟩
  · rw [run_singleton_of_eq_ok hstreams hvalue, herror, hresult]
    constructor
    · intro text
      simp [Streams.append_inj, valueLine_eq_iff]
    · intro message
      simp [eq_comm]
  · have hmessage := refusal.message_ne_empty
    rw [run_singleton_of_eq_error hstreams hrefusal, herror]
    constructor
    · intro text
      simp [hmessage]
    · intro message
      simp only [Prod.mk.injEq, Streams.append_inj, refusalLine_eq_iff, true_and, and_true]
      constructor
      · rintro rfl
        exact ⟨rfl, hmessage⟩
      · exact And.left

open Batch in
theorem window_agrees_with_batch_outer_blanks :
    let session : Session := { entry := " -1\u00a0", history := .empty 1 }
    (∃ c ∈ session.entry.toList, Text.isBlank c = false) ∧ Streams.Unlimited {} ∧
      (∀ text,
        run {} [session.entry] =
            (Streams.append {} (session.entry ++ " = " ++ text ++ "\n") "", .completed true) ↔
          session.evaluate.error = "" ∧ session.evaluate.result = text) ∧
      ∀ message,
        run {} [session.entry] =
            (Streams.append {} "" (session.entry ++ " = erreur: " ++ message ++ "\n"),
              .completed false) ↔
          session.evaluate.error = message ∧ message ≠ "" := by
  intro session
  have hentry : ∃ c ∈ session.entry.toList, Text.isBlank c = false :=
    ⟨'1', by simp [session], by decide⟩
  have hstreams : Streams.Unlimited {} := ⟨rfl, rfl⟩
  exact ⟨hentry, hstreams, window_agrees_with_batch hentry hstreams⟩

end InfixCalculator
