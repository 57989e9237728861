import InfixCalculator.Proofs.Prefix
import InfixCalculator.Rpn.Conversion

/-!
# Runs of the conversion

`Step` lists once what a token can do to the tokens that wait, and `Runs` chains
steps over a list of tokens.  Facts about the conversion are proved for a step
and follow for a run by induction.

Two of them are kept here.  A run loses and invents nothing but parentheses, and
a run above an opening parenthesis never looks below it.
-/

namespace InfixCalculator
namespace Rpn
namespace Pending

/-! ## Steps and runs -/

/-- A step of the conversion that is not refused: what was pending, the next
token, the tokens released by it, and what is pending then. -/
inductive Step : Pending → Token → List Token → Pending → Prop
  | number {stack : List Token} {afterValue : Bool} (value : Float) :
      Step ⟨stack, afterValue⟩ (.number value) [.number value] ⟨stack, true⟩
  | leftParen {stack : List Token} {afterValue : Bool} :
      Step ⟨stack, afterValue⟩ .leftParen [] ⟨.leftParen :: stack, false⟩
  | rightParen {waiting outer : List Token} {afterValue : Bool}
      (hwaiting : .leftParen ∉ waiting) :
      Step ⟨waiting ++ .leftParen :: outer, afterValue⟩ .rightParen waiting ⟨outer, true⟩
  | operator {released kept : List Token} (op : Operator)
      (hreleased : ∀ token ∈ released, yieldsTo op.precedence token = true)
      (hkept : ∀ token, kept.head? = some token → yieldsTo op.precedence token = false) :
      Step ⟨released ++ kept, true⟩ (.operator op) released ⟨.operator op :: kept, false⟩
  | unknown {released kept : List Token} {afterValue : Bool} (text : String)
      (hreleased : ∀ token ∈ released, yieldsTo 0 token = true)
      (hkept : ∀ token, kept.head? = some token → yieldsTo 0 token = false) :
      Step ⟨released ++ kept, afterValue⟩ (.unknown text) released ⟨.unknown text :: kept, true⟩

inductive Runs : Pending → List Token → List Token → Pending → Prop
  | nil {pending : Pending} : Runs pending [] [] pending
  | cons {pending next last : Pending} {token : Token} {tokens released output : List Token}
      (hstep : Step pending token released next) (hrest : Runs next tokens output last) :
      Runs pending (token :: tokens) (released ++ output) last

@[simp] theorem yieldsTo_leftParen (precedence : Nat) :
    yieldsTo precedence .leftParen = false := rfl

theorem leftParen_notMem_of_yieldsTo {released : List Token} {precedence : Nat}
    (hreleased : ∀ token ∈ released, yieldsTo precedence token = true) :
    .leftParen ∉ released := by
  intro hmem
  simpa using hreleased _ hmem

theorem wait_eq_iff {pending next : Pending} {token : Token} {afterValue : Bool}
    {released : List Token} :
    pending.wait token afterValue = (released, next) ↔
      ∃ kept, pending.stack = released ++ kept ∧
        (∀ waiting ∈ released, yieldsTo token.precedence waiting = true) ∧
        (∀ waiting, kept.head? = some waiting → yieldsTo token.precedence waiting = false) ∧
        next = ⟨token :: kept, afterValue⟩ := by
  constructor
  · intro hwait
    simp only [wait, Prod.mk.injEq] at hwait
    obtain ⟨hreleased, hnext⟩ := hwait
    have hsplit := takeWhile_dropWhile_iff.mp ⟨hreleased, rfl⟩
    exact ⟨_, hsplit.1, hsplit.2.1, hsplit.2.2, hnext.symm⟩
  · rintro ⟨kept, hstack, hreleased, hkept, rfl⟩
    obtain ⟨htake, hdrop⟩ := takeWhile_dropWhile_iff.mpr ⟨hstack, hreleased, hkept⟩
    simp [wait, htake, hdrop]

theorem step_eq_ok_iff {pending next : Pending} {token : Token} {released : List Token} :
    pending.step token = .ok (released, next) ↔ Step pending token released next := by
  obtain ⟨stack, afterValue⟩ := pending
  constructor
  · intro hstep
    cases token with
    | number value =>
        simp only [step, Except.ok.injEq, Prod.mk.injEq] at hstep
        obtain ⟨rfl, rfl⟩ := hstep
        exact .number value
    | leftParen =>
        simp only [step, Except.ok.injEq, Prod.mk.injEq] at hstep
        obtain ⟨rfl, rfl⟩ := hstep
        exact .leftParen
    | rightParen =>
        simp only [step] at hstep
        split at hstep
        next => simp at hstep
        next found outer hdrop =>
          simp only [Except.ok.injEq, Prod.mk.injEq] at hstep
          obtain ⟨rfl, rfl⟩ := hstep
          obtain ⟨hstack, hwaiting, hfound⟩ := takeWhile_dropWhile_iff.mp ⟨rfl, hdrop⟩
          have hleft : found = .leftParen := by
            simpa using hfound found rfl
          subst hleft
          have hnone : .leftParen ∉ stack.takeWhile (· != .leftParen) := by
            intro hmem
            simpa using hwaiting _ hmem
          have hnext :
              Step ⟨stack.takeWhile (· != .leftParen) ++ .leftParen :: outer, afterValue⟩
                .rightParen (stack.takeWhile (· != .leftParen)) ⟨outer, true⟩ :=
            .rightParen hnone
          rwa [← hstack] at hnext
    | operator op =>
        simp only [step] at hstep
        split at hstep
        next hflag =>
          have hflag : afterValue = true := hflag
          subst hflag
          obtain ⟨kept, rfl, hreleased, hkept, rfl⟩ := wait_eq_iff.mp (Except.ok.inj hstep)
          exact .operator op hreleased hkept
        next => simp at hstep
    | unknown text =>
        simp only [step] at hstep
        obtain ⟨kept, rfl, hreleased, hkept, rfl⟩ := wait_eq_iff.mp (Except.ok.inj hstep)
        exact .unknown text hreleased hkept
  · intro hstep
    cases hstep with
    | number value => rfl
    | leftParen => rfl
    | rightParen hwaiting =>
        have hrun : ∀ token ∈ released, (token != .leftParen) = true := by
          intro token hmem
          have hne : token ≠ .leftParen := by
            rintro rfl
            exact hwaiting hmem
          simpa using hne
        have hstop (outer : List Token) : ∀ token, (Token.leftParen :: outer).head? = some token →
            (token != .leftParen) = false := by
          simp
        simp only [step, takeWhile_append_of_boundary hrun (hstop _),
          dropWhile_append_of_boundary hrun (hstop _)]
    | operator op hreleased hkept =>
        simp only [step, if_true]
        rw [wait_eq_iff.mpr ⟨_, rfl, hreleased, hkept, rfl⟩]
    | unknown text hreleased hkept =>
        simp only [step]
        rw [wait_eq_iff.mpr ⟨_, rfl, hreleased, hkept, rfl⟩]

theorem step_eq_error_iff {pending : Pending} {token : Token} {refusal : Refusal} :
    pending.step token = .error refusal ↔
      (token = .rightParen ∧ .leftParen ∉ pending.stack ∧ refusal = .unbalancedParentheses) ∨
        ∃ op, token = .operator op ∧ pending.afterValue = false ∧
          refusal = .insufficientOperands op := by
  cases token with
  | number value => simp [step]
  | leftParen => simp [step]
  | unknown text => simp [step]
  | operator op => cases hafter : pending.afterValue <;> simp [step, hafter, eq_comm]
  | rightParen =>
      have hopen : pending.stack.dropWhile (· != .leftParen) = [] ↔ .leftParen ∉ pending.stack := by
        simp only [List.dropWhile_eq_nil_iff, bne_iff_ne]
        constructor
        · intro hall hmem
          exact hall .leftParen hmem rfl
        · rintro hnone token hmem rfl
          exact hnone hmem
      simp only [step]
      split
      next hnil =>
        have hnone := hopen.mp hnil
        simp [hnone, eq_comm (a := refusal)]
      next hcons =>
        have hmem : .leftParen ∈ pending.stack := by
          by_contra hnone
          rw [hopen.mpr hnone] at hcons
          cases hcons
        simp [hmem]

/-! ## A conversion is a run and its end -/

theorem convert_cons_of_step {pending next : Pending} {token : Token} {released : List Token}
    (hstep : Step pending token released next) (tokens : List Token) :
    pending.convert (token :: tokens) = (next.convert tokens).map (released ++ ·) := by
  rw [convert, step_eq_ok_iff.mpr hstep]
  cases hconvert : next.convert tokens with
  | error refusal => simp [bind, Except.bind, Except.map, hconvert]
  | ok output => simp [bind, Except.bind, Except.map, pure, Except.pure, hconvert]

theorem convert_append_of_runs {pending last : Pending} {tokens output : List Token}
    (hruns : Runs pending tokens output last) (after : List Token) :
    pending.convert (tokens ++ after) = (last.convert after).map (output ++ ·) := by
  induction hruns with
  | nil =>
      rw [List.nil_append]
      cases convert _ after <;> simp [Except.map]
  | @cons pending next last token tokens released output hstep _ ih =>
      rw [List.cons_append, convert_cons_of_step hstep, ih]
      cases last.convert after <;> simp [Except.map]

/-- Either every token is converted or the conversion stops at the first one that
is refused. -/
theorem exists_runs_or_stops (pending : Pending) (tokens : List Token) :
    (∃ output last, Runs pending tokens output last) ∨
      ∃ before token after output last refusal, tokens = before ++ token :: after ∧
        Runs pending before output last ∧ last.step token = .error refusal := by
  induction tokens generalizing pending with
  | nil => exact Or.inl ⟨[], pending, .nil⟩
  | cons token tokens ih =>
      cases hstep : pending.step token with
      | error refusal =>
          right
          exact ⟨[], token, tokens, [], pending, refusal, rfl, .nil, hstep⟩
      | ok result =>
          obtain ⟨released, next⟩ := result
          have hstep := step_eq_ok_iff.mp hstep
          rcases ih next with
            ⟨output, last, hruns⟩ | ⟨before, other, after, output, last, refusal, rfl, hruns, hstop⟩
          · exact Or.inl ⟨released ++ output, last, .cons hstep hruns⟩
          · right
            exact ⟨token :: before, other, after, released ++ output, last, refusal, rfl,
              .cons hstep hruns, hstop⟩

theorem convert_append_of_step_eq_error {pending last : Pending} {before output : List Token}
    {token : Token} {refusal : Refusal} (hruns : Runs pending before output last)
    (hstop : last.step token = .error refusal) (after : List Token) :
    pending.convert (before ++ token :: after) = .error refusal := by
  rw [convert_append_of_runs hruns, convert, hstop]
  rfl

theorem runs_or_convert_append_eq_error (pending : Pending) (tokens : List Token) :
    (∃ output last, Runs pending tokens output last) ∨
      ∃ refusal, ∀ after, pending.convert (tokens ++ after) = .error refusal := by
  rcases exists_runs_or_stops pending tokens with
    hruns | ⟨before, token, after, output, last, refusal, rfl, hruns, hstop⟩
  · exact Or.inl hruns
  · right
    refine ⟨refusal, ?_⟩
    intro more
    rw [List.append_assoc, List.cons_append]
    exact convert_append_of_step_eq_error hruns hstop (after ++ more)

theorem convert_eq_ok_iff {pending : Pending} {tokens output : List Token} :
    pending.convert tokens = .ok output ↔
      ∃ released last, Runs pending tokens released last ∧
        .leftParen ∉ last.stack ∧ output = released ++ last.stack := by
  have hfinish (released : List Token) (last : Pending) :
      (last.convert []).map (released ++ ·) = .ok output ↔
        .leftParen ∉ last.stack ∧ output = released ++ last.stack := by
    rw [convert, finish]
    split
    next hopen => simp [Except.map, hopen]
    next hclosed => simp [Except.map, hclosed, eq_comm]
  constructor
  · intro hconvert
    rcases runs_or_convert_append_eq_error pending tokens with
      ⟨released, last, hruns⟩ | ⟨refusal, hrefused⟩
    · have hsplit := convert_append_of_runs hruns []
      rw [List.append_nil, hconvert] at hsplit
      exact ⟨released, last, hruns, (hfinish released last).mp hsplit.symm⟩
    · have herror := hrefused []
      rw [List.append_nil, hconvert] at herror
      simp at herror
  · rintro ⟨released, last, hruns, hend⟩
    have hsplit := convert_append_of_runs hruns []
    rw [List.append_nil] at hsplit
    rw [hsplit]
    exact (hfinish released last).mpr hend

theorem convert_eq_error_iff {pending : Pending} {tokens : List Token} {refusal : Refusal} :
    pending.convert tokens = .error refusal ↔
      (∃ before token after output last, tokens = before ++ token :: after ∧
          Runs pending before output last ∧ last.step token = .error refusal) ∨
        ∃ output last, Runs pending tokens output last ∧ .leftParen ∈ last.stack ∧
          refusal = .unbalancedParentheses := by
  have hfinish {output : List Token} {last : Pending} (hruns : Runs pending tokens output last) :
      pending.convert tokens = .error refusal ↔
        .leftParen ∈ last.stack ∧ refusal = .unbalancedParentheses := by
    have hsplit := convert_append_of_runs hruns []
    rw [List.append_nil, convert, finish] at hsplit
    rw [hsplit]
    split
    next hopen => simp [Except.map, hopen, eq_comm]
    next hclosed => simp [Except.map, hclosed]
  constructor
  · intro hrefused
    rcases exists_runs_or_stops pending tokens with
      ⟨output, last, hruns⟩ | ⟨before, token, after, output, last, other, rfl, hruns, hstop⟩
    · exact Or.inr ⟨output, last, hruns, (hfinish hruns).mp hrefused⟩
    · left
      rw [convert_append_of_step_eq_error hruns hstop, Except.error.injEq] at hrefused
      rw [hrefused] at hstop
      exact ⟨before, token, after, output, last, rfl, hruns, hstop⟩
  · rintro (⟨before, token, after, output, last, rfl, hruns, hstop⟩ | ⟨output, last, hruns, hend⟩)
    · exact convert_append_of_step_eq_error hruns hstop after
    · exact (hfinish hruns).mpr hend

theorem Runs.append {pending middle last : Pending} {before after output rest : List Token}
    (hbefore : Runs pending before output middle) (hafter : Runs middle after rest last) :
    Runs pending (before ++ after) (output ++ rest) last := by
  induction hbefore with
  | nil => exact hafter
  | cons hstep _ ih =>
      rw [List.append_assoc]
      exact .cons hstep (ih hafter)

theorem Runs.exists_append {pending last : Pending} {before after output : List Token}
    (hruns : Runs pending (before ++ after) output last) :
    ∃ middle first rest, output = first ++ rest ∧
      Runs pending before first middle ∧ Runs middle after rest last := by
  induction before generalizing pending output with
  | nil => exact ⟨pending, [], output, rfl, .nil, hruns⟩
  | cons token before ih =>
      cases hruns with
      | @cons _ next _ _ _ released _ hstep hrest =>
          obtain ⟨middle, first, rest, rfl, hbefore, hafter⟩ := ih hrest
          exact ⟨middle, released ++ first, rest, (List.append_assoc _ _ _).symm,
            .cons hstep hbefore, hafter⟩

theorem Runs.singleton {pending next : Pending} {token : Token} {released : List Token}
    (hstep : Step pending token released next) : Runs pending [token] released next := by
  simpa using Runs.cons hstep .nil

/-! ## Nothing but parentheses is lost -/

theorem Step.countP_add {pending next : Pending} {token : Token} {released : List Token}
    (hstep : Step pending token released next) (p : Token → Bool)
    (hleft : p .leftParen = false) (hright : p .rightParen = false) :
    released.countP p + next.stack.countP p = pending.stack.countP p + [token].countP p := by
  cases hstep with
  | number value => simp [Nat.add_comm]
  | leftParen => simp [hleft]
  | rightParen _ => simp [hleft, hright]
  | operator op _ _ => simp only [List.countP_append, List.countP_cons, List.countP_nil]; omega
  | unknown text _ _ => simp only [List.countP_append, List.countP_cons, List.countP_nil]; omega

theorem Runs.countP_add {pending last : Pending} {tokens output : List Token}
    (hruns : Runs pending tokens output last) (p : Token → Bool)
    (hleft : p .leftParen = false) (hright : p .rightParen = false) :
    output.countP p + last.stack.countP p = pending.stack.countP p + tokens.countP p := by
  induction hruns with
  | nil => simp
  | @cons pending next last token tokens released output hstep _ ih =>
      have hfirst := hstep.countP_add p hleft hright
      rw [List.countP_append, ← List.singleton_append, List.countP_append]
      omega

/-! ## Runs above an opening parenthesis -/

/-- What waits below an opening parenthesis plays no part in a step that leaves the
parenthesis open. -/
theorem Step.above {stack rest : List Token} {afterValue afterValue' : Bool} {token : Token}
    {released : List Token}
    (hstep : Step ⟨stack, afterValue⟩ token released ⟨rest, afterValue'⟩) (base : List Token) :
    Step ⟨stack ++ .leftParen :: base, afterValue⟩ token released
      ⟨rest ++ .leftParen :: base, afterValue'⟩ := by
  have hkept (kept : List Token) (precedence : Nat)
      (hhead : ∀ token, kept.head? = some token → yieldsTo precedence token = false) :
      ∀ token, (kept ++ .leftParen :: base).head? = some token →
        yieldsTo precedence token = false := by
    intro token htoken
    cases kept with
    | nil =>
        -- Everything above the parenthesis is released, and the parenthesis stops it.
        have hparen : .leftParen = token := by simpa using htoken
        rw [← hparen, yieldsTo_leftParen]
    | cons first kept => exact hhead token (by simpa using htoken)
  cases hstep with
  | number value => exact .number value
  | leftParen => exact .leftParen
  | rightParen hwaiting =>
      rw [List.append_assoc, List.cons_append]
      exact .rightParen hwaiting
  | operator op hreleased hhead =>
      rw [List.append_assoc]
      exact .operator op hreleased (hkept _ _ hhead)
  | unknown text hreleased hhead =>
      rw [List.append_assoc]
      exact .unknown text hreleased (hkept _ _ hhead)

theorem Runs.above {pending last : Pending} {tokens output : List Token}
    (hruns : Runs pending tokens output last) (base : List Token) :
    Runs ⟨pending.stack ++ .leftParen :: base, pending.afterValue⟩ tokens output
      ⟨last.stack ++ .leftParen :: base, last.afterValue⟩ := by
  induction hruns with
  | nil => exact .nil
  | cons hstep _ ih => exact .cons (hstep.above base) ih

/-- An expression in parentheses releases its own postfix order and leaves behind
what a value leaves behind. -/
theorem runs_group {tokens output : List Token} (hconvert : ofInfix tokens = .ok output)
    (stack : List Token) (afterValue : Bool) :
    Runs ⟨stack, afterValue⟩ (.leftParen :: tokens ++ [.rightParen]) output ⟨stack, true⟩ := by
  obtain ⟨released, last, hruns, hclosed, rfl⟩ := convert_eq_ok_iff.mp hconvert
  have hopen : Runs ⟨stack, afterValue⟩ (.leftParen :: tokens) released
      ⟨last.stack ++ .leftParen :: stack, last.afterValue⟩ := by
    simpa using Runs.cons .leftParen (hruns.above stack)
  exact hopen.append (Runs.singleton (.rightParen hclosed))

end Pending
end Rpn
end InfixCalculator
