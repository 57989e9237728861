import InfixCalculator.Proofs.Arrangement
import Mathlib.Data.List.Induction

/-!
# Where the conversion puts the tokens

A converted expression consists of the same tokens without the parentheses.  To
say where each of them went, also among equal ones, a token is taken together
with its position in the infix order.

Numbers are released at once and never wait.  So whatever comes after a number
before the conversion, a number, an operator or an unknown symbol, comes after it
in the output as well.
-/

namespace InfixCalculator

open Token

namespace Rpn
namespace Pending

/-! ## Numbers never wait -/

theorem Step.filter_isNumber {pending next : Pending} {token : Token} {released : List Token}
    (hstep : Step pending token released next)
    (hstack : ∀ waiting ∈ pending.stack, waiting.isNumber = false) :
    released.filter isNumber = [token].filter isNumber ∧
      ∀ waiting ∈ next.stack, waiting.isNumber = false := by
  cases hstep with
  | number value => exact ⟨rfl, hstack⟩
  | leftParen => exact ⟨rfl, by simpa [isNumber] using hstack⟩
  | rightParen _ =>
      simp only [List.forall_mem_append, List.forall_mem_cons] at hstack
      exact ⟨by simpa [isNumber] using hstack.1, hstack.2.2⟩
  | operator op _ _ =>
      rw [List.forall_mem_append] at hstack
      exact ⟨by simpa [isNumber] using hstack.1, by simpa [isNumber] using hstack.2⟩
  | unknown text _ _ =>
      rw [List.forall_mem_append] at hstack
      exact ⟨by simpa [isNumber] using hstack.1, by simpa [isNumber] using hstack.2⟩

theorem Runs.filter_isNumber {pending last : Pending} {tokens output : List Token}
    (hruns : Runs pending tokens output last)
    (hstack : ∀ waiting ∈ pending.stack, waiting.isNumber = false) :
    output.filter isNumber = tokens.filter isNumber ∧
      ∀ waiting ∈ last.stack, waiting.isNumber = false := by
  induction hruns with
  | nil => exact ⟨rfl, hstack⟩
  | @cons pending next last token tokens released output hstep _ ih =>
      obtain ⟨hreleased, hnext⟩ := hstep.filter_isNumber hstack
      obtain ⟨houtput, hlast⟩ := ih hnext
      refine ⟨?_, hlast⟩
      rw [← List.singleton_append, List.filter_append, List.filter_append, hreleased, houtput]

/-! ## Tokens with their positions -/

theorem filter_not_isParen_eq_self {placed : List (Token × Nat)}
    (hparens : ∀ moved ∈ placed, moved.1.isParen = false) :
    placed.filter (!isParen ·.1) = placed := by
  rw [List.filter_eq_self]
  intro moved hmem
  rw [hparens moved hmem]
  rfl

/-- What waits and what arrives, each token with its position, is placed in the
output or kept waiting.  Of numbers only the one that arrives is placed. -/
structure Moves (waiting : List (Token × Nat)) (arriving : Token × Nat)
    (placed kept : List (Token × Nat)) : Prop where
  perm : (placed ++ kept.filter (!isParen ·.1)).Perm
    ((waiting ++ [arriving]).filter (!isParen ·.1))
  numbers : placed = [arriving] ∨ ∀ moved ∈ placed, moved.1.isNumber = false

theorem Moves.place {waiting : List (Token × Nat)} {arriving : Token × Nat}
    (hparen : arriving.1.isParen = false) : Moves waiting arriving [arriving] waiting where
  perm := by
    rw [List.filter_append, List.filter_cons_of_pos (by simpa using hparen), List.filter_nil]
    exact List.perm_append_comm
  numbers := Or.inl rfl

theorem Moves.wait {placed kept : List (Token × Nat)} {arriving : Token × Nat}
    (hparens : ∀ moved ∈ placed, moved.1.isParen = false)
    (hnumbers : ∀ moved ∈ placed, moved.1.isNumber = false) :
    Moves (placed ++ kept) arriving placed (arriving :: kept) where
  perm := by
    rw [List.append_assoc, List.filter_append, filter_not_isParen_eq_self hparens,
      List.perm_append_left_iff]
    exact (List.perm_append_singleton arriving kept).symm.filter _
  numbers := Or.inr hnumbers

/-- A closing parenthesis and the one that it closes both disappear. -/
theorem Moves.close {placed outer : List (Token × Nat)} {opening arriving : Token × Nat}
    (hopening : opening.1.isParen = true) (harriving : arriving.1.isParen = true)
    (hparens : ∀ moved ∈ placed, moved.1.isParen = false)
    (hnumbers : ∀ moved ∈ placed, moved.1.isNumber = false) :
    Moves (placed ++ opening :: outer) arriving placed outer where
  perm := by
    simp [filter_not_isParen_eq_self hparens, hopening, harriving]
  numbers := Or.inr hnumbers

theorem Step.exists_moves {pending next : Pending} {token : Token} {released : List Token}
    (hstep : Step pending token released next) (hright : .rightParen ∉ pending.stack)
    (hstack : ∀ waiting ∈ pending.stack, waiting.isNumber = false)
    {waiting : List (Token × Nat)} (hwaiting : waiting.map Prod.fst = pending.stack)
    (position : Nat) :
    ∃ placed kept, placed.map Prod.fst = released ∧ kept.map Prod.fst = next.stack ∧
      Moves waiting (token, position) placed kept := by
  obtain ⟨hreleased, -⟩ := hstep.isParen_eq_false hright
  have hparens {placed : List (Token × Nat)} (hplaced : placed.map Prod.fst = released) :
      ∀ moved ∈ placed, moved.1.isParen = false := by
    intro moved hmem
    exact hreleased moved.1 (by rw [← hplaced]; exact List.mem_map_of_mem hmem)
  have hnumbers {placed rest : List (Token × Nat)} (hsplit : waiting = placed ++ rest) :
      ∀ moved ∈ placed, moved.1.isNumber = false := by
    intro moved hmem
    apply hstack
    rw [← hwaiting, hsplit]
    exact List.mem_map_of_mem (List.mem_append_left rest hmem)
  have hwait {kept : List Token} (hsplit : waiting.map Prod.fst = released ++ kept) :
      ∃ placed later, placed.map Prod.fst = released ∧ later.map Prod.fst = token :: kept ∧
        Moves waiting (token, position) placed later := by
    obtain ⟨placed, later, heq, hplaced, rfl⟩ := List.map_eq_append_iff.mp hsplit
    refine ⟨placed, (token, position) :: later, hplaced, rfl, ?_⟩
    rw [heq]
    exact .wait (hparens hplaced) (hnumbers heq)
  cases hstep with
  | number value => exact ⟨[(.number value, position)], waiting, rfl, hwaiting, .place rfl⟩
  | leftParen => exact hwait hwaiting
  | rightParen _ =>
      obtain ⟨placed, rest, heq, hplaced, hrest⟩ := List.map_eq_append_iff.mp hwaiting
      obtain ⟨opening, outer, rfl, hopening, houter⟩ := List.map_eq_cons_iff.mp hrest
      refine ⟨placed, outer, hplaced, houter, ?_⟩
      rw [heq]
      exact .close (by rw [hopening]; rfl) rfl (hparens hplaced) (hnumbers heq)
  | operator op _ _ => exact hwait hwaiting
  | unknown text _ _ => exact hwait hwaiting

/-! ## Runs with positions -/

theorem pairwise_snd_zipIdx (tokens : List Token) :
    tokens.zipIdx.Pairwise fun first second => first.2 < second.2 := by
  rw [← List.pairwise_map, List.zipIdx_map_snd]
  exact List.pairwise_lt_range'

/-- A number is placed only after tokens that come before it. -/
def InOrder (placed : List (Token × Nat)) : Prop :=
  placed.Pairwise fun first second => second.1.isNumber = true → first.2 < second.2

theorem InOrder.append {before placed : List (Token × Nat)} (hbefore : InOrder before)
    (hnone : ∀ moved ∈ placed, moved.1.isNumber = false) : InOrder (before ++ placed) := by
  have hlater {first second : Token × Nat} (hsecond : second ∈ placed) :
      second.1.isNumber = true → first.2 < second.2 := by
    intro hnumber
    rw [hnone second hsecond] at hnumber
    cases hnumber
  refine List.pairwise_append.mpr ⟨hbefore, ?_, fun _ _ _ hsecond => hlater hsecond⟩
  exact List.pairwise_of_forall_mem_list fun _ _ _ hsecond => hlater hsecond

theorem Moves.inOrder_append {before waiting placed kept : List (Token × Nat)}
    {arriving : Token × Nat} (hmoves : Moves waiting arriving placed kept)
    (hbefore : InOrder before) (hearlier : ∀ first ∈ before, first.2 < arriving.2) :
    InOrder (before ++ placed) := by
  rcases hmoves.numbers with rfl | hnone
  · refine List.pairwise_append.mpr ⟨hbefore, List.pairwise_singleton _ _, ?_⟩
    intro first hfirst second hsecond _
    rw [List.mem_singleton.mp hsecond]
    exact hearlier first hfirst
  · exact hbefore.append hnone

/-- What is placed with a number comes after it there if it comes after it by its
position. -/
theorem InOrder.sublist {placed : List (Token × Nat)} (horder : InOrder placed)
    {first second : Token × Nat} (hnumber : first.1.isNumber = true) (hfirst : first ∈ placed)
    (hsecond : second ∈ placed) (hlt : first.2 < second.2) :
    [first, second].Sublist placed := by
  obtain ⟨before, after, rfl⟩ := List.append_of_mem hfirst
  rcases List.mem_append.mp hsecond with hbefore | hafter
  · have hearlier := (List.pairwise_append.mp horder).2.2 second hbefore first (by simp) hnumber
    omega
  · rcases List.mem_cons.mp hafter with rfl | hafter
    · omega
    · have htail := (List.singleton_sublist.mpr hafter).cons_cons first
      exact htail.trans (List.sublist_append_right before _)

/-- What a run places and keeps waiting are the tokens that it has read. -/
theorem Runs.exists_placed {last : Pending} {tokens output : List Token}
    (hruns : Runs .start tokens output last) :
    ∃ placed waiting : List (Token × Nat), placed.map Prod.fst = output ∧
      waiting.map Prod.fst = last.stack ∧
      (placed ++ waiting.filter (!isParen ·.1)).Perm (tokens.zipIdx.filter (!isParen ·.1)) ∧
      InOrder placed := by
  induction tokens using List.reverseRecOn generalizing last output with
  | nil =>
      cases hruns
      exact ⟨[], [], rfl, rfl, .nil, .nil⟩
  | append_singleton tokens token ih =>
      obtain ⟨middle, first, rest, rfl, hbefore, hlast⟩ := hruns.exists_append
      cases hlast with
      | cons hstep hnil =>
          cases hnil
          obtain ⟨before, waiting, hfirst, hwaiting, hperm, horder⟩ := ih hbefore
          obtain ⟨-, hright⟩ := hbefore.isParen_eq_false (by simp [start])
          obtain ⟨-, hstack⟩ := hbefore.filter_isNumber (by simp [start])
          obtain ⟨placed, kept, hplaced, hkept, hmoves⟩ :=
            hstep.exists_moves hright hstack hwaiting tokens.length
          refine ⟨before ++ placed, kept, ?_, hkept, ?_, hmoves.inOrder_append horder ?_⟩
          · rw [List.map_append, hfirst, hplaced, List.append_nil]
          · have harrive := hmoves.perm.append_left before
            rw [List.filter_append, ← List.append_assoc before (waiting.filter _)] at harrive
            rw [List.append_assoc, List.zipIdx_append, List.filter_append, Nat.zero_add]
            exact harrive.trans (hperm.append_right _)
          · intro earlier hearlier
            have hmem := hperm.subset (List.mem_append_left _ hearlier)
            simpa using List.snd_lt_of_mem_zipIdx (List.mem_filter.mp hmem).1

end Pending

open Pending

theorem filter_isNumber_ofInfix {tokens output : List Token}
    (hconvert : ofInfix tokens = .ok output) :
    output.filter isNumber = tokens.filter isNumber := by
  obtain ⟨released, last, hruns, -, rfl⟩ := convert_eq_ok_iff.mp hconvert
  obtain ⟨hreleased, hstack⟩ := hruns.filter_isNumber (by simp [start])
  have hnone : last.stack.filter isNumber = [] := by
    simpa [List.filter_eq_nil_iff] using hstack
  rw [List.filter_append, hreleased, hnone, List.append_nil]

theorem exists_placed_of_ofInfix {tokens output : List Token}
    (hconvert : ofInfix tokens = .ok output) :
    ∃ placed : List (Token × Nat), placed.map Prod.fst = output ∧
      placed.Perm (tokens.zipIdx.filter (!isParen ·.1)) ∧ InOrder placed := by
  obtain ⟨released, last, hruns, -, houtput⟩ := convert_eq_ok_iff.mp hconvert
  obtain ⟨placed, waiting, hplaced, hwaiting, hperm, horder⟩ := hruns.exists_placed
  obtain ⟨-, hstack⟩ := hruns.filter_isNumber (by simp [start])
  have hmem {moved : Token × Nat} (hmoved : moved ∈ waiting) : moved.1 ∈ last.stack := by
    rw [← hwaiting]
    exact List.mem_map_of_mem hmoved
  have hparens : ∀ moved ∈ waiting, moved.1.isParen = false := by
    intro moved hmoved
    apply isParen_eq_false_of_mem_ofInfix hconvert
    rw [houtput]
    exact List.mem_append_right released (hmem hmoved)
  rw [filter_not_isParen_eq_self hparens] at hperm
  refine ⟨placed ++ waiting, ?_, hperm, horder.append fun moved hmoved => hstack _ (hmem hmoved)⟩
  rw [List.map_append, hplaced, hwaiting, houtput]

/-- The output is a rearrangement of the tokens without the parentheses.  Numbers
keep their order, and with its position from before the conversion every token that
comes after a number still comes after it. -/
theorem ofInfix_rearranges {tokens output : List Token} (hconvert : ofInfix tokens = .ok output) :
    (∀ token ∈ output, token.isParen = false) ∧
      output.Perm (tokens.filter (!isParen ·)) ∧
      output.filter isNumber = tokens.filter isNumber ∧
      ∃ placed : List (Token × Nat), placed.map Prod.fst = output ∧
        placed.Perm (tokens.zipIdx.filter (!isParen ·.1)) ∧
        ∀ number token, [number, token].Sublist tokens.zipIdx → number.1.isNumber = true →
          token.1.isParen = false → [number, token].Sublist placed := by
  obtain ⟨placed, hplaced, hperm, horder⟩ := exists_placed_of_ofInfix hconvert
  refine ⟨fun token => isParen_eq_false_of_mem_ofInfix hconvert, ?_,
    filter_isNumber_ofInfix hconvert, placed, hplaced, hperm, ?_⟩
  · have htokens : (tokens.zipIdx.filter (!isParen ·.1)).map Prod.fst =
        tokens.filter (!isParen ·) := by
      conv_rhs => rw [← List.zipIdx_map_fst 0 tokens, List.filter_map]
      rfl
    rw [← hplaced, ← htokens]
    exact hperm.map Prod.fst
  · intro number token hsublist hnumber hparen
    have hlt : number.2 < token.2 :=
      List.pairwise_iff_forall_sublist.mp (pairwise_snd_zipIdx tokens) hsublist
    have hmem {moved : Token × Nat} (hmoved : moved ∈ [number, token])
        (hmovedParen : moved.1.isParen = false) : moved ∈ placed := by
      rw [hperm.mem_iff, List.mem_filter]
      exact ⟨hsublist.subset hmoved, by simpa using hmovedParen⟩
    have hnumberParen : number.1.isParen = false := by
      cases hfirst : number.1 <;> simp_all [isNumber, isParen]
    exact horder.sublist hnumber (hmem (by simp) hnumberParen) (hmem (by simp) hparen) hlt

/-- Numbers side by side, an unknown symbol and an operator at the end. -/
theorem ofInfix_rearranges_malformed :
    let tokens := [number 1, operator .times, leftParen, number 2, number 3, unknown "$",
      rightParen, operator .plus]
    let output := [number 1, number 2, number 3, unknown "$", operator .times, operator .plus]
    ofInfix tokens = .ok output ∧
      (∀ token ∈ output, token.isParen = false) ∧
      output.Perm (tokens.filter (!isParen ·)) ∧
      output.filter isNumber = tokens.filter isNumber ∧
      ∃ placed : List (Token × Nat), placed.map Prod.fst = output ∧
        placed.Perm (tokens.zipIdx.filter (!isParen ·.1)) ∧
        ∀ number token, [number, token].Sublist tokens.zipIdx → number.1.isNumber = true →
          token.1.isParen = false → [number, token].Sublist placed := by
  intro tokens output
  have hconvert : ofInfix tokens = .ok output := rfl
  exact ⟨hconvert, ofInfix_rearranges hconvert⟩

end Rpn
end InfixCalculator
