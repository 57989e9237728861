import InfixCalculator.Decimal.Literal
import InfixCalculator.Proofs.Prefix

/-!
# The grammar of literals

A literal is an optional minus sign, digits, and optionally a point with digits
after it.  `Literal` keeps these parts, so that every literal is well formed by
construction.  The main result says that reading accepts exactly the texts of
literals, and that the value read is the one that the parts spell.
-/

namespace InfixCalculator

namespace Decimal

/-! ## Literals by their parts -/

/-- At least one ASCII digit. -/
structure Digits where
  chars : List Char
  chars_ne_nil : chars ≠ []
  isDigit_of_mem : ∀ c ∈ chars, c.isDigit = true

def Digits.singleton (c : Char) (hdigit : c.isDigit = true) : Digits :=
  ⟨[c], List.cons_ne_nil c [], List.forall_mem_singleton.mpr hdigit⟩

structure Literal where
  negative : Bool
  whole : Digits
  fraction : Option Digits

namespace Literal

def magnitude (literal : Literal) : List Char :=
  match literal.fraction with
  | none => literal.whole.chars
  | some digits => literal.whole.chars ++ '.' :: digits.chars

def text (literal : Literal) : List Char :=
  if literal.negative then '-' :: literal.magnitude else literal.magnitude

def value (literal : Literal) : Float :=
  ofDigits literal.negative literal.whole.chars (literal.fraction.elim [] Digits.chars)

end Literal

theorem Digits.exists_cons (digits : Digits) :
    ∃ c rest, digits.chars = c :: rest ∧ c.isDigit = true := by
  obtain ⟨c, rest, hcons⟩ := List.exists_cons_of_ne_nil digits.chars_ne_nil
  exact ⟨c, rest, hcons, digits.isDigit_of_mem c (by simp [hcons])⟩

theorem Literal.magnitude_eq_cons (literal : Literal) :
    ∃ c rest, literal.magnitude = c :: rest ∧ c.isDigit = true := by
  obtain ⟨c, rest, hcons, hdigit⟩ := literal.whole.exists_cons
  unfold magnitude
  cases literal.fraction with
  | none => exact ⟨c, rest, hcons, hdigit⟩
  | some digits => exact ⟨c, rest ++ '.' :: digits.chars, by simp [hcons], hdigit⟩

theorem Literal.text_ne_singleton (literal : Literal) {c : Char} (hc : c.isDigit = false) :
    literal.text ≠ [c] := by
  intro htext
  obtain ⟨d, rest, hcons, hdigit⟩ := literal.magnitude_eq_cons
  unfold text at htext
  rw [hcons] at htext
  split at htext
  · simp at htext
  · rw [(List.cons.inj htext).1, hc] at hdigit
    cases hdigit

/-- A magnitude starts with a digit, so no sign is read off it. -/
theorem read?_magnitude (literal : Literal) :
    read? literal.magnitude = readMagnitude? false literal.magnitude := by
  obtain ⟨c, rest, hcons, hdigit⟩ := literal.magnitude_eq_cons
  have hminus : c ≠ '-' := by
    rintro rfl
    exact absurd hdigit (by decide)
  rw [hcons]
  unfold read?
  split
  next heq =>
    rw [List.cons.injEq] at heq
    exact absurd heq.1 hminus
  next => rfl

/-! ## Reading accepts exactly the literals -/

theorem readMagnitude?_magnitude (literal : Literal) :
    readMagnitude? literal.negative literal.magnitude = some literal.value := by
  have hwhole := literal.whole.isDigit_of_mem
  have hne := literal.whole.chars_ne_nil
  unfold readMagnitude? Literal.magnitude Literal.value
  cases literal.fraction with
  | none =>
      have htake : literal.whole.chars.takeWhile Char.isDigit = literal.whole.chars :=
        List.takeWhile_eq_self_iff.mpr hwhole
      have hdrop : literal.whole.chars.dropWhile Char.isDigit = [] :=
        List.dropWhile_eq_nil_iff.mpr hwhole
      simp [htake, hdrop, hne]
  | some digits =>
      have hpoint : ∀ a, ('.' :: digits.chars).head? = some a → a.isDigit = false := by
        intro a ha
        have hdot : '.' = a := by simpa using ha
        subst hdot
        decide
      simp only [takeWhile_append_of_boundary hwhole hpoint,
        dropWhile_append_of_boundary hwhole hpoint]
      have hall : digits.chars.all Char.isDigit = true :=
        List.all_eq_true.mpr digits.isDigit_of_mem
      simp [hne, hall, digits.chars_ne_nil]

theorem exists_of_readMagnitude?_eq_some {negative : Bool} {text : List Char} {value : Float}
    (hread : readMagnitude? negative text = some value) :
    ∃ literal : Literal, literal.negative = negative ∧
      literal.magnitude = text ∧ literal.value = value := by
  have hsplit : text.takeWhile Char.isDigit ++ text.dropWhile Char.isDigit = text :=
    List.takeWhile_append_dropWhile
  unfold readMagnitude? at hread
  simp only [List.isEmpty_iff] at hread
  split at hread
  next => simp at hread
  next hne =>
    let whole : Digits :=
      ⟨text.takeWhile Char.isDigit, hne, List.all_eq_true.mp List.all_takeWhile⟩
    split at hread
    next hrest =>
      refine ⟨⟨negative, whole, none⟩, rfl, ?_, Option.some.inj hread⟩
      rw [hrest, List.append_nil] at hsplit
      exact hsplit
    next fraction hrest =>
      split at hread
      next hfraction =>
        simp only [Bool.and_eq_true, Bool.not_eq_true', List.isEmpty_eq_false_iff,
          List.all_eq_true] at hfraction
        refine ⟨⟨negative, whole, some ⟨fraction, hfraction.1, hfraction.2⟩⟩, rfl, ?_,
          Option.some.inj hread⟩
        rw [hrest] at hsplit
        exact hsplit
      next => simp at hread
    next => simp at hread

theorem read?_text (literal : Literal) : read? literal.text = some literal.value := by
  have hmagnitude := readMagnitude?_magnitude literal
  unfold Literal.text
  cases hnegative : literal.negative with
  | true =>
      rw [hnegative] at hmagnitude
      simpa [read?] using hmagnitude
  | false =>
      rw [hnegative] at hmagnitude
      simpa [read?_magnitude] using hmagnitude

theorem read?_eq_some_iff {text : List Char} {value : Float} :
    read? text = some value ↔ ∃ literal : Literal, literal.text = text ∧ literal.value = value := by
  constructor
  · intro hread
    unfold read? at hread
    split at hread
    next magnitude =>
      obtain ⟨literal, hnegative, htext, hvalue⟩ := exists_of_readMagnitude?_eq_some hread
      exact ⟨literal, by simp [Literal.text, hnegative, htext], hvalue⟩
    next =>
      obtain ⟨literal, hnegative, htext, hvalue⟩ := exists_of_readMagnitude?_eq_some hread
      exact ⟨literal, by simp [Literal.text, hnegative, htext], hvalue⟩
  · rintro ⟨literal, rfl, rfl⟩
    exact read?_text literal

theorem read?_eq_none_iff {text : List Char} :
    read? text = none ↔ ∀ literal : Literal, literal.text ≠ text := by
  constructor
  · intro hnone literal htext
    rw [← htext, read?_text] at hnone
    simp at hnone
  · intro hliteral
    cases hread : read? text with
    | none => rfl
    | some value =>
        obtain ⟨literal, htext, -⟩ := read?_eq_some_iff.mp hread
        exact absurd htext (hliteral literal)

end Decimal
end InfixCalculator
