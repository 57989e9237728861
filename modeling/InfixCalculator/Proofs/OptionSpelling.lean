import InfixCalculator.Proofs.OptionReading

/-!
# Spelled options

An expression can be given after `--eval` or `-e`, or attached to `--eval` by an equals
sign, and a capacity in the first and the last of these ways.  Any text can be an
expression, also one that looks like an option.

No reader that follows the declarations loses step with such a command line.  The option
for an expression takes hyphens, so it takes the expression whatever it is, and the next
option is found where it was written.
-/

namespace InfixCalculator.CommandLine

/-! ## Spellings -/

inductive Spelling where
  | long
  | short
  | attached
deriving DecidableEq, Repr

def Spelling.arguments (expression : String) : Spelling → List String
  | long => ["--eval", expression]
  | short => ["-e", expression]
  | attached => ["--eval=" ++ expression]

/-- A command line of expressions, each spelled in its own way. -/
def spell (given : List (String × Spelling)) : List String :=
  given.flatMap fun (expression, spelling) => spelling.arguments expression

inductive CapacitySpelling where
  | separate
  | attached
deriving DecidableEq, Repr

def CapacitySpelling.arguments (capacity : Nat) : CapacitySpelling → List String
  | separate => ["--historique-max", capacity.repr]
  | attached => ["--historique-max=" ++ capacity.repr]

theorem Spelling.writes_arguments (expression : String) (spelling : Spelling) :
    evalOption.Writes expression (spelling.arguments expression) := by
  have htakes : evalOption.TakesNext expression := Or.inl rfl
  cases spelling with
  | long => exact .long htakes
  | short => exact .short rfl htakes
  | attached => exact .attached

theorem takesNext_repr (declaration : Declaration) (n : Nat) : declaration.TakesNext n.repr := by
  obtain ⟨c, digits, hchars⟩ := exists_repr_eq_cons n
  have hdigit : c.isDigit = true := isDigit_of_mem_repr (by rw [hchars]; simp)
  right
  rw [hchars, List.head?_cons]
  intro hhyphen
  cases hhyphen
  cases hdigit

theorem CapacitySpelling.writes_arguments (n : Nat) (spelling : CapacitySpelling) :
    historyMaxOption.Writes n.repr (spelling.arguments n) := by
  cases spelling with
  | separate => exact .long (takesNext_repr historyMaxOption n)
  | attached => exact .attached

/-! ## What is found -/

def expressionsOf (given : List (String × Spelling)) : List Occurrence :=
  given.map fun (expression, _) => ⟨evalOption, .text expression⟩

theorem option_of_mem_expressionsOf {given : List (String × Spelling)} {occurrence : Occurrence}
    (hmem : occurrence ∈ expressionsOf given) : occurrence.option = evalOption := by
  obtain ⟨first, -, rfl⟩ := List.mem_map.mp hmem
  rfl

theorem filterMap_expressionsOf (given : List (String × Spelling)) :
    (expressionsOf given).filterMap Occurrence.expression? = given.map Prod.fst := by
  simp [expressionsOf, List.filterMap_map, Function.comp_def, Occurrence.expression?]

theorem findSome?_expressionsOf (given : List (String × Spelling)) :
    (expressionsOf given).findSome? Occurrence.historyMax? = none := by
  rw [List.findSome?_eq_none_iff]
  intro occurrence hmem
  obtain ⟨first, -, rfl⟩ := List.mem_map.mp hmem
  rfl

theorem ofOccurrences_expressionsOf (given : List (String × Spelling)) :
    Arguments.ofOccurrences (expressionsOf given) = ⟨given.map Prod.fst, 50⟩ := by
  rw [Arguments.ofOccurrences, filterMap_expressionsOf, findSome?_expressionsOf]
  rfl

theorem ofOccurrences_capacity (before after : List (String × Spelling)) (n : Nat) :
    Arguments.ofOccurrences
        (expressionsOf before ++ ⟨historyMaxOption, .number n⟩ :: expressionsOf after) =
      ⟨(before ++ after).map Prod.fst, n⟩ := by
  have hexpression : Occurrence.expression? ⟨historyMaxOption, .number n⟩ = none := rfl
  have hcapacity : Occurrence.historyMax? ⟨historyMaxOption, .number n⟩ = some n := rfl
  rw [Arguments.ofOccurrences, List.filterMap_append, List.filterMap_cons_none hexpression,
    List.findSome?_append, List.findSome?_cons, hcapacity, filterMap_expressionsOf,
    filterMap_expressionsOf, findSome?_expressionsOf, List.map_append]
  rfl

namespace Reader.Follows

variable {reader : Reader} (hreader : reader.Follows declared)
include hreader

theorem read_spell_append {rest : List String} {found : List Occurrence}
    (hrest : reader rest = .ok found) (given : List (String × Spelling)) :
    reader (spell given ++ rest) = .ok (expressionsOf given ++ found) := by
  -- The law is about one option before any rest, so the last expression comes first.
  induction given with
  | nil => exact hrest
  | cons first given ih =>
      obtain ⟨expression, spelling⟩ := first
      have hfirst := hreader.option_given (mem_declared_iff.mpr (Or.inl rfl))
        (spelling.writes_arguments expression) (.text expression) ih (by simp [evalOption])
      rwa [← List.append_assoc] at hfirst

theorem read_spell (given : List (String × Spelling)) :
    reader (spell given) = .ok (expressionsOf given) := by
  have hread := hreader.read_spell_append hreader.nothing_given given
  rwa [List.append_nil, List.append_nil] at hread

theorem read_capacity_append (spelling : CapacitySpelling) {n : Nat} (hpos : 1 ≤ n)
    (hmax : n ≤ 1000) (given : List (String × Spelling)) :
    reader (spelling.arguments n ++ spell given) =
      .ok (⟨historyMaxOption, .number n⟩ :: expressionsOf given) := by
  apply hreader.option_given (mem_declared_iff.mpr (Or.inr rfl)) (spelling.writes_arguments n)
    (.number hpos hmax) (hreader.read_spell given)
  intro _ occurrence hmem heq
  rw [option_of_mem_expressionsOf hmem] at heq
  exact absurd heq (by decide)

end Reader.Follows

/-! ## Reading undoes spelling -/

/-- Expressions are read as they were given, whatever they are and however each of them
is spelled.  A capacity anywhere between them is read as well. -/
theorem parse_undoes_spell {reader : Reader} (hreader : reader.Follows declared)
    (before after : List (String × Spelling)) :
    let expressions := (before ++ after).map Prod.fst
    parse (spell (before ++ after)) reader = .ok ⟨expressions, 50⟩ ∧
      ∀ (spelling : CapacitySpelling) (n : Nat), 1 ≤ n → n ≤ 1000 →
        parse (spell before ++ spelling.arguments n ++ spell after) reader =
          .ok ⟨expressions, n⟩ := by
  intro expressions
  constructor
  · rw [parse, hreader.read_spell]
    exact congrArg Except.ok (ofOccurrences_expressionsOf (before ++ after))
  · intro spelling n hpos hmax
    have hread := hreader.read_spell_append (hreader.read_capacity_append spelling hpos hmax after)
      before
    rw [parse, List.append_assoc, hread]
    exact congrArg Except.ok (ofOccurrences_capacity before after n)

theorem parse_undoes_spell_lookalikes :
    let before := [("--help", Spelling.short), ("", .attached)]
    let after := [("-e", Spelling.long)]
    Reader.leftToRight.Follows declared ∧ 1 ≤ 1000 ∧
      parse ["-e", "--help", "--eval=", "--historique-max", "1000", "--eval", "-e"] .leftToRight =
        .ok ⟨(before ++ after).map Prod.fst, 1000⟩ := by
  intro before after
  have hreader := Reader.leftToRight_follows
  exact ⟨hreader, by decide,
    (parse_undoes_spell hreader before after).2 .separate 1000 (by decide) (by decide)⟩

end InfixCalculator.CommandLine
