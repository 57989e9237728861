import InfixCalculator.Journal.Record
import InfixCalculator.Text.Blank

/-!
# Filters of the journal

A filter is a list of directives separated by commas.  A directive gives the
most detailed level that is kept, for every record (`debug`) or for the records
whose path starts with a text (`path=debug`, or `path` alone for all levels).
The directive with the longest matching text decides.
-/

namespace InfixCalculator.Journal

/-- A verbosity of `0` keeps nothing. -/
structure Directive where
  path : String
  verbosity : Nat
deriving DecidableEq, Repr

/-- Reads the name of a level in either case; `off` has verbosity `0`. -/
def verbosity? (text : String) : Option Nat :=
  let name := text.map Char.toUpper
  if name = "OFF" then some 0
  else (Level.all.find? (·.label = name)).map Level.verbosity

/-- Reads one directive.  A malformed one is ignored. -/
def Directive.ofText? (text : String) : Option Directive :=
  match text.splitOn "=" with
  | [word] => some ((verbosity? word).elim ⟨word, Level.trace.verbosity⟩ (⟨"", ·⟩))
  | [path, word] =>
    let word := Text.trim word
    if word = "" then some ⟨path, Level.trace.verbosity⟩
    else (verbosity? word).map (⟨path, ·⟩)
  | _ => none

structure Filter where
  directives : List Directive
deriving DecidableEq, Repr

namespace Filter

def errors : Filter := ⟨[⟨"", Level.error.verbosity⟩]⟩

/-- Reads a filter.  One without directives keeps only errors. -/
def ofText (text : String) : Filter :=
  let parts := ((text.splitOn ",").map Text.trim).filter (· ≠ "")
  match parts.filterMap Directive.ofText? with
  | [] => errors
  | directives => ⟨directives⟩

/-- The directive that decides about a path, later ones before earlier ones of the
same length. -/
def directive? (filter : Filter) (path : String) : Option Directive :=
  let step (best : Option Directive) (directive : Directive) :=
    if directive.path.toList.isPrefixOf path.toList &&
        best.all (·.path.length ≤ directive.path.length) then some directive
    else best
  filter.directives.foldl step none

def keeps (filter : Filter) (record : Record) : Bool :=
  (filter.directive? record.source.target).any (record.level.verbosity ≤ ·.verbosity)

def lines (filter : Filter) (records : List Record) : String :=
  .join ((records.filter filter.keeps).map Record.line)

end Filter
end InfixCalculator.Journal
