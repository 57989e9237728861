import InfixCalculator.Binary64.Rounding

/-!
# Shortest decimals

A unit of `2⁻¹⁰⁷⁴` is `5¹⁰⁷⁴` times `10⁻¹⁰⁷⁴`, so every finite magnitude is a
whole number of decimal units of `10⁻¹⁰⁷⁴`.  The search walks from coarse to
fine through the grids of multiples of a power of ten and stops at the first
one where a neighbour of the exact magnitude reads back as the same value.  On
the finest grid the exact magnitude itself does.
-/

namespace InfixCalculator.Decimal

/-- The multiple `count · 10ᵖᵒʷᵉʳ` of the decimal unit. -/
structure Multiple where
  count : Nat
  power : Nat
deriving DecidableEq, Repr

def Multiple.units (multiple : Multiple) : Nat :=
  multiple.count * Nat.pow 10 multiple.power

/-- The number of decimal units in one binary unit. -/
def unitRatio : Nat := Nat.pow 5 1074

def codeOfUnits (units : Nat) : Nat :=
  Binary64.nearestCode units unitRatio

/-- Which multiple of `grid` next to `exact` passes the test, if any does.  When both
neighbours do, the nearer one is taken, and the upper one of two equally near. -/
def neighbour? (reads : Nat → Bool) (exact grid : Nat) : Option Nat :=
  let low := exact / grid
  let high := low + 1
  match reads (low * grid), reads (high * grid) with
  | true, true => some (if 2 * (exact % grid) < grid then low else high)
  | true, false => some low
  | false, true => some high
  | false, false => none

/-- The first neighbour found on the grids `10ᵏ`, `10ᵏ⁻¹`, …, `1`. -/
def search (reads : Nat → Bool) (exact : Nat) : Nat → Multiple
  | 0 => ⟨exact, 0⟩
  | k + 1 =>
    match neighbour? reads exact (Nat.pow 10 (k + 1)) with
    | some count => ⟨count, k + 1⟩
    | none => search reads exact k

/-- A power of ten to search from, no less than the power of the first digit of
`n`.  The logarithm of two to base ten is just below `0.30103`. -/
def topPower (n : Nat) : Nat :=
  n.log2 * 30103 / 100000 + 1

/-- The decimal with the fewest digits that reads back as a magnitude of `units`
binary units; of several, the nearest. -/
def shortest (units : Nat) : Multiple :=
  let exact := units * unitRatio
  let code := Binary64.nearestCode units 1
  search (fun candidate => codeOfUnits candidate == code) exact (topPower exact)

end InfixCalculator.Decimal
