/-! # Binary floating-point numbers

A `Floating p` is a number of one of two binary interchange formats.  Every finite
magnitude of a format is a whole number of units `2 ^ -unitPlaces`, and the magnitudes are
numbered in increasing order: code `0` is zero, the next code the least positive magnitude,
and the last code, `infinity`, stands above every finite one.  A number is a sign and a code.

Numbering magnitudes in order makes comparison a comparison of codes, and makes rounding a
search for a code (`Number.Rounding`).  A quiet NaN carries no payload here, since no table
can show one.

* `Precision.units` says how many units a code stands for.
* `Floating.sameNumber` and `Floating.lessThan` compare as numbers: NaN is unequal to itself,
  and the two zeros are equal.  Decidable equality, in contrast, tells the two zeros apart.
-/

namespace LinkedTables

/-- The two binary formats in which cells hold real numbers. -/
inductive Precision where
  | single
  | double
  deriving DecidableEq, Repr, Inhabited

namespace Precision

/-- Bits of a significand behind its leading bit. -/
def fractionBits : Precision → Nat
  | .single => 23
  | .double => 52

/-- The least positive magnitude is `2 ^ -unitPlaces`. -/
def unitPlaces : Precision → Nat
  | .single => 149
  | .double => 1074

def unitsPerOne (p : Precision) : Nat :=
  Nat.pow 2 p.unitPlaces

/-- How many codes lie between a power of two and the next: `2 ^ fractionBits`. -/
def run (p : Precision) : Nat :=
  Nat.pow 2 p.fractionBits

def runs : Precision → Nat
  | .single => 255
  | .double => 2047

def infinity (p : Precision) : Nat :=
  p.runs * p.run

/-- How far the significand of a code stands to the left of the unit.  The first two runs of
    codes count units directly; each later run is spaced twice as widely as the one before. -/
def shift (p : Precision) (code : Nat) : Nat :=
  code / p.run - 1

def significand (p : Precision) (code : Nat) : Nat :=
  code - p.shift code * p.run

/-- The magnitude of a code, in units of `2 ^ -unitPlaces`.  At `infinity` this is the first
    magnitude that is out of range. -/
def units (p : Precision) (code : Nat) : Nat :=
  p.significand code * Nat.pow 2 (p.shift code)

end Precision

inductive Floating (p : Precision) where
  | nan
  | number (negative : Bool) (code : Fin (p.infinity + 1))
  deriving DecidableEq

/-- The wider format, in which ranges and extents are given. -/
abbrev Double : Type := Floating .double

namespace Floating

variable {p : Precision}

def zero (negative : Bool) : Floating p :=
  .number negative ⟨0, Nat.succ_pos _⟩

def infinite (negative : Bool) : Floating p :=
  .number negative ⟨p.infinity, Nat.lt_succ_self _⟩

instance : Inhabited (Floating p) := ⟨zero false⟩

def isNaN : Floating p → Bool
  | .nan => true
  | .number _ _ => false

def isFinite : Floating p → Bool
  | .nan => false
  | .number _ code => code.val < p.infinity

def isInfinite : Floating p → Bool
  | .nan => false
  | .number _ code => code.val == p.infinity

def negate : Floating p → Floating p
  | .nan => .nan
  | .number negative code => .number (!negative) code

/-- The place of a number on the line of signed codes, where both zeros are `0`. -/
def place (negative : Bool) (code : Nat) : Int :=
  if negative then -(code : Int) else code

/-- Numeric order; NaN is below and above nothing. -/
def lessThan : Floating p → Floating p → Bool
  | .number s a, .number t b => place s a.val < place t b.val
  | _, _ => false

/-- Numeric equality: NaN differs from itself and the two zeros agree. -/
def sameNumber : Floating p → Floating p → Bool
  | .number s a, .number t b => place s a.val == place t b.val
  | _, _ => false

/-- The lesser of two numbers; of two equal ones the second. -/
def lesser (a b : Floating p) : Floating p :=
  if a.lessThan b then a else b

def greater (a b : Floating p) : Floating p :=
  if b.lessThan a then a else b

end Floating

end LinkedTables
