import LinkedTables.Number.Rounding

/-! # Shortest decimals

A finite binary number has an exact decimal expansion, and among the shorter decimals that
round to it there are ones with fewest digits.  `Precision.shortest` finds the nearest of
those: for one digit, then two, and so on, it takes the two neighbours of the number on that
decimal grid and asks `Precision.codeOf`, the reading of decimals, whether they come back.

The answer reads back because that is what is asked of it; where no short decimal does, the
exact expansion stands in.  Which way an exact tie between two shortest decimals goes is a
decision of the notation that is being written, hence a parameter.
-/

namespace LinkedTables

/-- The number `digits * 10 ^ exponent`. -/
structure Decimal where
  digits : Nat
  exponent : Int
  deriving DecidableEq, Repr

/-- Which of two equally near decimals is written. -/
inductive TieRule where
  | upward
  | toEven
  deriving DecidableEq, Repr

namespace Decimal

def length (d : Decimal) : Nat :=
  (Nat.toDigits 10 d.digits).length

def below (d : Decimal) (drop : Nat) : Decimal :=
  ⟨d.digits / Nat.pow 10 drop, d.exponent + drop⟩

/-- The next decimal above `below` on the same grid.  A carry that turns all nines into a
    power of ten is written with one digit. -/
def above (d : Decimal) (drop : Nat) : Decimal :=
  let next := d.digits / Nat.pow 10 drop + 1
  let width := (Nat.toDigits 10 next).length - 1
  if next = Nat.pow 10 width then ⟨1, d.exponent + drop + width⟩ else ⟨next, d.exponent + drop⟩

end Decimal

namespace Precision

def codeOf (p : Precision) (d : Decimal) : Nat :=
  match d.exponent with
  | .ofNat e => p.nearestCode (d.digits * Nat.pow 10 e * p.unitsPerOne) 1
  | .negSucc e => p.nearestCode (d.digits * p.unitsPerOne) (Nat.pow 10 (e + 1))

/-- The exact decimal expansion of a finite magnitude; zero has no places. -/
def exactDecimal (p : Precision) (code : Nat) : Decimal :=
  if code = 0 then ⟨0, 0⟩
  else if p.unitPlaces ≤ p.shift code then
    ⟨p.significand code * Nat.pow 2 (p.shift code - p.unitPlaces), 0⟩
  else
    let places := p.unitPlaces - p.shift code
    ⟨p.significand code * Nat.pow 5 places, -(places : Int)⟩

/-- A decimal of the expansion `exact` with `drop` digits fewer that reads back as `code`: the
    nearer one if both neighbours do. -/
def neighbour? (p : Precision) (tie : TieRule) (code : Nat) (exact : Decimal) (drop : Nat) :
    Option Decimal :=
  let low := exact.below drop
  let high := exact.above drop
  match p.codeOf low == code, p.codeOf high == code with
  | false, false => none
  | true, false => some low
  | false, true => some high
  | true, true =>
    -- The cut digits are compared with half a step of the grid.
    let rest := 2 * (exact.digits % Nat.pow 10 drop)
    if rest < Nat.pow 10 drop then some low
    else if Nat.pow 10 drop < rest then some high
    else match tie with
      | .upward => some high
      | .toEven => if low.digits % 2 = 0 then some low else some high

/-- No finite number of either format needs more digits than this to read back. -/
def digitLimit : Nat := 17

/-- The decimal with fewest digits that reads back as `code`, and of those the nearest. -/
def shortest (p : Precision) (tie : TieRule) (code : Nat) : Decimal :=
  let exact := p.exactDecimal code
  let length := exact.length
  ((List.range digitLimit).findSome? fun n =>
    p.neighbour? tie code exact (length - (n + 1))).getD exact

end Precision

namespace Floating

def ofDecimal {p : Precision} (negative : Bool) (d : Decimal) : Floating p :=
  .number negative ⟨p.codeOf d, by
    simp only [Precision.codeOf]
    split <;> exact Nat.lt_succ_of_le (p.nearestCode_le_infinity _ _)⟩

end Floating

end LinkedTables
