import LinkedTables.Number.Decimal

/-! # How numbers are laid out

Two notations for numbers are written by this library, and both write the shortest digits that
read back.

* `Floating.display`, for cells and ranges, never uses an exponent and keeps no fraction that
  is zero.
* `Floating.numeral?`, for documents, keeps a fraction on every positional number and turns
  to an exponent outside a window that depends on the format.
-/

namespace LinkedTables

inductive ExponentSign where
  | absent
  | plus
  | minus
  deriving DecidableEq, Repr

structure Exponent where
  sign : ExponentSign
  digits : List Char
  deriving DecidableEq, Repr

/-- A number as it is written: digits before and behind the point, which is absent if none
    follow it, and an exponent. -/
structure Numeral where
  negative : Bool
  whole : List Char
  fraction : List Char
  exponent : Option Exponent
  deriving DecidableEq, Repr

namespace Exponent

def ofInteger (i : Int) : Exponent :=
  ⟨if i < 0 then .minus else .plus, Nat.toDigits 10 i.natAbs⟩

def chars (exponent : Exponent) : List Char :=
  match exponent.sign with
  | .absent => 'e' :: exponent.digits
  | .plus => 'e' :: '+' :: exponent.digits
  | .minus => 'e' :: '-' :: exponent.digits

end Exponent

namespace Numeral

def ofInteger (i : Int) : Numeral :=
  ⟨decide (i < 0), Nat.toDigits 10 i.natAbs, [], none⟩

def chars (numeral : Numeral) : List Char :=
  let sign := if numeral.negative then ['-'] else []
  let fraction := if numeral.fraction = [] then [] else '.' :: numeral.fraction
  let exponent := match numeral.exponent with
    | some exponent => exponent.chars
    | none => []
  sign ++ numeral.whole ++ fraction ++ exponent

end Numeral

namespace Decimal

def positional (d : Decimal) : List Char × List Char :=
  let digits := Nat.toDigits 10 d.digits
  match d.exponent with
  | .ofNat zeros => (digits ++ List.replicate zeros '0', [])
  | .negSucc places =>
    -- At least one digit stands before the point.
    let zeros := List.replicate (places + 2 - digits.length) '0'
    let padded := zeros ++ digits
    (padded.take (padded.length - (places + 1)), padded.drop (padded.length - (places + 1)))

def leadingExponent (d : Decimal) : Int :=
  (Nat.toDigits 10 d.digits).length - 1 + d.exponent

end Decimal

/-! ## Cells and ranges -/

namespace Floating

variable {p : Precision}

/-- The characters that show a number in a cell: shortest digits, a tie going up, no exponent. -/
def displayChars : Floating p → List Char
  | .nan => ['N', 'a', 'N']
  | .number negative code =>
    if code.val = p.infinity then (if negative then ['-', 'i', 'n', 'f'] else ['i', 'n', 'f'])
    else
      let (whole, fraction) := (p.shortest .upward code.val).positional
      Numeral.chars ⟨negative, whole, fraction, none⟩

def display (x : Floating p) : String :=
  String.ofList x.displayChars

end Floating

/-! ## Documents -/

namespace Precision

/-- The least exponent of a first digit that is written without an exponent. -/
def leastPositional : Precision → Int
  | .single => -6
  | .double => -5

def greatestPositional : Precision → Int
  | .single => 12
  | .double => 15

end Precision

namespace Floating

variable {p : Precision}

/-- The numeral that stands for a number in a document, where NaN and the infinities have none:
    shortest digits, a tie going to the even digit. -/
def numeral? : Floating p → Option Numeral
  | .nan => none
  | .number negative code =>
    if code.val = p.infinity then none
    else
      let d := p.shortest .toEven code.val
      let lead := d.leadingExponent
      if p.leastPositional ≤ lead ∧ lead ≤ p.greatestPositional then
        let (whole, fraction) := d.positional
        some ⟨negative, whole, if fraction = [] then ['0'] else fraction, none⟩
      else
        let digits := Nat.toDigits 10 d.digits
        some ⟨negative, digits.take 1, digits.drop 1, some (.ofInteger lead)⟩

end Floating

end LinkedTables
