import LinkedTables.Number.Decimal

/-! # Reading numerals

The grammars of the numbers that cells hold.  A whole number is an optional sign and at least
one ASCII digit; an unsigned one may carry a plus but no minus.  A real number has at least one
digit around an optional point, and after it an optional exponent; `inf`, `infinity` and `nan`
are read in any case.  Nothing here skips blanks.
-/

namespace LinkedTables

def readDigits (text : List Char) : Option Nat :=
  if text ≠ [] ∧ text.all Char.isDigit then some (Nat.ofDigitChars 10 text 0) else none

/-- A whole number without a minus sign. -/
def readNatural : List Char → Option Nat
  | '+' :: digits => readDigits digits
  | digits => readDigits digits

def readInteger : List Char → Option Int
  | '+' :: digits => (readDigits digits).map Int.ofNat
  | '-' :: digits => (readDigits digits).map fun n => -(n : Int)
  | digits => (readDigits digits).map Int.ofNat

def readBounded (least bound : Int) (text : List Char) :
    Option { i : Int // least ≤ i ∧ i < bound } :=
  match readInteger text with
  | some i => if h : least ≤ i ∧ i < bound then some ⟨i, h⟩ else none
  | none => none

def readBelow (bound : Nat) (text : List Char) : Option (Fin bound) :=
  match readNatural text with
  | some n => if h : n < bound then some ⟨n, h⟩ else none
  | none => none

/-- Once an exponent has reached this size its further digits are not counted. -/
def exponentCeiling : Nat := 0x10000

def exponentSize (digits : List Char) : Nat :=
  digits.foldl
    (fun size digit =>
      if size < exponentCeiling then 10 * size + (digit.toNat - '0'.toNat) else size) 0

def readExponentDigits (text : List Char) : Option Nat :=
  if text ≠ [] ∧ text.all Char.isDigit then some (exponentSize text) else none

def readExponent : List Char → Option Int
  | [] => some 0
  | mark :: '-' :: digits =>
    if mark = 'e' ∨ mark = 'E' then (readExponentDigits digits).map fun n => -(n : Int) else none
  | mark :: '+' :: digits =>
    if mark = 'e' ∨ mark = 'E' then (readExponentDigits digits).map Int.ofNat else none
  | mark :: digits =>
    if mark = 'e' ∨ mark = 'E' then (readExponentDigits digits).map Int.ofNat else none

/-- What follows the whole digits of a real number: its fraction digits and the rest. -/
def splitFraction : List Char → List Char × List Char
  | '.' :: rest => (rest.takeWhile Char.isDigit, rest.dropWhile Char.isDigit)
  | rest => ([], rest)

def readDecimal (text : List Char) : Option Decimal :=
  let whole := text.takeWhile Char.isDigit
  let (fraction, rest) := splitFraction (text.dropWhile Char.isDigit)
  if whole = [] ∧ fraction = [] then none
  else (readExponent rest).map fun exponent =>
    ⟨Nat.ofDigitChars 10 (whole ++ fraction) 0, exponent - fraction.length⟩

/-- An unsigned real number: digits, or the name of an infinity or of NaN in any case. -/
def readMagnitude (p : Precision) (negative : Bool) (text : List Char) : Option (Floating p) :=
  match readDecimal text with
  | some d => some (.ofDecimal negative d)
  | none =>
    let name := text.map Char.toLower
    if name = ['i', 'n', 'f'] ∨ name = ['i', 'n', 'f', 'i', 'n', 'i', 't', 'y'] then
      some (.infinite negative)
    else if name = ['n', 'a', 'n'] then some .nan
    else none

def readReal (p : Precision) : List Char → Option (Floating p)
  | '-' :: magnitude => readMagnitude p true magnitude
  | '+' :: magnitude => readMagnitude p false magnitude
  | magnitude => readMagnitude p false magnitude

def truthWords : List (List Char × Bool) :=
  [("true".toList, true), ("yes".toList, true), ("1".toList, true),
    ("false".toList, false), ("no".toList, false), ("0".toList, false)]

def readTruth (text : List Char) : Option Bool :=
  truthWords.lookup (text.map Char.toLower)

end LinkedTables
