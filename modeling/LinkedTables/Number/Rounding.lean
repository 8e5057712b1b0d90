import LinkedTables.Number.Binary

/-! # Rounding to the nearest number

Every inexact step of the library goes through one function, `Precision.nearestCode`: the
code whose magnitude is nearest to a quotient of natural numbers, where a tie goes to the even
code.  The greatest finite code is odd, so the same rule sends a tie at the top of the range
to infinity.

`Precision.codeBelow` and `Precision.units` are adjoint: a code stands for at most `n` units
exactly when it is at most `codeBelow n`.  Monotonicity of rounding, and the fact that a
representable quotient is returned unchanged, both come from that.
-/

namespace LinkedTables

namespace Precision

/-- The greatest code that stands for at most `n` units. -/
def codeBelow (p : Precision) (n : Nat) : Nat :=
  let shift := n.log2 - p.fractionBits
  -- The quotient keeps its leading bit, and with it counts one run more.
  shift * p.run + n / Nat.pow 2 shift

/-- The code nearest to `numerator / denominator` units, an even one on a tie, and infinity
    for every quotient that no finite code is nearest to. -/
def nearestCode (p : Precision) (numerator denominator : Nat) : Nat :=
  let below := p.codeBelow (numerator / denominator)
  if p.infinity ≤ below then p.infinity
  else
    -- Twice the middle between the two neighbours, so that nothing is halved.
    let doubledMiddle := (p.units below + p.units (below + 1)) * denominator
    if 2 * numerator < doubledMiddle then below
    else if doubledMiddle < 2 * numerator then below + 1
    else if below % 2 = 0 then below else below + 1

theorem nearestCode_le_infinity (p : Precision) (numerator denominator : Nat) :
    p.nearestCode numerator denominator ≤ p.infinity := by
  simp only [nearestCode]
  repeat' split
  all_goals omega

end Precision

namespace Floating

variable {p : Precision}

def ofQuotient (negative : Bool) (numerator denominator : Nat) : Floating p :=
  .number negative
    ⟨p.nearestCode (numerator * p.unitsPerOne) denominator,
      Nat.lt_succ_of_le (p.nearestCode_le_infinity _ _)⟩

def ofNatural (n : Nat) : Floating p :=
  ofQuotient false n 1

def ofInteger (i : Int) : Floating p :=
  ofQuotient (decide (i < 0)) i.natAbs 1

/-- The nearest number of another format.  Going to the wider format is exact; going to the
    narrower one, a number too large becomes an infinity. -/
def convert {q : Precision} : Floating p → Floating q
  | .nan => .nan
  | .number negative code =>
    if code.val = p.infinity then infinite negative
    else ofQuotient negative (p.units code.val) p.unitsPerOne

/-- The nearest number to a finite number times the power `10 ^ exponent`, itself rounded. -/
def timesPower (x power : Floating p) : Floating p :=
  match x, power with
  | .number s a, .number t b =>
    if a.val = p.infinity ∨ b.val = p.infinity then infinite (s != t)
    else ofQuotient (s != t) (p.units a.val * p.units b.val) (p.unitsPerOne * p.unitsPerOne)
  | _, _ => .nan

def dividedBy (x divisor : Floating p) : Floating p :=
  match x, divisor with
  | .number s a, .number t b =>
    if a.val = p.infinity then infinite (s != t)
    else ofQuotient (s != t) (p.units a.val) (p.units b.val)
  | _, _ => .nan

end Floating

end LinkedTables
