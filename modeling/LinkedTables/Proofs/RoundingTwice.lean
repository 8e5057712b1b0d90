import LinkedTables.Proofs.RealNumerals
import LinkedTables.Proofs.ScaledNumbers

/-! # Rounding twice

A number of the narrower format is read in the wider one first.  The second rounding could go another
way than a single one only where the first one ends in the middle between two numbers of the narrower
format.  A decimal of few digits is either such a middle or well away from it, so there both ways agree. -/

namespace LinkedTables

namespace Precision

open Precision (single double)

variable {p : Precision} {a b code : Nat}

/-! ## Which quotients are rounded to a code -/

/-- A quotient lies before the middle behind a code and behind the middle before it; the middles
    themselves belong to even codes. -/
structure Nearest (p : Precision) (a b code : Nat) : Prop where
  behind : 2 * a < p.middle code * b ∨ 2 * a = p.middle code * b ∧ code % 2 = 0
  before : ∀ last, code = last + 1 →
    p.middle last * b < 2 * a ∨ p.middle last * b = 2 * a ∧ code % 2 = 0

theorem middle_lt_twice (p : Precision) (code : Nat) : p.middle code < 2 * p.units (code + 1) := by
  have step := p.units_lt_units_succ code
  rw [middle]
  omega

theorem twice_lt_middle (p : Precision) (code : Nat) : 2 * p.units code < p.middle code := by
  have step := p.units_lt_units_succ code
  rw [middle]
  omega

theorem nearest_nearestCode (positive : 0 < b) (finite : p.nearestCode a b < p.infinity) :
    p.Nearest a b (p.nearestCode a b) := by
  obtain ⟨least, above⟩ := p.units_codeBelow (a / b)
  rw [Nat.le_div_iff_mul_le positive] at least
  rw [Nat.div_lt_iff_lt_mul positive] at above
  rcases p.nearestCode_cases a b with ⟨_, rounded⟩ | ⟨_, rounded, near⟩ | ⟨_, rounded, far⟩
  · omega
  · rw [rounded]
    refine ⟨near, fun last same => .inl ?_⟩
    rw [same] at least
    have middle := Nat.mul_lt_mul_of_pos_right (p.middle_lt_twice last) positive
    rw [Nat.mul_assoc] at middle
    omega
  · rw [rounded]
    refine ⟨.inl ?_, fun last same => ?_⟩
    · have middle := Nat.mul_lt_mul_of_pos_right (p.twice_lt_middle (p.codeBelow (a / b) + 1)) positive
      rw [Nat.mul_assoc] at middle
      omega
    · obtain rfl := Nat.succ.inj same
      omega

theorem Nearest.eq (nearest : p.Nearest a b code) (positive : 0 < b) (finite : code < p.infinity) :
    p.nearestCode a b = code := by
  obtain ⟨least, above⟩ := p.units_codeBelow (a / b)
  rw [Nat.le_div_iff_mul_le positive] at least
  rw [Nat.div_lt_iff_lt_mul positive] at above
  -- The code below the quotient is the nearest one or the one before it.
  have upper : p.codeBelow (a / b) ≤ code := by
    have middle := Nat.mul_lt_mul_of_pos_right (p.middle_lt_twice code) positive
    rw [Nat.mul_assoc] at middle
    have below : p.units (p.codeBelow (a / b)) < p.units (code + 1) := by
      refine Nat.lt_of_mul_lt_mul_right (a := b) ?_
      have behind := nearest.behind
      omega
    exact Nat.lt_succ_iff.mp (p.units_strictMono.lt_iff_lt.mp below)
  have lower : code ≤ p.codeBelow (a / b) + 1 := by
    cases code with
    | zero => exact Nat.zero_le _
    | succ last =>
      have middle := Nat.mul_lt_mul_of_pos_right (p.twice_lt_middle last) positive
      rw [Nat.mul_assoc] at middle
      have below : p.units last < p.units (p.codeBelow (a / b) + 1) := by
        refine Nat.lt_of_mul_lt_mul_right (a := b) ?_
        have before := nearest.before last rfl
        omega
      exact p.units_strictMono.lt_iff_lt.mp below
  rcases Nat.lt_or_eq_of_le upper with before | same
  · have next : code = p.codeBelow (a / b) + 1 := by omega
    have last := nearest.before _ next
    rcases p.nearestCode_cases a b with ⟨_, rounded⟩ | ⟨_, rounded, near⟩ | ⟨_, rounded, _⟩ <;> omega
  · have behind := nearest.behind
    rw [← same] at behind
    rcases p.nearestCode_cases a b with ⟨_, rounded⟩ | ⟨_, rounded, _⟩ | ⟨_, rounded, far⟩ <;> omega

/-! ## Order -/

/-- Rounding goes up to no number beyond one that is no less than the quotient. -/
theorem nearestCode_le (positive : 0 < b) (le : a ≤ p.units code * b) : p.nearestCode a b ≤ code := by
  have least := (p.units_codeBelow (a / b)).1
  have quotient : a / b ≤ p.units code := Nat.div_le_of_le_mul (by rwa [Nat.mul_comm])
  have below : p.codeBelow (a / b) ≤ code :=
    p.units_strictMono.le_iff_le.mp (le_trans least quotient)
  rcases p.nearestCode_cases a b with ⟨_, _⟩ | ⟨_, _, _⟩ | ⟨_, _, far⟩
  · omega
  · omega
  · rcases Nat.lt_or_eq_of_le below with before | same
    · omega
    · have middle := Nat.mul_lt_mul_of_pos_right (p.twice_lt_middle code) positive
      rw [Nat.mul_assoc] at middle
      rw [same] at far
      omega

/-- Nor down beyond one that is no greater. -/
theorem le_nearestCode (positive : 0 < b) (range : code ≤ p.infinity) (le : p.units code * b ≤ a) :
    code ≤ p.nearestCode a b := by
  have above := (p.units_codeBelow (a / b)).2
  have quotient : p.units code ≤ a / b := (Nat.le_div_iff_mul_le positive).mpr le
  have below : code < p.codeBelow (a / b) + 1 :=
    p.units_strictMono.lt_iff_lt.mp (Nat.lt_of_le_of_lt quotient above)
  rcases p.nearestCode_cases a b with ⟨_, _⟩ | ⟨_, _, _⟩ | ⟨_, _, _⟩ <;> omega

theorem mul_le_units_nearestCode (positive : 0 < b) (long : p.run ≤ a / b)
    (finite : p.nearestCode a b < p.infinity) :
    2 * p.run * a ≤ (2 * p.run + 1) * (p.units (p.nearestCode a b) * b) := by
  have small : p.run < p.infinity := by cases p <;> decide
  have least : p.run ≤ p.nearestCode a b := by
    refine le_nearestCode positive (Nat.le_of_lt small) ?_
    rwa [units_run_self, ← Nat.le_div_iff_mul_le positive]
  have near := twice_le_of_nearestCode positive finite
  have step := units_succ_mul_run_le least
  rw [middle] at near
  generalize p.units (p.nearestCode a b) = here at near step ⊢
  generalize p.units (p.nearestCode a b + 1) = next at near step
  calc 2 * p.run * a
      = p.run * (2 * a) := by ring
    _ ≤ p.run * ((here + next) * b) := Nat.mul_le_mul_left _ near
    _ = (p.run * here + next * p.run) * b := by ring
    _ ≤ (p.run * here + here * (p.run + 1)) * b :=
        Nat.mul_le_mul_right _ (Nat.add_le_add_left step _)
    _ = (2 * p.run + 1) * (here * b) := by ring

/-! ## Middles -/

/-- A middle has one bit more than a significand. -/
theorem exists_middle_eq (p : Precision) (code : Nat) :
    ∃ s e, s ≤ 4 * p.run ∧ p.middle code = s * 2 ^ e := by
  obtain ⟨exponent, place, inside, rfl⟩ := p.exists_code code
  cases exponent with
  | zero =>
    refine ⟨2 * place + 1, 0, by omega, ?_⟩
    rw [Nat.zero_mul, Nat.zero_add, middle, units_of_lt inside, units_succ_of_lt inside]
    ring
  | succ exponent =>
    refine ⟨2 * (p.run + place) + 1, exponent, by omega, ?_⟩
    rw [middle, units_run inside, units_run_succ inside]
    ring

theorem eq_of_close {r x y : Nat} (small : x < r) (le : r * x ≤ (r + 1) * y)
    (ge : r * y ≤ (r + 1) * x) : x = y := by
  rw [Nat.add_mul, Nat.one_mul] at le ge
  rcases Nat.lt_trichotomy x y with below | same | above
  · have step := Nat.mul_le_mul_left r (Nat.succ_le_of_lt below)
    rw [Nat.mul_succ] at step
    omega
  · exact same
  · have step := Nat.mul_le_mul_left r (Nat.succ_le_of_lt above)
    rw [Nat.mul_succ] at step
    omega

/-- Numbers of few bits are equal if they are close, at whatever places their bits stand. -/
theorem mul_pow_eq_of_close {r x y i j : Nat} (smallLeft : x < r) (smallRight : y < r)
    (le : r * (x * 2 ^ i) ≤ (r + 1) * (y * 2 ^ j)) (ge : r * (y * 2 ^ j) ≤ (r + 1) * (x * 2 ^ i)) :
    x * 2 ^ i = y * 2 ^ j := by
  -- Without the zeros at the end that both have, they are the numbers of few bits themselves.
  rcases Nat.le_total i j with low | low
  · obtain ⟨k, rfl⟩ := Nat.exists_eq_add_of_le low
    have split : y * 2 ^ (i + k) = y * 2 ^ k * 2 ^ i := by rw [Nat.pow_add]; ring
    have positive : 0 < 2 ^ i := Nat.pow_pos (by decide)
    rw [split, ← Nat.mul_assoc r, ← Nat.mul_assoc (r + 1)] at le ge
    rw [split, eq_of_close smallLeft (Nat.le_of_mul_le_mul_right le positive)
      (Nat.le_of_mul_le_mul_right ge positive)]
  · obtain ⟨k, rfl⟩ := Nat.exists_eq_add_of_le low
    have split : x * 2 ^ (j + k) = x * 2 ^ k * 2 ^ j := by rw [Nat.pow_add]; ring
    have positive : 0 < 2 ^ j := Nat.pow_pos (by decide)
    rw [split, ← Nat.mul_assoc r, ← Nat.mul_assoc (r + 1)] at le ge
    rw [split, eq_of_close smallRight (Nat.le_of_mul_le_mul_right ge positive)
      (Nat.le_of_mul_le_mul_right le positive)]

/-! ## From the wider to the narrower format -/

/-- How many units of the wider format make up half a unit of the narrower. -/
def finer : Nat :=
  2 ^ (double.unitPlaces - single.unitPlaces - 1)

theorem finer_pos : 0 < finer :=
  Nat.pow_pos (by decide)

theorem double_unitsPerOne : double.unitsPerOne = 2 * finer * single.unitsPerOne := by
  rw [unitsPerOne_eq, unitsPerOne_eq, finer, ← Nat.pow_succ', ← Nat.pow_add]
  exact congrArg (2 ^ ·) rfl

theorem mul_double_unitsPerOne (a : Nat) :
    a * double.unitsPerOne = finer * (2 * (a * single.unitsPerOne)) := by
  rw [double_unitsPerOne]
  ring

/-- A middle of the narrower format is a number of the wider one. -/
theorem exists_middle_code (finite : code < single.infinity) :
    ∃ wide, double.units wide = single.middle code * finer ∧ wide ≤ double.infinity := by
  obtain ⟨s, e, small, middle⟩ := single.exists_middle_eq code
  -- A middle takes one bit more than the narrower format has, and the wider one has that bit.
  obtain ⟨wide, units⟩ := exists_units_eq (p := double) (s := s) (le_trans small (by decide))
    (e + (double.unitPlaces - single.unitPlaces - 1))
  have exact : double.units wide = single.middle code * finer := by
    rw [units, middle, finer, Nat.pow_add, Nat.mul_assoc]
  refine ⟨wide, exact, ?_⟩
  have top : 2 * single.units single.infinity * finer ≤ double.units double.infinity := by
    decide +kernel
  have below : single.middle code ≤ 2 * single.units single.infinity :=
    le_trans (Nat.le_of_lt (single.middle_lt_twice code))
      (Nat.mul_le_mul_left _ (single.units_mono finite))
  refine double.units_strictMono.le_iff_le.mp ?_
  rw [exact]
  exact le_trans (Nat.mul_le_mul_right _ below) top

/-- Rounding by way of the wider format makes no difference if that does not end in a middle. -/
theorem nearestCode_twice (positive : 0 < b)
    (finite : single.nearestCode (a * single.unitsPerOne) b < single.infinity)
    (clear : ∀ code, double.units (double.nearestCode (a * double.unitsPerOne) b) =
      single.middle code * finer → 2 * (a * single.unitsPerOne) = single.middle code * b) :
    single.nearestCode (double.units (double.nearestCode (a * double.unitsPerOne) b) *
        single.unitsPerOne) double.unitsPerOne =
      single.nearestCode (a * single.unitsPerOne) b := by
  -- Numbers of the wider format that bound the quotient bound what it is first rounded to.
  have upper {m : Nat} (le : finer * (2 * (a * single.unitsPerOne)) ≤ double.units m * b) :
      double.nearestCode (a * double.unitsPerOne) b ≤ m :=
    nearestCode_le positive (le_of_eq_of_le (mul_double_unitsPerOne a) le)
  have lower {m : Nat} (range : m ≤ double.infinity)
      (le : double.units m * b ≤ finer * (2 * (a * single.unitsPerOne))) :
      m ≤ double.nearestCode (a * double.unitsPerOne) b :=
    le_nearestCode positive range (le_of_le_of_eq le (mul_double_unitsPerOne a).symm)
  generalize double.nearestCode (a * double.unitsPerOne) b = wide at clear upper lower ⊢
  have nearest := nearest_nearestCode positive finite
  have narrow := single.nearestCode_mul single.unitsPerOne_pos
    (double.units wide) (2 * finer)
  rw [double_unitsPerOne, Nat.mul_comm (double.units wide), Nat.mul_comm (2 * finer), narrow]
  refine Nearest.eq ⟨?_, fun last same => ?_⟩ (Nat.mul_pos (by decide) finer_pos) finite
  · -- The middle is a number of the wider format, so the first rounding does not go beyond it.
    have side := nearest.behind
    obtain ⟨m, exact, _⟩ := exists_middle_code finite
    generalize single.nearestCode (a * single.unitsPerOne) b = code at side exact ⊢
    have within : double.units wide ≤ single.middle code * finer := by
      rw [← exact]
      refine double.units_mono (upper ?_)
      rw [exact, Nat.mul_comm (single.middle code), Nat.mul_assoc]
      exact Nat.mul_le_mul_left _ (by omega)
    have twice : single.middle code * (2 * finer) = 2 * (single.middle code * finer) := by ring
    rcases Nat.lt_or_eq_of_le within with inside | edge
    · omega
    · have half := clear code edge
      omega
  · -- From below it is the middle before the code that is not passed.
    have side := nearest.before last same
    obtain ⟨m, exact, range⟩ := exists_middle_code (show last < single.infinity by omega)
    have within : single.middle last * finer ≤ double.units wide := by
      rw [← exact]
      refine double.units_mono (lower range ?_)
      rw [exact, Nat.mul_comm (single.middle last), Nat.mul_assoc]
      exact Nat.mul_le_mul_left _ (by omega)
    have twice : single.middle last * (2 * finer) = 2 * (single.middle last * finer) := by ring
    rcases Nat.lt_or_eq_of_le within with inside | edge
    · omega
    · have half := clear last edge.symm
      omega

/-- A quotient of few bits is a middle if it is rounded to one. -/
theorem clear_of_few {x y i j : Nat} (positive : 0 < b)
    (finite : double.nearestCode (a * double.unitsPerOne) b < double.infinity)
    (range : double.run * b ≤ a * double.unitsPerOne) (few : x < 2 ^ 53)
    (value : 2 * (a * single.unitsPerOne) = x * 2 ^ i) (few' : y < 2 ^ 28) (value' : b = y * 2 ^ j)
    (edge : double.units (double.nearestCode (a * double.unitsPerOne) b) =
      single.middle code * finer) : 2 * (a * single.unitsPerOne) = single.middle code * b := by
  have long := (Nat.le_div_iff_mul_le positive).mpr range
  have le := units_nearestCode_mul_le positive long
  have ge := mul_le_units_nearestCode positive long finite
  obtain ⟨s, e, small, middle⟩ := single.exists_middle_eq code
  -- Both sides are few bits and a power of two.  One rounding has left them so close that they
  -- cannot differ.
  have bits : s * y < 2 ^ 53 := by
    have most : 4 * single.run * 2 ^ 28 = 2 ^ 53 := by decide
    rw [← most]
    exact Nat.mul_lt_mul_of_le_of_lt small few' (by decide)
  have product : single.middle code * b = s * y * 2 ^ (e + j) := by
    rw [middle, value', Nat.pow_add]
    ring
  rw [edge, Nat.mul_comm (single.middle code), Nat.mul_assoc finer, product,
    mul_double_unitsPerOne, value] at le ge
  rw [product, value]
  have up : 2 * double.run * (s * y * 2 ^ (e + j)) ≤ (2 * double.run + 1) * (x * 2 ^ i) := by
    refine Nat.le_of_mul_le_mul_left (le_of_eq_of_le ?_ (le_of_le_of_eq le ?_)) finer_pos <;> ring
  have down : 2 * double.run * (x * 2 ^ i) ≤ (2 * double.run + 1) * (s * y * 2 ^ (e + j)) := by
    refine Nat.le_of_mul_le_mul_left (le_of_eq_of_le ?_ (le_of_le_of_eq ge ?_)) finer_pos <;> ring
  exact mul_pow_eq_of_close few bits down up

end Precision

open Precision (single double)

/-- A decimal of few digits, none of them far behind the point. -/
def Decimal.Few (d : Decimal) : Prop :=
  match d.exponent with
  | .ofNat e => d.digits * 5 ^ e < 2 ^ 53
  | .negSucc e => d.digits < 2 ^ 53 ∧ e < 12

/-- A decimal of few digits may be rounded to the narrower format by way of the wider one. -/
theorem Decimal.Few.codeOf_twice {d : Decimal} (few : d.Few)
    (finite : single.codeOf d < single.infinity) :
    single.nearestCode (double.units (double.codeOf d) * single.unitsPerOne) double.unitsPerOne =
      single.codeOf d := by
  have wide := Precision.codeOf_double_lt finite
  obtain ⟨digits, exponent⟩ := d
  by_cases zero : digits = 0
  case pos =>
    have none := single.nearestCode_zero double.unitsPerOne_pos
    rw [zero, Precision.codeOf_zero, Precision.codeOf_zero, Precision.units_of_lt double.run_pos,
      Nat.zero_mul, none]
  case neg =>
  have positive : 0 < digits := Nat.pos_of_ne_zero zero
  have units : 2 * single.unitsPerOne = 2 ^ 150 := by decide
  -- Of a power of ten only the power of five needs bits; the power of two shifts them.
  cases exponent with
  | ofNat e =>
    refine Precision.nearestCode_twice Nat.one_pos finite fun code =>
      Precision.clear_of_few (x := digits * 5 ^ e) (i := 150 + e) (y := 1) (j := 0) Nat.one_pos wide
        ?_ few ?_ (by decide) rfl
    · rw [Nat.mul_one]
      refine le_trans double.run_le_unitsPerOne (Nat.le_mul_of_pos_left _ (Nat.mul_pos positive ?_))
      exact Nat.pow_pos (by decide)
    · have ten : Nat.pow 10 e = 5 ^ e * 2 ^ e := Nat.mul_pow 5 2 e
      rw [ten, Nat.pow_add, ← units]
      ring
  | negSucc e =>
    obtain ⟨few, near⟩ := few
    have ten : Nat.pow 10 (e + 1) = 5 ^ (e + 1) * 2 ^ (e + 1) := Nat.mul_pow 5 2 (e + 1)
    have power : 0 < Nat.pow 10 (e + 1) := Nat.pow_pos (by decide)
    refine Precision.nearestCode_twice power finite fun code =>
      Precision.clear_of_few (x := digits) (i := 150) (y := 5 ^ (e + 1)) (j := e + 1) power wide
        ?_ few ?_ ?_ ten
    · have range : double.run * 10 ^ 12 ≤ double.unitsPerOne := by decide +kernel
      have small : 10 ^ (e + 1) ≤ 10 ^ 12 := Nat.pow_le_pow_right (by decide) near
      exact le_trans (Nat.mul_le_mul_left _ small)
        (le_trans range (Nat.le_mul_of_pos_left _ positive))
    · rw [← units]
      ring
    · exact Nat.lt_of_le_of_lt (Nat.pow_le_pow_right (by decide) near) (by decide)

end LinkedTables
