import LinkedTables.Json.Decoding
import LinkedTables.Proofs.RoundedQuotients

/-! # Significands times powers of ten

A numeral is evaluated as its significand times, or over, a power of ten, with a rounding at each step.
As long as both factors can be represented, only the last step rounds, and the result is the number
nearest to the decimal.  Otherwise the roundings add up, but by so little that a decimal which is
rounded to a finite number never comes out as an infinity, unless it is one of the greatest. -/

namespace LinkedTables

namespace Precision

variable {p : Precision} {s e code : Nat}

/-! ## Numbers that can be represented -/

/-- A number that is no longer than a significand is a code at any place. -/
theorem exists_units_eq (small : s ≤ 2 * p.run) (e : Nat) : ∃ code, p.units code = s * 2 ^ e := by
  by_cases zero : s = 0
  case pos => exact ⟨0, by rw [zero, Nat.zero_mul, units_of_lt p.run_pos]⟩
  case neg =>
  by_cases whole : s = 2 * p.run
  case pos =>
    refine ⟨(e + 1 + 1) * p.run + 0, ?_⟩
    rw [units_run p.run_pos, whole, Nat.pow_succ]
    ring
  case neg =>
  by_cases short : s * 2 ^ e < p.run
  case pos => exact ⟨s * 2 ^ e, units_of_lt short⟩
  case neg =>
  -- Moved up by `k` bits the number begins at the leading bit of a significand.
  have bits : s.log2 ≤ p.fractionBits := by
    have log := (Nat.log2_lt zero (k := p.fractionBits + 1)).mpr (by rw [Nat.pow_succ, ← run_eq]; omega)
    omega
  obtain ⟨k, top⟩ := Nat.exists_eq_add_of_le bits
  have lower : p.run ≤ s * 2 ^ k := by
    rw [run_eq, top, Nat.pow_add]
    exact Nat.mul_le_mul_right _ (Nat.log2_self_le zero)
  have upper : s * 2 ^ k < 2 * p.run := by
    have log : s < 2 ^ (s.log2 + 1) := Nat.lt_log2_self
    rw [run_eq, top, Nat.pow_add, ← Nat.mul_assoc, Nat.mul_comm 2, ← Nat.pow_succ]
    exact Nat.mul_lt_mul_of_pos_right log (Nat.pow_pos (by decide))
  have enough : k ≤ e := by
    by_contra fewer
    obtain ⟨more, rest⟩ := Nat.exists_eq_add_of_lt (Nat.not_le.mp fewer)
    have half : s * 2 ^ e * 2 ≤ s * 2 ^ k := by
      rw [Nat.mul_assoc, ← Nat.pow_succ]
      exact Nat.mul_le_mul_left _ (Nat.pow_le_pow_right (by decide) (by omega))
    omega
  obtain ⟨exponent, rfl⟩ := Nat.exists_eq_add_of_le enough
  refine ⟨(exponent + 1) * p.run + (s * 2 ^ k - p.run), ?_⟩
  rw [units_run (by omega), Nat.add_sub_cancel' lower, Nat.pow_add]
  ring

theorem unitsPerOne_eq (p : Precision) : p.unitsPerOne = 2 ^ p.unitPlaces :=
  rfl

theorem unitsPerOne_pos (p : Precision) : 0 < p.unitsPerOne :=
  Nat.pow_pos (by decide)

theorem run_le_unitsPerOne (p : Precision) : p.run ≤ p.unitsPerOne :=
  Nat.pow_le_pow_right (by decide) (by cases p <;> decide)

theorem lt_infinity_of_units_lt (small : p.units code < p.units p.infinity) : code < p.infinity := by
  by_contra beyond
  exact absurd (p.units_mono (Nat.not_lt.mp beyond)) (Nat.not_le.mpr small)

end Precision

namespace Floating

open Precision (double)

/-- A double that is a natural number. -/
def IsNatural (x : Double) (n : Nat) : Prop :=
  ∃ code, x = number false code ∧ code.val < double.infinity ∧
    double.units code.val = n * double.unitsPerOne

/-- Numbers are kept exactly if their bits fit in a significand. -/
theorem isNatural_ofNatural {s e : Nat} (small : s ≤ 2 ^ 53) (low : e ≤ 64) :
    (ofNatural (s * 2 ^ e)).IsNatural (s * 2 ^ e) := by
  obtain ⟨code, exact⟩ := Precision.exists_units_eq (p := .double) (s := s) small (e + double.unitPlaces)
  have units : double.units code = s * 2 ^ e * double.unitsPerOne := by
    rw [exact, Nat.pow_add, ← Nat.mul_assoc, ← Precision.unitsPerOne_eq]
  have finite : code < double.infinity := by
    refine Precision.lt_infinity_of_units_lt ?_
    have top : 2 ^ 53 * 2 ^ 64 * double.unitsPerOne < double.units double.infinity := by
      decide +kernel
    rw [units]
    refine Nat.lt_of_le_of_lt (Nat.mul_le_mul_right _ (Nat.mul_le_mul small ?_)) top
    exact Nat.pow_le_pow_right (by decide) low
  have rounded := Precision.nearestCode_units finite Nat.one_pos
  rw [Nat.mul_one, units] at rounded
  refine ⟨⟨_, Nat.lt_succ_of_le (double.nearestCode_le_infinity _ _)⟩, rfl, ?_, ?_⟩
  · exact Nat.lt_of_le_of_lt (Nat.le_of_eq rounded) finite
  · exact (congrArg double.units rounded).trans units

theorem powerOfTen_eq (n : Nat) : Json.powerOfTen n = ofNatural (10 ^ n) := by
  simp [Json.powerOfTen, ofDecimal, ofNatural, ofQuotient, Precision.codeOf]

theorem isNatural_powerOfTen {k : Nat} (small : k ≤ 22) : (Json.powerOfTen k).IsNatural (10 ^ k) := by
  have split : 10 ^ k = 5 ^ k * 2 ^ k := Nat.mul_pow 5 2 k
  have fits : 5 ^ k ≤ 2 ^ 53 := le_trans (Nat.pow_le_pow_right (by decide) small) (by decide)
  have kept := isNatural_ofNatural (e := k) fits (by omega)
  rwa [powerOfTen_eq, split]

variable {x y : Double} {m n : Nat}

theorem ofQuotient_congr {p : Precision} {negative : Bool} {a b a' b' : Nat}
    (rounded : p.nearestCode (a * p.unitsPerOne) b = p.nearestCode (a' * p.unitsPerOne) b') :
    (ofQuotient negative a b : Floating p) = ofQuotient negative a' b' := by
  simp only [ofQuotient, rounded]

theorem IsNatural.timesPower_eq (left : x.IsNatural m) (right : y.IsNatural n) :
    x.timesPower y = ofNatural (m * n) := by
  obtain ⟨a, rfl, finite, units⟩ := left
  obtain ⟨b, rfl, finite', units'⟩ := right
  rw [timesPower, if_neg (by omega), units, units']
  refine ofQuotient_congr ?_
  have factor : m * double.unitsPerOne * (n * double.unitsPerOne) * double.unitsPerOne =
      double.unitsPerOne * double.unitsPerOne * (m * n * double.unitsPerOne) := by ring
  have rounded := double.nearestCode_mul (k := double.unitsPerOne * double.unitsPerOne)
    (Nat.mul_pos double.unitsPerOne_pos double.unitsPerOne_pos) (m * n * double.unitsPerOne) 1
  rwa [Nat.mul_one, ← factor] at rounded

theorem IsNatural.dividedBy_eq (left : x.IsNatural m) (right : y.IsNatural n) :
    x.dividedBy y = ofQuotient false m n := by
  obtain ⟨a, rfl, finite, units⟩ := left
  obtain ⟨b, rfl, finite', units'⟩ := right
  rw [dividedBy, if_neg (by omega), units, units']
  refine ofQuotient_congr ?_
  have rounded := double.nearestCode_mul double.unitsPerOne_pos
    (m * double.unitsPerOne) n
  rwa [Nat.mul_comm _ (m * _), Nat.mul_comm _ n] at rounded

end Floating

namespace Json

open Precision (double)

theorem scale_of_short {significand : Nat} {exponent : Int} (small : significand ≤ 2 ^ 53)
    (low : exponent.natAbs ≤ 22) :
    scale (.ofNatural significand) exponent = some (.ofDecimal false ⟨significand, exponent⟩) := by
  have kept : (Floating.ofNatural significand).IsNatural significand := by
    simpa using Floating.isNatural_ofNatural (e := 0) small (by decide)
  have power := Floating.isNatural_powerOfTen low
  rw [scale, if_pos (by rw [greatestPower]; omega), kept.timesPower_eq power, kept.dividedBy_eq power]
  cases exponent with
  | ofNat e =>
    have finite : double.nearestCode (significand * 10 ^ e * double.unitsPerOne) 1 <
        double.infinity := by
      have bound : 2 ^ 53 * 10 ^ 22 < 2 ^ 142 * 1 := by decide
      have below : significand * 10 ^ e < 2 ^ 142 * 1 :=
        Nat.lt_of_le_of_lt (Nat.mul_le_mul small (Nat.pow_le_pow_right (by decide) low)) bound
      exact Precision.nearestCode_unitsPerOne_lt Nat.one_pos below (by decide)
    have within : (Floating.ofNatural (significand * 10 ^ e) : Double).isInfinite = false :=
      beq_eq_false_iff_ne.mpr (Nat.ne_of_lt finite)
    rw [if_pos (show 0 ≤ Int.ofNat e from Int.natCast_nonneg e)]
    show (if (Floating.ofNatural (significand * 10 ^ e) : Double).isInfinite = true then none
      else some (Floating.ofNatural (significand * 10 ^ e) : Double)) = _
    rw [within]
    rfl
  | negSucc e =>
    rw [if_neg (by omega)]
    rfl

/-! ## Staying in range -/

/-- A negative power never leads out of range, in however many steps it is applied. -/
theorem scale_isSome_of_neg {exponent : Int} (negative : exponent < 0) (x : Double) :
    (scale x exponent).isSome = true := by
  induction size : exponent.natAbs using Nat.strongRecOn generalizing exponent x with
  | ind size inductionHypothesis =>
    rw [scale]
    split
    next => rw [if_neg (by omega)]; rfl
    next large =>
    rw [greatestPower] at large
    split
    next => rfl
    rw [if_neg (by omega)]
    exact inductionHypothesis _ (by rw [greatestPower]; omega) (by rw [greatestPower]; omega) _ rfl

/-- Twice the number in the middle behind the fourth greatest double. -/
def greatestSafe : Nat :=
  double.middle (double.infinity - 4)

/-- Two roundings add less than a few steps. -/
theorem twice_product_lt {r u v a b unit most limit : Nat} (left : r * u ≤ (r + 1) * (a * unit))
    (right : r * v ≤ (r + 1) * (b * unit)) (product : 2 * (a * b) * unit ≤ most)
    (room : (r + 1) * (r + 1) * most < r * r * limit) (positive : 0 < unit) :
    2 * (u * v * unit) < limit * (unit * unit) := by
  refine Nat.lt_of_mul_lt_mul_left (a := r * r) ?_
  calc r * r * (2 * (u * v * unit))
      = 2 * unit * ((r * u) * (r * v)) := by ring
    _ ≤ 2 * unit * ((r + 1) * (a * unit) * ((r + 1) * (b * unit))) :=
        Nat.mul_le_mul_left _ (Nat.mul_le_mul left right)
    _ = (r + 1) * (r + 1) * (2 * (a * b) * unit) * (unit * unit) := by ring
    _ ≤ (r + 1) * (r + 1) * most * (unit * unit) :=
        Nat.mul_le_mul_right _ (Nat.mul_le_mul_left _ product)
    _ < r * r * limit * (unit * unit) :=
        Nat.mul_lt_mul_of_pos_right room (Nat.mul_pos positive positive)
    _ = r * r * (limit * (unit * unit)) := by ring

/-- A natural number in range that is rounded to a double gains at most half a step. -/
theorem units_ofNatural_le {n : Nat} (positive : 0 < n) (safe : 2 * n * double.unitsPerOne ≤ greatestSafe) :
    ∃ code : Fin (double.infinity + 1), Floating.ofNatural n = .number false code ∧
      code.val < double.infinity ∧
      2 * double.run * double.units code.val ≤ (2 * double.run + 1) * (n * double.unitsPerOne) := by
  have long : double.run ≤ n * double.unitsPerOne / 1 := by
    rw [Nat.div_one]
    exact le_trans double.run_le_unitsPerOne (Nat.le_mul_of_pos_left _ positive)
  have gained := Precision.units_nearestCode_mul_le Nat.one_pos long
  have top : greatestSafe < double.middle (double.infinity - 1) * 1 := by
    decide +kernel
  rw [Nat.mul_one] at gained
  refine ⟨_, rfl, Precision.nearestCode_lt_of_middle Nat.one_pos ?_, gained⟩
  rw [← Nat.mul_assoc]
  omega

/-- A power of ten in range is no infinity. -/
theorem exists_powerOfTen {n : Nat} (small : n ≤ greatestPower) :
    ∃ code : Fin (double.infinity + 1), powerOfTen n = .number false code ∧
      code.val < double.infinity := by
  rw [Floating.powerOfTen_eq]
  have top : 2 * (10 ^ greatestPower * double.unitsPerOne) <
      double.middle (double.infinity - 1) * 1 := by decide +kernel
  have ordered : 10 ^ n ≤ 10 ^ greatestPower := Nat.pow_le_pow_right (by decide) small
  refine ⟨_, rfl, Precision.nearestCode_lt_of_middle Nat.one_pos ?_⟩
  exact Nat.lt_of_le_of_lt (Nat.mul_le_mul_left _ (Nat.mul_le_mul_right _ ordered)) top

/-- Nothing times a power of ten is nothing. -/
theorem scale_zero_isSome (exponent : Int) : (scale (.ofNatural 0) exponent).isSome = true := by
  have zero : (Floating.ofNatural 0 : Double) = .zero false := by
    have rounded := double.nearestCode_zero Nat.one_pos
    simp only [Floating.ofNatural, Floating.ofQuotient, Nat.zero_mul, rounded, Floating.zero]
  rw [zero]
  by_cases negative : exponent < 0
  case pos => exact scale_isSome_of_neg negative _
  case neg =>
  rw [scale]
  split
  case isTrue small =>
    obtain ⟨code, power, finite⟩ := exists_powerOfTen small
    have nothing : double.units 0 = 0 := Precision.units_of_lt double.run_pos
    have rounded := double.nearestCode_zero (b := double.unitsPerOne * double.unitsPerOne)
      (Nat.mul_pos double.unitsPerOne_pos double.unitsPerOne_pos)
    have product : (Floating.timesPower (.zero false) (powerOfTen exponent.natAbs)).isInfinite =
        false := by
      have away : ¬ (0 = double.infinity ∨ code.val = double.infinity) := by
        have range : 0 < double.infinity := by decide
        omega
      rw [power, Floating.zero, Floating.timesPower, if_neg away, nothing, Nat.zero_mul]
      simp only [Floating.ofQuotient, Nat.zero_mul, rounded]
      rfl
    rw [if_pos (by omega)]
    simp only [product]
    rfl
  case isFalse => rfl

theorem scale_isSome_of_safe {significand e : Nat}
    (safe : 2 * (significand * 10 ^ e) * double.unitsPerOne ≤ greatestSafe) :
    (scale (.ofNatural significand) e).isSome = true := by
  by_cases zero : significand = 0
  case pos =>
    rw [zero]
    exact scale_zero_isSome e
  case neg =>
  have positive : 0 < significand := Nat.pos_of_ne_zero zero
  have power : 0 < 10 ^ e := Nat.pow_pos (by decide)
  have safe_of_le {n : Nat} (le : n ≤ significand * 10 ^ e) :
      2 * n * double.unitsPerOne ≤ greatestSafe :=
    le_trans (Nat.mul_le_mul_right _ (Nat.mul_le_mul_left _ le)) safe
  -- A power that is not in the table would alone be more than is safe.
  have low : e ≤ greatestPower := by
    by_contra high
    have least : 10 ^ (greatestPower + 1) ≤ significand * 10 ^ e :=
      le_trans (Nat.pow_le_pow_right (by decide) (Nat.not_le.mp high))
        (Nat.le_mul_of_pos_left _ positive)
    have beyond : greatestSafe < 2 * 10 ^ (greatestPower + 1) * double.unitsPerOne := by
      decide +kernel
    exact absurd (safe_of_le least) (Nat.not_le.mpr beyond)
  -- Both factors gain at most half a unit of their last bit by rounding, for which what is safe
  -- leaves room.
  obtain ⟨a, left, finite, gained⟩ :=
    units_ofNatural_le positive (safe_of_le (Nat.le_mul_of_pos_right _ power))
  obtain ⟨b, right, finite', gained'⟩ :=
    units_ofNatural_le power (safe_of_le (Nat.le_mul_of_pos_left _ positive))
  have room : (2 * double.run + 1) * (2 * double.run + 1) * greatestSafe <
      2 * double.run * (2 * double.run) *
        double.middle (double.infinity - 1) := by decide +kernel
  have within := twice_product_lt gained gained' safe room double.unitsPerOne_pos
  have rounded := Precision.nearestCode_lt_of_middle
    (Nat.mul_pos double.unitsPerOne_pos double.unitsPerOne_pos) within
  have product : ((Floating.ofNatural significand).timesPower (powerOfTen e)).isInfinite = false := by
    rw [Floating.powerOfTen_eq, left, right, Floating.timesPower, if_neg (by omega)]
    exact beq_eq_false_iff_ne.mpr (Nat.ne_of_lt rounded)
  rw [scale, if_pos (by simpa using low), if_pos (Int.natCast_nonneg e), Int.natAbs_natCast]
  simp only [product]
  rfl

end Json

end LinkedTables
