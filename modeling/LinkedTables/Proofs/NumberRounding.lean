import LinkedTables.Number.Decimal
import Mathlib.Tactic.Ring

/-! # Rounding keeps what can be represented

The magnitudes of the codes increase, and `codeBelow` inverts `units`, so a quotient that is the
magnitude of a code is rounded to this code.  That is why the exact expansion of a number reads
back as the number. -/

namespace LinkedTables

namespace Precision

variable {p : Precision}

theorem run_eq (p : Precision) : p.run = 2 ^ p.fractionBits :=
  rfl

theorem run_pos (p : Precision) : 0 < p.run :=
  Nat.pow_pos (by decide)

theorem exists_code (p : Precision) (code : Nat) :
    ∃ exponent place, place < p.run ∧ code = exponent * p.run + place :=
  ⟨code / p.run, code % p.run, Nat.mod_lt _ p.run_pos, by
    rw [Nat.mul_comm, Nat.div_add_mod]⟩

theorem units_of_lt {code : Nat} (small : code < p.run) : p.units code = code := by
  simp [units, significand, shift, Nat.div_eq_of_lt small]

/-- Every later run is spaced twice as widely as the one before. -/
theorem units_run {place : Nat} (inside : place < p.run) (exponent : Nat) :
    p.units ((exponent + 1) * p.run + place) = (p.run + place) * 2 ^ exponent := by
  have quotient : ((exponent + 1) * p.run + place) / p.run = exponent + 1 := by
    rw [Nat.mul_comm, Nat.mul_add_div p.run_pos, Nat.div_eq_of_lt inside]
  have significand : (exponent + 1) * p.run + place - exponent * p.run = p.run + place := by
    rw [Nat.add_mul, Nat.one_mul, Nat.add_assoc, Nat.add_sub_cancel_left]
  simp only [units, Precision.significand, shift, quotient, Nat.add_sub_cancel, significand]
  rfl

theorem units_lt_units_succ (p : Precision) (code : Nat) : p.units code < p.units (code + 1) := by
  obtain ⟨exponent, place, inside, rfl⟩ := p.exists_code code
  rcases Nat.lt_or_eq_of_le (Nat.succ_le_of_lt inside) with next | last
  · cases exponent with
    | zero =>
      rw [Nat.zero_mul, Nat.zero_add, units_of_lt inside, units_of_lt next]
      exact Nat.lt_succ_self place
    | succ exponent =>
      rw [Nat.add_assoc, units_run inside, units_run next]
      exact Nat.mul_lt_mul_of_pos_right (by omega) (Nat.pow_pos (by decide))
  · -- The last code of a run is followed by the first one of the next.
    have first : exponent * p.run + place + 1 = (exponent + 1) * p.run + 0 := by
      rw [Nat.add_mul, Nat.one_mul]
      omega
    rw [first, units_run p.run_pos]
    cases exponent with
    | zero =>
      rw [Nat.zero_mul, Nat.zero_add, units_of_lt inside]
      simpa using inside
    | succ exponent =>
      rw [units_run inside, Nat.pow_succ, Nat.mul_comm (2 ^ exponent), ← Nat.mul_assoc]
      exact Nat.mul_lt_mul_of_pos_right (by omega) (Nat.pow_pos (by decide))

theorem codeBelow_of_lt {n : Nat} (small : n < p.run) : p.codeBelow n = n := by
  have bits : n.log2 - p.fractionBits = 0 := by
    cases n with
    | zero => simp
    | succ n =>
      have log := (Nat.log2_lt (by omega)).mpr small
      omega
  simp [codeBelow, bits]

/-- A longer number begins like a significand, and the rest of it is cut off. -/
theorem codeBelow_mul {significand : Nat} (long : p.run ≤ significand)
    (short : significand < 2 * p.run) {rest exponent : Nat} (cut : rest < 2 ^ exponent) :
    p.codeBelow (significand * 2 ^ exponent + rest) = exponent * p.run + significand := by
  have positive : 0 < 2 ^ exponent := Nat.pow_pos (by decide)
  -- The leading bit is that of the significand, moved up.
  have log : (significand * 2 ^ exponent + rest).log2 = p.fractionBits + exponent := by
    have lower : 2 ^ (p.fractionBits + exponent) ≤ significand * 2 ^ exponent + rest := by
      rw [Nat.pow_add]
      exact (Nat.mul_le_mul_right _ long).trans (Nat.le_add_right ..)
    have upper : significand * 2 ^ exponent + rest < 2 ^ (p.fractionBits + exponent + 1) := by
      have next : (significand + 1) * 2 ^ exponent ≤ 2 * p.run * 2 ^ exponent :=
        Nat.mul_le_mul_right _ short
      rw [Nat.pow_succ, Nat.pow_add, ← run_eq]
      rw [Nat.add_mul, Nat.one_mul] at next
      calc significand * 2 ^ exponent + rest
          < significand * 2 ^ exponent + 2 ^ exponent := Nat.add_lt_add_left cut _
        _ ≤ 2 * p.run * 2 ^ exponent := next
        _ = p.run * 2 ^ exponent * 2 := by ring
    have nonzero : significand * 2 ^ exponent + rest ≠ 0 := by
      have least : 0 < 2 ^ (p.fractionBits + exponent) := Nat.pow_pos (by decide)
      omega
    exact (Nat.log2_eq_iff nonzero).mpr ⟨lower, upper⟩
  have shift : p.fractionBits + exponent - p.fractionBits = exponent := Nat.add_sub_cancel_left ..
  have quotient : (significand * 2 ^ exponent + rest) / 2 ^ exponent = significand := by
    rw [Nat.mul_comm, Nat.mul_add_div positive, Nat.div_eq_of_lt cut, Nat.add_zero]
  simp only [codeBelow, log, shift]
  exact congrArg (exponent * p.run + ·) quotient

@[simp] theorem codeBelow_units (p : Precision) (code : Nat) : p.codeBelow (p.units code) = code := by
  obtain ⟨exponent, place, inside, rfl⟩ := p.exists_code code
  cases exponent with
  | zero => rw [Nat.zero_mul, Nat.zero_add, units_of_lt inside, codeBelow_of_lt inside]
  | succ exponent =>
    have code := codeBelow_mul (p := p) (Nat.le_add_right p.run place) (by omega)
      (Nat.pow_pos (by decide : 0 < 2) (n := exponent))
    rw [Nat.add_zero] at code
    rw [units_run inside, code, Nat.add_mul, Nat.one_mul, Nat.add_assoc]

theorem nearestCode_units {code denominator : Nat} (finite : code < p.infinity)
    (positive : 0 < denominator) :
    p.nearestCode (p.units code * denominator) denominator = code := by
  have below : p.codeBelow (p.units code * denominator / denominator) = code := by
    rw [Nat.mul_div_cancel _ positive, codeBelow_units]
  -- Nothing is cut off, so the next code is never nearer.
  have nearer : 2 * (p.units code * denominator) <
      (p.units code + p.units (code + 1)) * denominator := by
    rw [← Nat.mul_assoc]
    have next := p.units_lt_units_succ code
    exact Nat.mul_lt_mul_of_pos_right (by omega) positive
  simp only [nearestCode, below, if_neg (Nat.not_le.mpr finite), if_pos nearer]

/-! ## Exact expansions -/

theorem codeOf_places (p : Precision) (digits places : Nat) :
    p.codeOf ⟨digits, -(places : Int)⟩ = p.nearestCode (digits * p.unitsPerOne) (10 ^ places) := by
  cases places with
  | zero =>
    show p.nearestCode (digits * Nat.pow 10 0 * p.unitsPerOne) 1 = _
    simp
  | succ places => rfl

/-- The exact expansion counts units of its last place, without a rest. -/
theorem exists_exactDecimal (p : Precision) (code : Nat) : ∃ digits places : Nat,
    p.exactDecimal code = ⟨digits, -(places : Int)⟩ ∧
      digits * p.unitsPerOne = p.units code * 10 ^ places := by
  by_cases nothing : code = 0
  case pos =>
    subst nothing
    refine ⟨0, 0, rfl, ?_⟩
    rw [units_of_lt p.run_pos, Nat.zero_mul, Nat.zero_mul]
  by_cases whole : p.unitPlaces ≤ p.shift code
  case pos =>
    have power : 2 ^ (p.shift code - p.unitPlaces) * 2 ^ p.unitPlaces = 2 ^ p.shift code := by
      rw [← Nat.pow_add, Nat.sub_add_cancel whole]
    refine ⟨p.significand code * 2 ^ (p.shift code - p.unitPlaces), 0, ?_, ?_⟩
    · rw [exactDecimal, if_neg nothing, if_pos whole]
      rfl
    · simp only [units, unitsPerOne, Nat.pow_eq, Nat.pow_zero, Nat.mul_one, Nat.mul_assoc, power]
  case neg =>
    obtain ⟨places, split⟩ := Nat.exists_eq_add_of_lt (Nat.not_le.mp whole)
    have count : p.unitPlaces - p.shift code = places + 1 := by omega
    refine ⟨p.significand code * 5 ^ (places + 1), places + 1, ?_, ?_⟩
    · rw [exactDecimal, if_neg nothing, if_neg whole, count]
      rfl
    · -- Dividing by a power of two is multiplying by fives behind as many decimal places.
      have power : 10 ^ (places + 1) = 2 ^ (places + 1) * 5 ^ (places + 1) := by
        rw [← Nat.mul_pow]
      simp only [units, unitsPerOne, Nat.pow_eq, split, power]
      ring

theorem codeOf_exactDecimal {code : Nat} (finite : code < p.infinity) :
    p.codeOf (p.exactDecimal code) = code := by
  obtain ⟨digits, places, exact, value⟩ := p.exists_exactDecimal code
  rw [exact, codeOf_places, value]
  exact nearestCode_units finite (Nat.pow_pos (by decide))

/-! ## Bounds -/

theorem codeBelow_bounds {n : Nat} (long : p.run ≤ n) :
    (n.log2 - p.fractionBits + 1) * p.run ≤ p.codeBelow n ∧
      p.codeBelow n < (n.log2 - p.fractionBits + 2) * p.run := by
  have nonzero : n ≠ 0 := Nat.ne_of_gt (Nat.lt_of_lt_of_le p.run_pos long)
  have bits : p.fractionBits ≤ n.log2 := (Nat.le_log2 nonzero).mpr long
  have positive : 0 < 2 ^ (n.log2 - p.fractionBits) := Nat.pow_pos (by decide)
  -- Shifted by the bits that it has too many, a magnitude lies within one run of codes.
  have lower : p.run ≤ n / 2 ^ (n.log2 - p.fractionBits) := by
    rw [Nat.le_div_iff_mul_le positive, run_eq, ← Nat.pow_add, Nat.add_sub_cancel' bits]
    exact Nat.log2_self_le nonzero
  have upper : n / 2 ^ (n.log2 - p.fractionBits) < 2 * p.run := by
    rw [Nat.div_lt_iff_lt_mul positive, run_eq, Nat.mul_assoc, ← Nat.pow_add,
      Nat.add_sub_cancel' bits, Nat.mul_comm, ← Nat.pow_succ]
    exact Nat.lt_log2_self
  have value : p.codeBelow n =
      (n.log2 - p.fractionBits) * p.run + n / 2 ^ (n.log2 - p.fractionBits) := rfl
  rw [value, Nat.add_mul, Nat.add_mul]
  omega

/-- How many bits the first magnitude out of range has, less one. -/
def topBits (p : Precision) : Nat :=
  p.fractionBits + p.runs - 1

theorem lt_of_nearestCode_lt {numerator denominator : Nat}
    (finite : p.nearestCode numerator denominator < p.infinity) :
    numerator / denominator < 2 ^ p.topBits := by
  by_contra large
  rw [Nat.not_lt] at large
  have long : p.run ≤ numerator / denominator := by
    refine le_trans (Nat.pow_le_pow_right (by decide) ?_) large
    cases p <;> decide
  have bits : p.topBits ≤ (numerator / denominator).log2 :=
    (Nat.le_log2 (Nat.ne_of_gt (Nat.lt_of_lt_of_le p.run_pos long))).mpr large
  have reached : p.infinity ≤ p.codeBelow (numerator / denominator) := by
    refine le_trans (Nat.mul_le_mul_right _ ?_) (codeBelow_bounds long).1
    simp only [topBits] at bits
    omega
  simp only [nearestCode, if_pos reached] at finite
  exact Nat.lt_irrefl _ finite

theorem nearestCode_lt_of_lt {numerator denominator bits : Nat}
    (small : numerator / denominator < 2 ^ bits) (room : bits < p.topBits) :
    p.nearestCode numerator denominator < p.infinity := by
  have below : p.codeBelow (numerator / denominator) + 1 < p.infinity := by
    by_cases short : numerator / denominator < p.run
    case pos =>
      rw [codeBelow_of_lt short]
      have spacious : p.run + 1 < p.infinity := by cases p <;> decide
      omega
    case neg =>
      rw [Nat.not_lt] at short
      have nonzero : numerator / denominator ≠ 0 :=
        Nat.ne_of_gt (Nat.lt_of_lt_of_le p.run_pos short)
      have log : (numerator / denominator).log2 < bits := (Nat.log2_lt nonzero).mpr small
      have upper := (codeBelow_bounds short).2
      -- The run of the code and the one behind it are still within range.
      have runs : (numerator / denominator).log2 - p.fractionBits + 2 + 1 ≤ p.runs := by
        have several : 3 ≤ p.runs := by cases p <;> decide
        simp only [topBits] at room
        omega
      have most : ((numerator / denominator).log2 - p.fractionBits + 2 + 1) * p.run ≤ p.infinity :=
        Nat.mul_le_mul_right _ runs
      rw [Nat.add_mul, Nat.one_mul] at most
      have positive := p.run_pos
      omega
  simp only [nearestCode]
  repeat' split
  all_goals omega

theorem exists_quotient (d : Decimal) : ∃ numerator denominator, 0 < denominator ∧
    ∀ p : Precision, p.codeOf d = p.nearestCode (numerator * p.unitsPerOne) denominator := by
  obtain ⟨digits, exponent⟩ := d
  cases exponent with
  | ofNat e => exact ⟨digits * Nat.pow 10 e, 1, by decide, fun _ => rfl⟩
  | negSucc e => exact ⟨digits, Nat.pow 10 (e + 1), Nat.pow_pos (by decide), fun _ => rfl⟩

theorem nearestCode_unitsPerOne_lt {numerator denominator bits : Nat} (positive : 0 < denominator)
    (small : numerator < 2 ^ bits * denominator) (room : bits + p.unitPlaces < p.topBits) :
    p.nearestCode (numerator * p.unitsPerOne) denominator < p.infinity := by
  refine nearestCode_lt_of_lt ?_ room
  rw [Nat.div_lt_iff_lt_mul positive, Nat.pow_add, Nat.mul_right_comm]
  exact Nat.mul_lt_mul_of_pos_right small (Nat.pow_pos (by decide))

theorem codeOf_double_lt {d : Decimal} (finite : Precision.single.codeOf d < infinity .single) :
    Precision.double.codeOf d < infinity .double := by
  obtain ⟨numerator, denominator, positive, code⟩ := exists_quotient d
  rw [code] at finite ⊢
  -- No number of the narrower format reaches `2 ^ 128`, far below the top of the wider one.
  have small : numerator < 2 ^ 128 * denominator := by
    have units := (Nat.div_lt_iff_lt_mul positive).mp (lt_of_nearestCode_lt finite)
    have split : 2 ^ topBits .single = 2 ^ 128 * unitsPerOne .single := by decide +kernel
    rw [split, Nat.mul_right_comm] at units
    exact Nat.lt_of_mul_lt_mul_right units
  exact nearestCode_unitsPerOne_lt positive small (by decide)

theorem codeOf_natural (p : Precision) (n : Nat) :
    p.codeOf ⟨n, 0⟩ = p.nearestCode (n * p.unitsPerOne) 1 := by
  show p.nearestCode (n * Nat.pow 10 0 * p.unitsPerOne) 1 = _
  simp

theorem codeOf_natural_lt {n : Nat} (small : n < 2 ^ 64) : p.codeOf ⟨n, 0⟩ < p.infinity := by
  have quotient : n < 2 ^ 64 * 1 := by rwa [Nat.mul_one]
  rw [codeOf_natural]
  exact nearestCode_unitsPerOne_lt Nat.one_pos quotient (by cases p <;> decide)

end Precision

end LinkedTables
