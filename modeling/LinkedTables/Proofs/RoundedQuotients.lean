import LinkedTables.Proofs.NumberRounding

/-! # How far rounding goes

A quotient is rounded to one of the two codes around it, so it is no farther from the result than half
the step between them.  A step is small beside the magnitudes that it separates, which bounds what
rounding adds to a quotient, and what several roundings add to one another. -/

namespace LinkedTables

namespace Precision

variable {p : Precision} {a b k code : Nat}

/-! ## Codes around a number -/

theorem units_strictMono (p : Precision) : StrictMono p.units :=
  strictMono_nat_of_lt_succ p.units_lt_units_succ

theorem units_mono (p : Precision) {code other : Nat} (le : code ≤ other) :
    p.units code ≤ p.units other :=
  p.units_strictMono.monotone le

@[simp] theorem units_run_self (p : Precision) : p.units p.run = p.run := by
  simpa using units_run p.run_pos 0

theorem units_succ_of_lt (small : code < p.run) : p.units (code + 1) = code + 1 := by
  rcases Nat.lt_or_eq_of_le (Nat.succ_le_of_lt small) with next | last
  · exact units_of_lt next
  · have first := p.units_run_self
    rwa [← last] at first

theorem units_run_succ {place : Nat} (inside : place < p.run) (exponent : Nat) :
    p.units ((exponent + 1) * p.run + place + 1) = (p.run + place + 1) * 2 ^ exponent := by
  rcases Nat.lt_or_eq_of_le (Nat.succ_le_of_lt inside) with next | last
  · rw [Nat.add_assoc, units_run next, Nat.add_assoc]
  · have first : (exponent + 1) * p.run + place + 1 = (exponent + 1 + 1) * p.run + 0 := by
      rw [Nat.add_mul (exponent + 1), Nat.one_mul]
      omega
    have double : p.run + place + 1 = p.run * 2 := by omega
    rw [first, units_run p.run_pos, Nat.pow_succ, double]
    ring

theorem units_succ_mul_run_le (long : p.run ≤ code) :
    p.units (code + 1) * p.run ≤ p.units code * (p.run + 1) := by
  obtain ⟨exponent, place, inside, rfl⟩ := p.exists_code code
  cases exponent with
  | zero => omega
  | succ exponent =>
    rw [units_run_succ inside, units_run inside]
    calc (p.run + place + 1) * 2 ^ exponent * p.run
        = ((p.run + place) * p.run + p.run) * 2 ^ exponent := by ring
      _ ≤ ((p.run + place) * p.run + (p.run + place)) * 2 ^ exponent :=
          Nat.mul_le_mul_right _ (Nat.add_le_add_left (Nat.le_add_right ..) _)
      _ = (p.run + place) * 2 ^ exponent * (p.run + 1) := by ring

/-- A number that is no shorter than a significand begins like one. -/
theorem exists_significand {n : Nat} (long : p.run ≤ n) : ∃ exponent place rest,
    place < p.run ∧ rest < 2 ^ exponent ∧ n = (p.run + place) * 2 ^ exponent + rest := by
  have nonzero : n ≠ 0 := Nat.ne_of_gt (Nat.lt_of_lt_of_le p.run_pos long)
  -- The leading bits of the number make up the significand, those behind them the rest.
  have bits : p.fractionBits ≤ n.log2 := (Nat.le_log2 nonzero).mpr long
  have positive : 0 < 2 ^ (n.log2 - p.fractionBits) := Nat.pow_pos (by decide)
  have lower : p.run ≤ n / 2 ^ (n.log2 - p.fractionBits) := by
    rw [Nat.le_div_iff_mul_le positive, run_eq, ← Nat.pow_add, Nat.add_sub_cancel' bits]
    exact Nat.log2_self_le nonzero
  have upper : n / 2 ^ (n.log2 - p.fractionBits) < 2 * p.run := by
    rw [Nat.div_lt_iff_lt_mul positive, run_eq, Nat.mul_assoc, ← Nat.pow_add,
      Nat.add_sub_cancel' bits, Nat.mul_comm, ← Nat.pow_succ]
    exact Nat.lt_log2_self
  refine ⟨n.log2 - p.fractionBits, n / 2 ^ (n.log2 - p.fractionBits) - p.run,
    n % 2 ^ (n.log2 - p.fractionBits), by omega, Nat.mod_lt _ positive, ?_⟩
  rw [Nat.add_sub_cancel' lower, Nat.mul_comm, Nat.div_add_mod]

theorem units_codeBelow (p : Precision) (n : Nat) :
    p.units (p.codeBelow n) ≤ n ∧ n < p.units (p.codeBelow n + 1) := by
  by_cases short : n < p.run
  case pos =>
    have next := p.units_lt_units_succ n
    rw [units_of_lt short] at next
    rw [codeBelow_of_lt short, units_of_lt short]
    exact ⟨Nat.le_refl n, next⟩
  case neg =>
    obtain ⟨exponent, place, rest, inside, cut, rfl⟩ := exists_significand (Nat.not_lt.mp short)
    have below : p.codeBelow ((p.run + place) * 2 ^ exponent + rest) =
        (exponent + 1) * p.run + place := by
      rw [codeBelow_mul (Nat.le_add_right ..) (by omega) cut]
      ring
    rw [below, units_run inside, units_run_succ inside, Nat.add_mul (p.run + place), Nat.one_mul]
    exact ⟨Nat.le_add_right .., Nat.add_lt_add_left cut _⟩

theorem le_codeBelow (long : p.run ≤ a) : p.run ≤ p.codeBelow a := by
  refine le_trans ?_ (codeBelow_bounds long).1
  exact Nat.le_mul_of_pos_left _ (Nat.succ_pos _)

/-! ## Rounding -/

/-- Only the quotient matters. -/
theorem nearestCode_mul (p : Precision) (positive : 0 < k) (a b : Nat) :
    p.nearestCode (k * a) (k * b) = p.nearestCode a b := by
  have middle (below : Nat) : (p.units below + p.units (below + 1)) * (k * b) =
      k * ((p.units below + p.units (below + 1)) * b) := by ring
  have twice : 2 * (k * a) = k * (2 * a) := by ring
  simp only [nearestCode, Nat.mul_div_mul_left _ _ positive, middle, twice,
    Nat.mul_lt_mul_left positive]

theorem nearestCode_zero (p : Precision) (positive : 0 < b) : p.nearestCode 0 b = 0 := by
  have zero := nearestCode_units (p := p) (show 0 < p.infinity by cases p <;> decide) positive
  rwa [units_of_lt p.run_pos, Nat.zero_mul] at zero

/-- Twice the middle behind a code. -/
def middle (p : Precision) (code : Nat) : Nat :=
  p.units code + p.units (code + 1)

/-- A quotient is out of range, or it is rounded down or up within the step around it, to the even
    code from the middle of the step. -/
theorem nearestCode_cases (p : Precision) (a b : Nat) :
    let below := p.codeBelow (a / b)
    (p.infinity ≤ below ∧ p.nearestCode a b = p.infinity) ∨
      (below < p.infinity ∧ p.nearestCode a b = below ∧
        (2 * a < p.middle below * b ∨ 2 * a = p.middle below * b ∧ below % 2 = 0)) ∨
      (below < p.infinity ∧ p.nearestCode a b = below + 1 ∧
        (p.middle below * b < 2 * a ∨ p.middle below * b = 2 * a ∧ below % 2 = 1)) := by
  simp only [nearestCode, middle]
  generalize p.codeBelow (a / b) = below
  by_cases beyond : p.infinity ≤ below
  case pos => exact .inl ⟨beyond, if_pos beyond⟩
  case neg =>
  rw [if_neg beyond]
  by_cases nearer : 2 * a < (p.units below + p.units (below + 1)) * b
  case pos => exact .inr (.inl ⟨Nat.not_le.mp beyond, if_pos nearer, .inl nearer⟩)
  case neg =>
  rw [if_neg nearer]
  by_cases farther : (p.units below + p.units (below + 1)) * b < 2 * a
  case pos => exact .inr (.inr ⟨Nat.not_le.mp beyond, if_pos farther, .inl farther⟩)
  case neg =>
  rw [if_neg farther]
  -- What is left is the middle of the step.
  have half : 2 * a = (p.units below + p.units (below + 1)) * b := by omega
  by_cases even : below % 2 = 0
  case pos => exact .inr (.inl ⟨Nat.not_le.mp beyond, if_pos even, .inr ⟨half, even⟩⟩)
  case neg =>
    refine .inr (.inr ⟨Nat.not_le.mp beyond, if_neg even, .inr ⟨half.symm, by omega⟩⟩)

/-- What is not rounded to zero is at least half a unit. -/
theorem le_of_nearestCode_ne_zero (nonzero : p.nearestCode a b ≠ 0) : b ≤ 2 * a := by
  by_contra small
  have quotient : a / b = 0 := Nat.div_eq_of_lt (by omega)
  have below : p.codeBelow 0 = 0 := codeBelow_of_lt p.run_pos
  have first : p.middle 0 = 1 := by cases p <;> decide
  have range : 0 < p.infinity := by cases p <;> decide
  have rounded := p.nearestCode_cases a b
  simp only [quotient, below, first, Nat.one_mul] at rounded
  omega

/-- A quotient that is rounded to a finite code is not above the middle behind it. -/
theorem twice_le_of_nearestCode (positive : 0 < b) (finite : p.nearestCode a b < p.infinity) :
    2 * a ≤ p.middle (p.nearestCode a b) * b := by
  rcases p.nearestCode_cases a b with ⟨_, rounded⟩ | ⟨_, rounded, near⟩ | ⟨_, rounded, _⟩
  · omega
  · rw [rounded]
    omega
  · -- Both the code above and its successor are above the quotient.
    have above := (p.units_codeBelow (a / b)).2
    rw [Nat.div_lt_iff_lt_mul positive] at above
    have next := Nat.mul_le_mul_right b
      (p.units_mono (Nat.le_add_right (p.codeBelow (a / b) + 1) 1))
    rw [rounded, middle, Nat.add_mul]
    omega

theorem nearestCode_lt_of_middle (positive : 0 < b)
    (small : 2 * a < p.middle (p.infinity - 1) * b) : p.nearestCode a b < p.infinity := by
  have top : p.infinity - 1 + 1 = p.infinity := by cases p <;> decide
  rcases p.nearestCode_cases a b with ⟨beyond, _⟩ | ⟨within, rounded, _⟩ | ⟨within, rounded, far⟩
  · -- What lies at or behind infinity lies behind the middle before it.
    have least := (p.units_codeBelow (a / b)).1
    rw [Nat.le_div_iff_mul_le positive] at least
    have large := Nat.mul_le_mul_right b (p.units_mono beyond)
    have ordered := Nat.mul_le_mul_right b (p.units_mono (Nat.sub_le p.infinity 1))
    rw [middle, top, Nat.add_mul] at small
    omega
  · rwa [rounded]
  · by_cases last : p.codeBelow (a / b) = p.infinity - 1
    · rw [last] at far
      omega
    · omega

/-- Rounding adds at most half of a step, which is little beside a number that is not too small. -/
theorem units_nearestCode_mul_le (positive : 0 < b) (long : p.run ≤ a / b) :
    2 * p.run * (p.units (p.nearestCode a b) * b) ≤ (2 * p.run + 1) * a := by
  have least := (p.units_codeBelow (a / b)).1
  rw [Nat.le_div_iff_mul_le positive] at least
  have down : 2 * p.run * (p.units (p.codeBelow (a / b)) * b) ≤ (2 * p.run + 1) * a :=
    Nat.mul_le_mul (Nat.le_succ _) least
  rcases p.nearestCode_cases a b with ⟨beyond, rounded⟩ | ⟨_, rounded, _⟩ | ⟨_, rounded, far⟩
  · rw [rounded]
    have lower := Nat.mul_le_mul_right b (p.units_mono beyond)
    exact le_trans (Nat.mul_le_mul_left _ lower) down
  · rwa [rounded]
  · rw [rounded]
    have step := Nat.mul_le_mul_right b (units_succ_mul_run_le (le_codeBelow long))
    have half : p.middle (p.codeBelow (a / b)) * b ≤ 2 * a := by omega
    rw [middle] at half
    generalize p.units (p.codeBelow (a / b)) = below at *
    generalize p.units (p.codeBelow (a / b) + 1) = above at *
    calc 2 * p.run * (above * b)
        = p.run * (above * b) + above * p.run * b := by ring
      _ ≤ p.run * (above * b) + below * (p.run + 1) * b := Nat.add_le_add_left step _
      _ = p.run * ((below + above) * b) + below * b := by ring
      _ ≤ p.run * (2 * a) + a := Nat.add_le_add (Nat.mul_le_mul_left _ half) least
      _ = (2 * p.run + 1) * a := by ring

end Precision

end LinkedTables
