import LinkedTables.Proofs.RoundingTwice
import Mathlib.Data.Nat.Dist

/-! # The shortest decimals

A number is shown by a decimal of fewest digits among all that are read as the number, by the nearest
of these, and by the greater one of two that are equally near.  The search looks at two decimals for
each number of digits only, the neighbours of the number.  That is enough because the decimals that are
read as the number have no gaps between them: one on the same grid that is farther away brings the
neighbour on its side with it.  Seventeen digits are always enough, for with so many the neighbours are
closer to each other than the numbers of either format are. -/

namespace LinkedTables

/-! ## Scales -/

/-- The decimal is a count of units of the last of some places behind the point. -/
def Decimal.Counts (d : Decimal) (places count : Nat) : Prop :=
  ∃ zeros : Nat, d.exponent + places = zeros ∧ d.digits * 10 ^ zeros = count

namespace Precision

variable {p : Precision} {places code a b w : Nat}

/-- The code nearest to a count of units of the last of some places behind the point. -/
def codeAt (p : Precision) (places count : Nat) : Nat :=
  p.nearestCode (count * p.unitsPerOne) (10 ^ places)

theorem codeOf_of_counts {d : Decimal} {count : Nat} (counts : d.Counts places count) :
    p.codeOf d = p.codeAt places count := by
  obtain ⟨digits, exponent⟩ := d
  obtain ⟨zeros, scale, rfl⟩ := counts
  -- The places that are not those of the decimal extend the quotient above and below.
  cases exponent with
  | ofNat e =>
    obtain rfl : zeros = e + places := by
      have same : (e : Int) + places = zeros := scale
      omega
    have quotient := p.nearestCode_mul (k := 10 ^ places) (Nat.pow_pos (by decide))
      (digits * 10 ^ e * p.unitsPerOne) 1
    rw [codeAt, Nat.pow_add]
    show p.nearestCode (digits * 10 ^ e * p.unitsPerOne) 1 = _
    rw [← quotient, Nat.mul_one]
    congr 1
    ring
  | negSucc e =>
    obtain rfl : places = e + 1 + zeros := by
      have same : Int.negSucc e + places = zeros := scale
      omega
    have quotient := p.nearestCode_mul (k := 10 ^ zeros) (Nat.pow_pos (by decide))
      (digits * p.unitsPerOne) (10 ^ (e + 1))
    rw [codeAt, Nat.pow_add]
    show p.nearestCode (digits * p.unitsPerOne) (10 ^ (e + 1)) = _
    rw [← quotient]
    congr 1 <;> ring

/-- What lies between two counts that are rounded alike is rounded like them. -/
theorem codeAt_between (finite : code < p.infinity) (left : p.codeAt places a = code)
    (right : p.codeAt places b = code) (lower : a ≤ w) (upper : w ≤ b) :
    p.codeAt places w = code := by
  have positive : 0 < 10 ^ places := Nat.pow_pos (by decide)
  have leftNear := nearest_nearestCode (p := p) positive (left ▸ finite)
  have rightNear := nearest_nearestCode (p := p) positive (right ▸ finite)
  rw [codeAt] at left right
  rw [left] at leftNear
  rw [right] at rightNear
  have low := Nat.mul_le_mul_right p.unitsPerOne lower
  have high := Nat.mul_le_mul_right p.unitsPerOne upper
  -- The middle behind the code is beyond the greater count, the one before it is below the lesser.
  refine Nearest.eq ⟨?_, fun last same => ?_⟩ positive finite
  · have behind := rightNear.behind
    omega
  · have before := leftNear.before last same
    omega

theorem codeAt_of_value (finite : code < p.infinity)
    (value : w * p.unitsPerOne = p.units code * 10 ^ places) : p.codeAt places w = code := by
  rw [codeAt, value]
  exact nearestCode_units finite (Nat.pow_pos (by decide))

@[simp] theorem codeAt_zero (p : Precision) (places : Nat) : p.codeAt places 0 = 0 := by
  rw [codeAt, Nat.zero_mul, nearestCode_zero _ (Nat.pow_pos (by decide))]

end Precision

/-! ## Digits -/

/-- The number is written with some digits, and zeros behind them. -/
def FewDigits (count n : Nat) : Prop :=
  ∃ digits zeros, digits < 10 ^ count ∧ n = digits * 10 ^ zeros

variable {k t n w : Nat}

/-- A number with few digits that is not small has its zeros. -/
theorem FewDigits.dvd (few : FewDigits (k + 1) n) (large : 10 ^ (k + t) ≤ n) : 10 ^ t ∣ n := by
  obtain ⟨digits, zeros, small, rfl⟩ := few
  -- With fewer zeros the few digits would not reach as far.
  have more : k + t < k + 1 + zeros := by
    refine (Nat.pow_lt_pow_iff_right (a := 10) (by decide)).mp (Nat.lt_of_le_of_lt large ?_)
    rw [Nat.pow_add]
    exact Nat.mul_lt_mul_of_pos_right small (Nat.pow_pos (by decide))
  exact Dvd.dvd.mul_left (Nat.pow_dvd_pow 10 (by omega)) digits

theorem fewDigits_of_dvd (zeros : 10 ^ t ∣ n) (small : n ≤ 10 ^ (k + 1 + t)) :
    FewDigits (k + 1) n := by
  obtain ⟨digits, rfl⟩ := zeros
  rcases Nat.lt_or_eq_of_le small with less | equal
  · refine ⟨digits, t, ?_, Nat.mul_comm ..⟩
    rw [Nat.pow_add, Nat.mul_comm] at less
    exact Nat.lt_of_mul_lt_mul_right less
  · exact ⟨1, k + 1 + t, Nat.one_lt_pow (by omega) (by decide), by rw [equal, Nat.one_mul]⟩

/-- Zeros at the end do not count. -/
theorem fewDigits_mul_pow {zeros : Nat} : FewDigits k (n * 10 ^ zeros) ↔ FewDigits k n := by
  constructor
  · rintro ⟨digits, more, small, equal⟩
    rcases Nat.le_total zeros more with le | le
    · obtain ⟨rest, rfl⟩ := Nat.exists_eq_add_of_le le
      refine ⟨digits, rest, small,
        Nat.eq_of_mul_eq_mul_right (Nat.pow_pos (by decide)) (equal.trans ?_)⟩
      rw [Nat.pow_add]
      ring
    · -- The digits have zeros of their own.
      obtain ⟨rest, rfl⟩ := Nat.exists_eq_add_of_le le
      have whole : n * 10 ^ rest = digits := by
        refine Nat.eq_of_mul_eq_mul_right (Nat.pow_pos (n := more) (by decide : 0 < 10))
          (Eq.trans ?_ equal)
        rw [Nat.pow_add]
        ring
      refine ⟨n, 0, Nat.lt_of_le_of_lt ?_ small, by simp⟩
      rw [← whole]
      exact Nat.le_mul_of_pos_right _ (Nat.pow_pos (by decide))
  · rintro ⟨digits, more, small, rfl⟩
    exact ⟨digits, more + zeros, small, by rw [Nat.pow_add]; ring⟩

theorem FewDigits.mono {j : Nat} (few : FewDigits j n) (le : j ≤ k) : FewDigits k n := by
  obtain ⟨digits, zeros, small, equal⟩ := few
  exact ⟨digits, zeros, Nat.lt_of_lt_of_le small (Nat.pow_le_pow_right (by decide) le), equal⟩

theorem fewDigits_zero_iff : FewDigits 0 n ↔ n = 0 := by
  constructor
  · rintro ⟨digits, zeros, small, rfl⟩
    rw [Nat.pow_zero, Nat.lt_one_iff] at small
    rw [small, Nat.zero_mul]
  · rintro rfl
    exact ⟨0, 0, by decide, rfl⟩

/-! ## Neighbours -/

variable {drop exact m : Nat}

/-- The number with zeros for its last digits. -/
def cutDown (drop n : Nat) : Nat :=
  n / 10 ^ drop * 10 ^ drop

/-- The next number that has as many zeros. -/
def cutUp (drop n : Nat) : Nat :=
  (n / 10 ^ drop + 1) * 10 ^ drop

theorem cutDown_add_mod (drop n : Nat) : cutDown drop n + n % 10 ^ drop = n := by
  rw [cutDown, Nat.mul_comm, Nat.div_add_mod]

theorem cutUp_eq (drop n : Nat) : cutUp drop n = cutDown drop n + 10 ^ drop := by
  rw [cutUp, Nat.add_mul, Nat.one_mul, cutDown]

theorem cutDown_le (drop n : Nat) : cutDown drop n ≤ n := by
  have split := cutDown_add_mod drop n
  omega

theorem lt_cutUp (drop n : Nat) : n < cutUp drop n := by
  have split := cutDown_add_mod drop n
  have rest : n % 10 ^ drop < 10 ^ drop := Nat.mod_lt _ (Nat.pow_pos (by decide))
  rw [cutUp_eq]
  omega

theorem le_cutDown (zeros : 10 ^ drop ∣ w) (le : w ≤ n) : w ≤ cutDown drop n := by
  obtain ⟨digits, rfl⟩ := zeros
  rw [cutDown, Nat.mul_comm]
  refine Nat.mul_le_mul_right _ ((Nat.le_div_iff_mul_le (Nat.pow_pos (by decide))).mpr ?_)
  rwa [Nat.mul_comm]

theorem cutUp_le (zeros : 10 ^ drop ∣ w) (lt : n < w) : cutUp drop n ≤ w := by
  obtain ⟨digits, rfl⟩ := zeros
  rw [cutUp, Nat.mul_comm _ digits]
  refine Nat.mul_le_mul_right _ ((Nat.div_lt_iff_lt_mul (Nat.pow_pos (by decide))).mpr ?_)
  rwa [Nat.mul_comm]

theorem fewDigits_cutDown (small : n < 10 ^ (k + 1 + drop)) : FewDigits (k + 1) (cutDown drop n) :=
  fewDigits_of_dvd (Nat.dvd_mul_left ..) (le_trans (cutDown_le ..) (Nat.le_of_lt small))

theorem fewDigits_cutUp (small : n < 10 ^ (k + 1 + drop)) : FewDigits (k + 1) (cutUp drop n) :=
  fewDigits_of_dvd (Nat.dvd_mul_left ..)
    (cutUp_le (Nat.pow_dvd_pow 10 (Nat.le_add_left ..)) small)

/-- Of two numbers one is nearer to a third, or it is the greater one of two that are equally near. -/
def Nearer (exact n m : Nat) : Prop :=
  n.dist exact < m.dist exact ∨ n.dist exact = m.dist exact ∧ m < n

theorem nearer_mul {k : Nat} (positive : 0 < k) :
    Nearer (exact * k) (n * k) (m * k) ↔ Nearer exact n m := by
  simp only [Nearer, Nat.dist_mul_right, Nat.mul_lt_mul_right positive,
    Nat.mul_left_inj (Nat.ne_of_gt positive)]

theorem Nearer.asymm (nearer : Nearer exact n m) : ¬ Nearer exact m n := by
  rintro (less | ⟨equal, less⟩) <;> rcases nearer with less' | ⟨equal', less'⟩ <;> omega

theorem findSome?_range_cases {α : Type} {f : Nat → Option α} {limit : Nat} {answer : α}
    (search : (List.range limit).findSome? f = some answer) :
    ∃ place < limit, f place = some answer ∧ ∀ other < place, f other = none := by
  obtain ⟨before, place, rest, split, found, first⟩ := List.findSome?_eq_some_iff.mp search
  rw [List.range_eq_range', List.range'_eq_append_iff] at split
  obtain ⟨count, _, rfl, behind⟩ := split
  obtain ⟨rfl, _, _⟩ := List.range'_eq_cons_iff.mp behind.symm
  refine ⟨0 + count * 1, by omega, found, fun other less => first other (List.mem_range'_1.mpr ?_)⟩
  omega

namespace Decimal

variable {digits places : Nat}

theorem below_counts (digits places drop : Nat) :
    (Decimal.below ⟨digits, -(places : Int)⟩ drop).Counts places (cutDown drop digits) := by
  refine ⟨drop, ?_, rfl⟩
  show -(places : Int) + drop + places = drop
  omega

theorem above_counts (digits places drop : Nat) :
    (Decimal.above ⟨digits, -(places : Int)⟩ drop).Counts places (cutUp drop digits) := by
  simp only [above, Nat.pow_eq]
  split
  next carry =>
    refine ⟨drop + ((Nat.toDigits 10 (digits / 10 ^ drop + 1)).length - 1), ?_, ?_⟩
    · show -(places : Int) + drop + _ + places = _
      push_cast
      omega
    · rw [cutUp, Nat.one_mul, Nat.pow_add, Nat.mul_comm, ← carry]
  next =>
    refine ⟨drop, ?_, rfl⟩
    show -(places : Int) + drop + places = drop
    omega

theorem below_digits_lt (small : digits < 10 ^ (k + drop)) (exponent : Int) :
    (Decimal.below ⟨digits, exponent⟩ drop).digits < 10 ^ k := by
  rw [Nat.pow_add, Nat.mul_comm] at small
  exact Nat.div_lt_of_lt_mul small

theorem above_digits_lt (small : digits < 10 ^ (k + 1 + drop)) (exponent : Int) :
    (Decimal.above ⟨digits, exponent⟩ drop).digits < 10 ^ (k + 1) := by
  have next : digits / 10 ^ drop + 1 ≤ 10 ^ (k + 1) := by
    rw [Nat.pow_add, Nat.mul_comm] at small
    exact Nat.div_lt_of_lt_mul small
  simp only [above, Nat.pow_eq]
  split
  next => exact Nat.one_lt_pow (by omega) (by decide)
  next carry =>
    -- The power of ten itself has a digit more, so it is the carry.
    refine Nat.lt_of_le_of_ne next fun (full : digits / 10 ^ drop + 1 = 10 ^ (k + 1)) => carry ?_
    have upper := (Nat.length_toDigits_le_iff (n := 10 ^ (k + 1)) (k := k + 2) (by decide)
      (by omega)).mpr (Nat.pow_lt_pow_right (by decide) (by omega))
    have lower := mt (Nat.length_toDigits_le_iff (n := 10 ^ (k + 1)) (k := k + 1) (by decide)
      (by omega)).mp (Nat.lt_irrefl _)
    have width : (Nat.toDigits 10 (10 ^ (k + 1))).length - 1 = k + 1 := by omega
    rw [full, width]

end Decimal

namespace Precision

variable {p : Precision} {code digits places : Nat} {expansion found : Decimal}

theorem neighbour?_eq_none_iff {tie : TieRule} : p.neighbour? tie code expansion drop = none ↔
    p.codeOf (expansion.below drop) ≠ code ∧ p.codeOf (expansion.above drop) ≠ code := by
  simp only [neighbour?]
  split
  next low high =>
    exact ⟨fun _ => ⟨beq_eq_false_iff_ne.mp low, beq_eq_false_iff_ne.mp high⟩, fun _ => rfl⟩
  next low _ => simp [beq_iff_eq.mp low]
  next _ high => simp [beq_iff_eq.mp high]
  next low high =>
    simp only [beq_iff_eq.mp low, ne_eq, not_true_eq_false, false_and, iff_false]
    repeat' split
    all_goals simp

/-- The nearer neighbour is taken if both are read as the number. -/
theorem neighbour?_upward (chosen : p.neighbour? .upward code expansion drop = some found) :
    (found = expansion.below drop ∧ (p.codeOf (expansion.above drop) = code →
      2 * (expansion.digits % 10 ^ drop) < 10 ^ drop)) ∨
    (found = expansion.above drop ∧ (p.codeOf (expansion.below drop) = code →
      10 ^ drop ≤ 2 * (expansion.digits % 10 ^ drop))) := by
  simp only [neighbour?, Nat.pow_eq] at chosen
  split at chosen
  · contradiction
  next _ high =>
    exact .inl ⟨(Option.some.inj chosen).symm, fun reads => absurd reads (beq_eq_false_iff_ne.mp high)⟩
  next low _ =>
    exact .inr ⟨(Option.some.inj chosen).symm, fun reads => absurd reads (beq_eq_false_iff_ne.mp low)⟩
  next =>
    -- Half a step and more goes up.
    split at chosen
    next less => exact .inl ⟨(Option.some.inj chosen).symm, fun _ => less⟩
    next less =>
      have reached := Nat.not_lt.mp less
      split at chosen <;> exact .inr ⟨(Option.some.inj chosen).symm, fun _ => reached⟩

/-- Grid points between the number and one of few digits come back if that does. -/
theorem reads_of_few (finite : code < p.infinity) (itself : p.codeAt places digits = code)
    (large : 10 ^ (k + drop) ≤ digits) (few : FewDigits (k + 1) w)
    (reads : p.codeAt places w = code) :
    (w ≤ cutDown drop digits ∧ p.codeAt places (cutDown drop digits) = code) ∨
      (cutUp drop digits ≤ w ∧ p.codeAt places (cutUp drop digits) = code) := by
  rcases Nat.lt_or_ge digits w with above | below
  · have next := cutUp_le (few.dvd (le_trans large (Nat.le_of_lt above))) above
    exact .inr ⟨next, codeAt_between finite itself reads (Nat.le_of_lt (lt_cutUp ..)) next⟩
  · have last : w ≤ cutDown drop digits := by
      rcases Nat.lt_or_ge w (10 ^ (k + drop)) with small | long
      · exact le_trans (Nat.le_of_lt small)
          (le_cutDown (Nat.pow_dvd_pow 10 (Nat.le_add_left ..)) large)
      · exact le_cutDown (few.dvd long) below
    exact .inl ⟨last, codeAt_between finite reads itself last (cutDown_le ..)⟩

/-! ## Seventeen digits -/

theorem units_succ_le_step (p : Precision) (code : Nat) :
    p.units (code + 1) + 2 * p.run * p.units code ≤ 2 * p.run * p.units (code + 1) := by
  obtain ⟨exponent, place, inside, rfl⟩ := p.exists_code code
  cases exponent with
  | zero =>
    rw [Nat.zero_mul, Nat.zero_add, units_of_lt inside, units_succ_of_lt inside, Nat.mul_add]
    omega
  | succ exponent =>
    rw [units_run inside, units_run_succ inside]
    calc (p.run + place + 1) * 2 ^ exponent + 2 * p.run * ((p.run + place) * 2 ^ exponent)
        = (p.run + place + 1 + 2 * p.run * (p.run + place)) * 2 ^ exponent := by ring
      _ ≤ (2 * p.run + 2 * p.run * (p.run + place)) * 2 ^ exponent :=
          Nat.mul_le_mul_right _ (Nat.add_le_add_right (by omega) _)
      _ = 2 * p.run * ((p.run + place + 1) * 2 ^ exponent) := by ring

/-- On a grid that is finer than a magnitude by sixteen digits, the points are closer to each other
    than the numbers around the magnitude are. -/
theorem grid_lt_step (fine : 10 ^ 16 * (10 ^ drop * p.unitsPerOne) ≤ p.units (code + 1) * 10 ^ places) :
    p.units code * 10 ^ places + 10 ^ drop * p.unitsPerOne < p.units (code + 1) * 10 ^ places := by
  have bits : 2 * p.run < 10 ^ 16 := by cases p <;> decide
  have step := Nat.mul_le_mul_right (10 ^ places) (p.units_succ_le_step code)
  rw [Nat.add_mul, Nat.mul_assoc (2 * p.run), Nat.mul_assoc (2 * p.run)] at step
  have next := Nat.mul_lt_mul_of_pos_right (p.units_lt_units_succ code)
    (Nat.pow_pos (n := places) (by decide : 0 < 10))
  generalize p.units code * 10 ^ places = before at *
  obtain ⟨width, split⟩ := Nat.exists_eq_add_of_lt next
  rw [split] at fine step ⊢
  -- There are fewer steps than points of the grid up to the magnitude, so a step is longer.
  have narrow : 10 ^ 16 * (10 ^ drop * p.unitsPerOne) < 10 ^ 16 * (width + 1) := by
    calc 10 ^ 16 * (10 ^ drop * p.unitsPerOne)
        ≤ before + width + 1 := fine
      _ ≤ 2 * p.run * (width + 1) := by
          rw [Nat.add_assoc before, Nat.mul_add (2 * p.run) before] at step
          omega
      _ < 10 ^ 16 * (width + 1) := Nat.mul_lt_mul_of_pos_right bits (Nat.succ_pos _)
  have less := Nat.lt_of_mul_lt_mul_left narrow
  omega

/-- What is no farther from a magnitude than half of a step that fits on both sides is rounded to it. -/
theorem codeAt_of_close {step : Nat} (finite : code < p.infinity)
    (behind : p.units code * 10 ^ places + step < p.units (code + 1) * 10 ^ places)
    (before : ∀ last, code = last + 1 →
      p.units last * 10 ^ places + step < p.units code * 10 ^ places)
    (upper : 2 * (w * p.unitsPerOne) ≤ 2 * (p.units code * 10 ^ places) + step)
    (lower : 2 * (p.units code * 10 ^ places) ≤ 2 * (w * p.unitsPerOne) + step) :
    p.codeAt places w = code := by
  refine Nearest.eq ⟨.inl ?_, fun last same => .inl ?_⟩ (Nat.pow_pos (by decide)) finite
  · rw [middle, Nat.add_mul]
    omega
  · have fits := before last same
    rw [middle, ← same, Nat.add_mul]
    omega

/-- So the nearer neighbour is read as the number. -/
theorem reads_of_fine (finite : code < p.infinity)
    (value : digits * p.unitsPerOne = p.units code * 10 ^ places)
    (fine : 10 ^ (16 + drop) ≤ digits) :
    p.codeAt places (cutDown drop digits) = code ∨ p.codeAt places (cutUp drop digits) = code := by
  have grid {next : Nat} (le : p.units code ≤ p.units (next + 1)) :
      p.units next * 10 ^ places + 10 ^ drop * p.unitsPerOne < p.units (next + 1) * 10 ^ places := by
    refine grid_lt_step (le_trans ?_ (Nat.mul_le_mul_right _ le))
    rw [← value, ← Nat.mul_assoc, ← Nat.pow_add]
    exact Nat.mul_le_mul_right _ fine
  have behind := grid (p.units_mono (Nat.le_succ code))
  have before (last : Nat) (same : code = last + 1) :
      p.units last * 10 ^ places + 10 ^ drop * p.unitsPerOne < p.units code * 10 ^ places := by
    rw [same]
    exact grid (Nat.le_of_eq (congrArg p.units same))
  -- The neighbours are the number less the digits that are cut off, and a step above that.
  have down := congrArg (· * p.unitsPerOne) (cutDown_add_mod drop digits)
  have up := congrArg (· * p.unitsPerOne) (cutUp_eq drop digits)
  simp only [Nat.add_mul, value] at down up
  rcases Nat.le_total (2 * (digits % 10 ^ drop)) (10 ^ drop) with nearer | nearer
  · have half := Nat.mul_le_mul_right p.unitsPerOne nearer
    rw [Nat.mul_assoc] at half
    exact .inl (codeAt_of_close finite behind before (by omega) (by omega))
  · have half := Nat.mul_le_mul_right p.unitsPerOne nearer
    rw [Nat.mul_assoc 2] at half
    have beyond := Nat.mul_le_mul_right p.unitsPerOne (Nat.le_of_lt (lt_cutUp drop digits))
    rw [value] at beyond
    exact .inr (codeAt_of_close finite behind before (by omega) (by omega))

/-! ## The search -/

theorem neighbour?_counts_eq_none_iff {tie : TieRule} :
    p.neighbour? tie code ⟨digits, -(places : Int)⟩ drop = none ↔
      p.codeAt places (cutDown drop digits) ≠ code ∧ p.codeAt places (cutUp drop digits) ≠ code := by
  rw [neighbour?_eq_none_iff, codeOf_of_counts (Decimal.below_counts ..),
    codeOf_of_counts (Decimal.above_counts ..)]

/-- What is shown is a neighbour of the number on some grid, and on the next coarser one, unless a single
    digit is shown, no neighbour is read as the number. -/
theorem shortest_cases (finite : code < p.infinity) (nonzero : code ≠ 0)
    (expansion : p.exactDecimal code = ⟨digits, -(places : Int)⟩)
    (value : digits * p.unitsPerOne = p.units code * 10 ^ places) :
    ∃ k drop, 10 ^ (k + drop) ≤ digits ∧ digits < 10 ^ (k + 1 + drop) ∧
      p.neighbour? .upward code ⟨digits, -(places : Int)⟩ drop = some (p.shortest .upward code) ∧
      ∀ j, k = j + 1 → p.neighbour? .upward code ⟨digits, -(places : Int)⟩ (drop + 1) = none := by
  have positive : digits ≠ 0 := by
    rintro rfl
    have large := p.units_strictMono (Nat.pos_of_ne_zero nonzero)
    have some := Nat.mul_pos (Nat.zero_lt_of_lt large) (Nat.pow_pos (n := places) (by decide : 0 < 10))
    omega
  obtain ⟨l, count, least, most⟩ := exists_length_toDigits positive
  have itself := codeAt_of_value finite value
  -- All digits of the expansion are read as the number, if the search comes so far.
  have all : p.neighbour? .upward code ⟨digits, -(places : Int)⟩ 0 ≠ none := by
    rw [ne_eq, neighbour?_counts_eq_none_iff]
    rintro ⟨away, _⟩
    rw [cutDown, Nat.pow_zero, Nat.div_one, Nat.mul_one] at away
    exact away itself
  rw [shortest, expansion, Decimal.length, count]
  cases search : (List.range digitLimit).findSome? fun n =>
      p.neighbour? .upward code ⟨digits, -(places : Int)⟩ (l + 1 - (n + 1)) with
  | none =>
    -- Neither all digits nor seventeen of them can have failed.
    have nowhere := List.findSome?_eq_none_iff.mp search
    rcases Nat.lt_or_ge l digitLimit with short | long
    · have last := nowhere l (List.mem_range.mpr short)
      rw [Nat.sub_self] at last
      exact absurd last all
    · have last := nowhere 16 (List.mem_range.mpr (by decide))
      obtain ⟨drop, rfl⟩ := Nat.exists_eq_add_of_le (show 16 ≤ l from Nat.le_of_lt long)
      rw [Nat.add_right_comm, Nat.add_sub_cancel_left, neighbour?_counts_eq_none_iff] at last
      rcases reads_of_fine finite value least with reads | reads
      · exact absurd reads last.1
      · exact absurd reads last.2
  | some found =>
    obtain ⟨k, _, chosen, before⟩ := findSome?_range_cases search
    have inside : k ≤ l := by
      by_contra beyond
      have last := before l (Nat.not_le.mp beyond)
      rw [Nat.sub_self] at last
      exact all last
    obtain ⟨drop, rfl⟩ := Nat.exists_eq_add_of_le inside
    refine ⟨k, drop, least, ?_, ?_, fun j next => ?_⟩
    · rwa [Nat.add_right_comm]
    · rw [Nat.add_right_comm, Nat.add_sub_cancel_left] at chosen
      exact chosen
    · have coarser := before j (by omega)
      rwa [show k + drop + 1 - (j + 1) = drop + 1 by omega] at coarser

/-! ## What precedes -/

/-- Of two counts that are read alike the one is shown before the other: it has fewer digits, or it
    needs no more and is nearer to the number. -/
def Prefers (p : Precision) (code places n m : Nat) : Prop :=
  (∃ k, FewDigits k n ∧ ¬ FewDigits k m) ∨
    (∀ k, FewDigits k m → FewDigits k n) ∧
      Nearer (p.units code * 10 ^ places) (n * p.unitsPerOne) (m * p.unitsPerOne)

/-- Among the decimals of no more digits the neighbour that is chosen is the nearest. -/
theorem exists_nearest_neighbour (finite : code < p.infinity)
    (itself : p.codeAt places digits = code) (least : 10 ^ (k + drop) ≤ digits)
    (most : digits < 10 ^ (k + 1 + drop))
    (chosen : p.neighbour? .upward code ⟨digits, -(places : Int)⟩ drop = some found) :
    ∃ best, found.Counts places best ∧ FewDigits (k + 1) best ∧ found.digits < 10 ^ (k + 1) ∧
      ∀ w, p.codeAt places w = code → FewDigits (k + 1) w → w ≠ best → Nearer digits best w := by
  have low := cutDown_le drop digits
  have high := lt_cutUp drop digits
  have step := cutUp_eq drop digits
  have split := cutDown_add_mod drop digits
  -- A competitor with so few digits is one of the neighbours or lies beyond them.
  rcases neighbour?_upward chosen with ⟨rfl, nearer⟩ | ⟨rfl, nearer⟩
  · rw [codeOf_of_counts (Decimal.above_counts ..)] at nearer
    refine ⟨_, Decimal.below_counts .., fewDigits_cutDown most, Decimal.below_digits_lt most _,
      fun w reads few other => .inl ?_⟩
    simp only [Nat.dist]
    rcases reads_of_few finite itself least few reads with ⟨last, _⟩ | ⟨next, readsUp⟩
    · omega
    · have rest : 2 * (digits % 10 ^ drop) < 10 ^ drop := nearer readsUp
      omega
  · rw [codeOf_of_counts (Decimal.below_counts ..)] at nearer
    refine ⟨_, Decimal.above_counts .., fewDigits_cutUp most, Decimal.above_digits_lt most _,
      fun w reads few other => ?_⟩
    simp only [Nearer, Nat.dist]
    rcases reads_of_few finite itself least few reads with ⟨last, readsDown⟩ | ⟨next, _⟩
    · have rest : 10 ^ drop ≤ 2 * (digits % 10 ^ drop) := nearer readsDown
      omega
    · omega

/-- What is shown of a number precedes everything else that is read as the number, and has no zero
    for its last digit. -/
theorem shortest_prefers (finite : code < p.infinity) (nonzero : code ≠ 0)
    (expansion : p.exactDecimal code = ⟨digits, -(places : Int)⟩)
    (value : digits * p.unitsPerOne = p.units code * 10 ^ places) :
    ∃ best, (p.shortest .upward code).Counts places best ∧
      (p.shortest .upward code).digits % 10 ≠ 0 ∧
      ∀ w, p.codeAt places w = code → w ≠ best → p.Prefers code places best w := by
  obtain ⟨k, drop, least, most, chosen, coarser⟩ := shortest_cases finite nonzero expansion value
  have itself := codeAt_of_value finite value
  obtain ⟨best, counts, few, short, nearest⟩ :=
    exists_nearest_neighbour finite itself least most chosen
  -- With a digit less there is nothing that is read as the number.
  have fewest (w : Nat) (reads : p.codeAt places w = code) : ¬ FewDigits k w := by
    intro fewer
    cases k with
    | zero =>
      obtain rfl := fewDigits_zero_iff.mp fewer
      exact nonzero (reads.symm.trans (p.codeAt_zero places))
    | succ j =>
      have away := neighbour?_counts_eq_none_iff.mp (coarser j rfl)
      rw [show j + 1 + drop = j + (drop + 1) by omega] at least
      rcases reads_of_few finite itself least fewer reads with ⟨_, down⟩ | ⟨_, up⟩
      · exact away.1 down
      · exact away.2 up
  have reads : p.codeAt places best = code := by
    rw [← codeOf_of_counts counts, codeOf_shortest .upward finite]
  refine ⟨best, counts, fun zero => ?_, fun w reads' other => ?_⟩
  · obtain ⟨zeros, _, count⟩ := counts
    refine fewest best reads ⟨(p.shortest .upward code).digits / 10, zeros + 1, ?_, ?_⟩
    · rw [Nat.pow_succ] at short
      omega
    · rw [← count, Nat.pow_succ, Nat.mul_comm (10 ^ zeros), ← Nat.mul_assoc,
        Nat.div_mul_cancel (Nat.dvd_of_mod_eq_zero zero)]
  · by_cases enough : FewDigits (k + 1) w
    case pos =>
      refine .inr ⟨fun j fewer => ?_, ?_⟩
      · rcases Nat.lt_or_ge k j with more | less
        · exact few.mono more
        · exact absurd (fewer.mono less) (fewest w reads')
      · rw [← value, nearer_mul p.unitsPerOne_pos]
        exact nearest w reads' enough other
    case neg => exact .inl ⟨k + 1, few, enough⟩

end Precision

end LinkedTables
