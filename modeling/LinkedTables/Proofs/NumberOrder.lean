import LinkedTables.Proofs.RoundingTwice

/-! # The order of numbers

The numbers of a format lie on the line of signed codes, where the two zeros share a place and NaN has
none.  Of two numbers one is at most the other, `lesser` and `greater` take one of them, and rounding
keeps the order: what lies before the middle behind a code is not rounded beyond this code. -/

namespace LinkedTables

namespace Floating

variable {p q : Precision} {a b c x : Floating p}

/-- Whether a number is below another one or equal to it.  NaN is at most nothing. -/
def AtMost (a b : Floating p) : Prop :=
  a.lessThan b = true ∨ a.sameNumber b = true

theorem atMost_number {s t : Bool} {i j : Fin (p.infinity + 1)} :
    (number s i).AtMost (number t j) ↔ place s i.val ≤ place t j.val := by
  simp only [AtMost, lessThan, sameNumber, decide_eq_true_eq, beq_iff_eq]
  exact Int.le_iff_lt_or_eq.symm

theorem exists_number (number : x.isNaN = false) : ∃ s i, x = .number s i := by
  cases x with
  | nan => contradiction
  | number s i => exact ⟨s, i, rfl⟩

theorem AtMost.numbers (below : a.AtMost b) : a.isNaN = false ∧ b.isNaN = false := by
  cases a with
  | nan => rcases below with less | same <;> contradiction
  | number s i =>
    cases b with
    | nan => rcases below with less | same <;> contradiction
    | number t j => exact ⟨rfl, rfl⟩

theorem atMost_refl (number : x.isNaN = false) : x.AtMost x := by
  obtain ⟨s, i, rfl⟩ := exists_number number
  exact atMost_number.mpr (Int.le_refl _)

theorem AtMost.trans (below : a.AtMost b) (above : b.AtMost c) : a.AtMost c := by
  obtain ⟨s, i, rfl⟩ := exists_number below.numbers.1
  obtain ⟨t, j, rfl⟩ := exists_number below.numbers.2
  obtain ⟨u, k, rfl⟩ := exists_number above.numbers.2
  rw [atMost_number] at below above ⊢
  exact Int.le_trans below above

theorem sameNumber_iff : a.sameNumber b = true ↔ a.AtMost b ∧ b.AtMost a := by
  constructor
  · intro same
    refine ⟨.inr same, .inr ?_⟩
    cases a <;> cases b <;> simp_all [sameNumber]
  · rintro ⟨below, above⟩
    obtain ⟨s, i, rfl⟩ := exists_number below.numbers.1
    obtain ⟨t, j, rfl⟩ := exists_number below.numbers.2
    rw [atMost_number] at below above
    simpa [sameNumber] using Int.le_antisymm below above

/-! ## The lesser and the greater of two numbers -/

theorem lesser_cases (left : a.isNaN = false) (right : b.isNaN = false) :
    (a.lesser b = a ∧ a.AtMost b) ∨ (a.lesser b = b ∧ b.AtMost a) := by
  obtain ⟨s, i, rfl⟩ := exists_number left
  obtain ⟨t, j, rfl⟩ := exists_number right
  simp only [lesser, lessThan, decide_eq_true_eq, atMost_number]
  split
  next less => exact .inl ⟨rfl, Int.le_of_lt less⟩
  next more => exact .inr ⟨rfl, Int.not_lt.mp more⟩

theorem greater_cases (left : a.isNaN = false) (right : b.isNaN = false) :
    (a.greater b = a ∧ b.AtMost a) ∨ (a.greater b = b ∧ a.AtMost b) := by
  obtain ⟨s, i, rfl⟩ := exists_number left
  obtain ⟨t, j, rfl⟩ := exists_number right
  simp only [greater, lessThan, decide_eq_true_eq, atMost_number]
  split
  next less => exact .inl ⟨rfl, Int.le_of_lt less⟩
  next more => exact .inr ⟨rfl, Int.not_lt.mp more⟩

/-! ## Conversion -/

/-- Only NaN becomes NaN in another format. -/
@[simp] theorem isNaN_convert (x : Floating p) : (x.convert : Floating q).isNaN = x.isNaN := by
  cases x with
  | nan => rfl
  | number s i =>
    rw [convert]
    split <;> rfl

end Floating

/-! ## Rounding -/

namespace Precision

variable {p : Precision} {a a' b code : Nat}

theorem nearestCode_le_of_middle (positive : 0 < b)
    (before : 2 * a < p.middle code * b ∨ 2 * a = p.middle code * b ∧ code % 2 = 0) :
    p.nearestCode a b ≤ code := by
  have least := (p.units_codeBelow (a / b)).1
  rw [Nat.le_div_iff_mul_le positive] at least
  have middle := Nat.mul_lt_mul_of_pos_right (p.middle_lt_twice code) positive
  rw [Nat.mul_assoc] at middle
  have below : p.codeBelow (a / b) < code + 1 := by
    refine p.units_strictMono.lt_iff_lt.mp (Nat.lt_of_mul_lt_mul_right (a := b) ?_)
    omega
  rcases p.nearestCode_cases a b with ⟨_, _⟩ | ⟨_, _, _⟩ | ⟨_, rounded, far⟩
  · omega
  · omega
  · by_cases last : p.codeBelow (a / b) = code
    · rw [last] at far
      omega
    · omega

theorem nearestCode_mono (positive : 0 < b) (le : a ≤ a') :
    p.nearestCode a b ≤ p.nearestCode a' b := by
  by_cases finite : p.nearestCode a' b < p.infinity
  · have nearest := nearest_nearestCode positive finite
    refine nearestCode_le_of_middle positive ?_
    have behind := nearest.behind
    omega
  · exact le_trans (p.nearestCode_le_infinity a b) (Nat.not_lt.mp finite)

end Precision

theorem Floating.atMost_ofNatural {p : Precision} {m n : Nat} (le : m ≤ n) :
    (ofNatural m : Floating p).AtMost (ofNatural n) := by
  refine atMost_number.mpr (Int.ofNat_le.mpr ?_)
  exact p.nearestCode_mono Nat.one_pos (Nat.mul_le_mul_right _ le)

end LinkedTables
