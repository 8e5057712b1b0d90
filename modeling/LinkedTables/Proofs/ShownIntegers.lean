import LinkedTables.Proofs.ShortestDecimals

/-! # Whole numbers shown as real ones

A whole number that is read as a real one is shown as a whole number again, but maybe as another one:
of all the whole numbers that are read alike, the same one is shown.  Up to twice the length of a run
every whole number has a real number of its own, and is shown as itself. -/

namespace LinkedTables

variable {p : Precision} {code places m n : Nat}

namespace Precision

/-! ## Scales -/

theorem codeAt_mul_pow (p : Precision) (places n : Nat) :
    p.codeAt places (n * 10 ^ places) = p.codeOf ⟨n, 0⟩ := by
  have counts : Decimal.Counts ⟨n, 0⟩ places (n * 10 ^ places) := ⟨places, Int.zero_add _, rfl⟩
  rw [codeOf_of_counts counts]

theorem prefers_mul_pow : p.Prefers code places (n * 10 ^ places) (m * 10 ^ places) ↔
    p.Prefers code 0 n m := by
  have positive : 0 < 10 ^ places := Nat.pow_pos (by decide)
  simp only [Prefers, fewDigits_mul_pow, Nat.pow_zero, Nat.mul_one,
    Nat.mul_right_comm _ _ p.unitsPerOne, nearer_mul positive]

theorem Prefers.asymm (prefers : p.Prefers code places n m) : ¬ p.Prefers code places m n := by
  rintro (⟨k, few, many⟩ | ⟨less, nearer⟩)
  · rcases prefers with ⟨k', few', many'⟩ | ⟨less, _⟩
    · rcases Nat.le_total k k' with le | le
      · exact many' (few.mono le)
      · exact many (few'.mono le)
    · exact many (less k few)
  · rcases prefers with ⟨k, few, many⟩ | ⟨_, nearer'⟩
    · exact many (less k few)
    · exact nearer.asymm nearer'

/-! ## Which whole number is shown -/

/-- The whole number precedes every other that is read as the same real number. -/
def Preferred (p : Precision) (n : Nat) : Prop :=
  ∀ m, m ≠ n → p.codeOf ⟨m, 0⟩ = p.codeOf ⟨n, 0⟩ → p.Prefers (p.codeOf ⟨n, 0⟩) 0 n m

theorem Preferred.unique (preferred : p.Preferred n) (preferred' : p.Preferred m)
    (alike : p.codeOf ⟨m, 0⟩ = p.codeOf ⟨n, 0⟩) : m = n := by
  by_contra other
  have first := preferred m other alike
  have second := preferred' n (Ne.symm other) alike.symm
  rw [alike] at second
  exact first.asymm second

/-! ## Whole numbers that the format has -/

/-- The whole number is read as a real number without rounding. -/
structure Keeps (p : Precision) (n : Nat) : Prop where
  finite : p.codeOf ⟨n, 0⟩ < p.infinity
  units : p.units (p.codeOf ⟨n, 0⟩) = n * p.unitsPerOne

theorem keeps_of_short {s e : Nat} (small : s ≤ 2 * p.run) (low : e ≤ 1) : p.Keeps (s * 2 ^ e) := by
  obtain ⟨code, units⟩ := exists_units_eq small (e + p.unitPlaces)
  rw [Nat.pow_add, ← Nat.mul_assoc, ← unitsPerOne_eq] at units
  have finite : code < p.infinity := by
    have top : 2 * p.run * 2 ^ 1 * p.unitsPerOne < p.units p.infinity := by
      cases p <;> decide +kernel
    refine lt_infinity_of_units_lt (units ▸ Nat.lt_of_le_of_lt (Nat.mul_le_mul_right _ ?_) top)
    exact Nat.mul_le_mul small (Nat.pow_le_pow_right (by decide) low)
  have rounded : p.codeOf ⟨s * 2 ^ e, 0⟩ = code := by
    rw [codeOf_natural, ← units, ← Nat.mul_one (p.units code)]
    exact nearestCode_units finite Nat.one_pos
  exact ⟨rounded ▸ finite, rounded ▸ units⟩

theorem keeps_of_le (small : n ≤ 2 * p.run) : p.Keeps n := by
  simpa using keeps_of_short (e := 0) small (by decide)

theorem Keeps.le_codeOf (keeps : p.Keeps m) (le : m ≤ n) : p.codeOf ⟨m, 0⟩ ≤ p.codeOf ⟨n, 0⟩ := by
  rw [p.codeOf_natural n]
  refine le_nearestCode Nat.one_pos (Nat.le_of_lt keeps.finite) ?_
  rw [keeps.units, Nat.mul_one]
  exact Nat.mul_le_mul_right _ le

theorem Keeps.codeOf_lt (keeps : p.Keeps m) (keeps' : p.Keeps n) (less : m < n) :
    p.codeOf ⟨m, 0⟩ < p.codeOf ⟨n, 0⟩ := by
  refine p.units_strictMono.lt_iff_lt.mp ?_
  rw [keeps.units, keeps'.units]
  exact Nat.mul_lt_mul_of_pos_right less p.unitsPerOne_pos

theorem unitsPerOne_le_units (positive : 0 < n) : p.unitsPerOne ≤ p.units (p.codeOf ⟨n, 0⟩) := by
  have one : p.Keeps 1 := keeps_of_le (Nat.mul_pos (by decide) p.run_pos)
  have least := p.units_mono (one.le_codeOf positive)
  rwa [one.units, Nat.one_mul] at least

theorem codeOf_ne_zero (positive : 0 < n) : p.codeOf ⟨n, 0⟩ ≠ 0 := by
  intro zero
  have least := unitsPerOne_le_units (p := p) positive
  rw [zero, units_of_lt p.run_pos] at least
  exact Nat.lt_irrefl _ (Nat.lt_of_lt_of_le p.unitsPerOne_pos least)

/-- Up to twice the length of a run a whole number is read alike with no other, or at the end with the
    next one, which has as many digits and is farther away. -/
theorem preferred_of_le (small : n ≤ 2 * p.run) : p.Preferred n := by
  intro m other alike
  have keeps := keeps_of_le small
  rcases Nat.lt_or_gt_of_ne other with before | behind
  · have less := (keeps_of_le (by omega)).codeOf_lt keeps before
    omega
  -- The numbers that the format has separate the two unless they stand at the end.
  have beyond : 2 * p.run < m := by
    by_contra within
    have less := keeps.codeOf_lt (keeps_of_le (Nat.not_lt.mp within)) behind
    omega
  have last : n = 2 * p.run := by
    by_contra inside
    have edge : p.Keeps (2 * p.run) := keeps_of_le (Nat.le_refl _)
    have less := keeps.codeOf_lt edge (by omega)
    have le := edge.le_codeOf (Nat.le_of_lt beyond)
    omega
  have next : m = n + 1 := by
    by_contra farther
    have positive := p.run_pos
    have edge : p.Keeps ((p.run + 1) * 2 ^ 1) := keeps_of_short (by omega) (by decide)
    have less := keeps.codeOf_lt edge (by omega)
    have le := edge.le_codeOf (show (p.run + 1) * 2 ^ 1 ≤ m by omega)
    omega
  refine .inr ⟨fun k few => ?_, .inl ?_⟩
  · -- The next number is odd, so it has no zeros at its end to leave out.
    obtain ⟨digits, zeros, short, count⟩ := few
    cases zeros with
    | zero => exact ⟨n, 0, by omega, by omega⟩
    | succ zeros =>
      rw [Nat.pow_succ, ← Nat.mul_assoc] at count
      omega
  · have farther := Nat.mul_lt_mul_of_pos_right behind p.unitsPerOne_pos
    rw [keeps.units, Nat.pow_zero, Nat.mul_one, Nat.dist_self, Nat.dist]
    omega

example : 2 * run .single = 2 ^ 24 ∧ 2 * run .double = 2 ^ 53 := by
  decide

/-! ## What is shown -/

/-- Between the whole numbers that are read as a real number and its expansion lies one with no more
    digits than the expansion has before the point. -/
theorem exists_whole_neighbour {digits l w : Nat} (finite : code < p.infinity)
    (itself : p.codeAt places digits = code) (reads : p.codeAt places w = code)
    (whole : 10 ^ places ∣ w) (most : digits < 10 ^ (l + 1 + places)) :
    ∃ v, p.codeAt places v = code ∧ FewDigits (l + 1) v := by
  rcases Nat.lt_or_ge digits w with above | below
  · exact ⟨_, codeAt_between finite itself reads (Nat.le_of_lt (lt_cutUp ..)) (cutUp_le whole above),
      fewDigits_cutUp most⟩
  · exact ⟨_, codeAt_between finite reads itself (le_cutDown whole below) (cutDown_le ..),
      fewDigits_cutDown most⟩

/-- What precedes everything that is read alike is whole if something whole is read alike. -/
theorem dvd_of_prefers {digits l w best : Nat} (finite : code < p.infinity) (nonzero : code ≠ 0)
    (value : digits * p.unitsPerOne = p.units code * 10 ^ places)
    (least : 10 ^ (l + places) ≤ digits) (most : digits < 10 ^ (l + 1 + places))
    (reads : p.codeAt places w = code) (whole : 10 ^ places ∣ w)
    (reads' : p.codeAt places best = code)
    (first : ∀ v, p.codeAt places v = code → v ≠ best → p.Prefers code places best v) :
    10 ^ places ∣ best := by
  have itself := codeAt_of_value finite value
  have few : FewDigits (l + 1) best := by
    obtain ⟨v, alike, fewer⟩ := exists_whole_neighbour finite itself reads whole most
    by_cases same : v = best
    case pos => rwa [← same]
    case neg =>
      rcases first v alike same with ⟨k, few, many⟩ | ⟨less, _⟩
      · rcases Nat.le_total k (l + 1) with le | le
        · exact few.mono le
        · exact absurd (fewer.mono le) many
      · exact less _ fewer
  refine few.dvd ?_
  -- Otherwise the power of ten between the two would be nearer, and it needs one digit only.
  by_contra small
  have between := codeAt_between finite reads' itself (Nat.le_of_not_le small) least
  rcases first _ between (by omega) with ⟨k, few, many⟩ | ⟨_, nearer⟩
  · cases k with
    | zero =>
      rw [fewDigits_zero_iff.mp few, codeAt_zero] at reads'
      exact nonzero reads'.symm
    | succ k =>
      exact many ⟨1, l + places, Nat.one_lt_pow (by omega) (by decide), (Nat.one_mul _).symm⟩
  · rw [← value, nearer_mul p.unitsPerOne_pos, Nearer, Nat.dist, Nat.dist] at nearer
    omega

end Precision

namespace Decimal

/-- A whole number counted at some places is one without places, if its last digit is not written
    as a zero. -/
theorem Counts.whole {d : Decimal} (counts : d.Counts places (10 ^ places * n))
    (last : d.digits % 10 ≠ 0) : d.Counts 0 n := by
  obtain ⟨zeros, scale, count⟩ := counts
  rcases Nat.lt_or_ge zeros places with short | enough
  · obtain ⟨rest, rfl⟩ := Nat.exists_eq_add_of_lt short
    have tenfold : d.digits = 10 * (10 ^ rest * n) := by
      refine Nat.eq_of_mul_eq_mul_right (Nat.pow_pos (n := zeros) (by decide : 0 < 10)) (count.trans ?_)
      rw [Nat.pow_succ, Nat.pow_add]
      ring
    omega
  · obtain ⟨more, rfl⟩ := Nat.exists_eq_add_of_le enough
    refine ⟨more, by omega, ?_⟩
    refine Nat.eq_of_mul_eq_mul_left (Nat.pow_pos (n := places) (by decide : 0 < 10)) (Eq.trans ?_ count)
    rw [Nat.pow_add]
    ring

end Decimal

theorem toDigits_mul_pow (positive : 0 < n) (zeros : Nat) :
    Nat.toDigits 10 (n * 10 ^ zeros) = Nat.toDigits 10 n ++ List.replicate zeros '0' := by
  induction zeros with
  | zero => simp
  | succ zeros inductionHypothesis =>
    have more : 0 < n * 10 ^ zeros := Nat.mul_pos positive (Nat.pow_pos (by decide))
    have shift := Nat.toDigits_append_toDigits (b := 10) (by decide) more (show 0 < 10 by decide)
    rw [List.replicate_succ', ← List.append_assoc, ← inductionHypothesis, Nat.pow_succ,
      ← Nat.mul_assoc, Nat.mul_comm _ 10]
    exact shift.symm

theorem Decimal.Counts.positional_eq {d : Decimal} (counts : d.Counts 0 n)
    (positive : 0 < n) : d.positional = (Nat.toDigits 10 n, []) := by
  obtain ⟨digits, exponent⟩ := d
  obtain ⟨zeros, scale, rfl⟩ := counts
  obtain rfl : exponent = zeros := by simpa using scale
  rw [toDigits_mul_pow (Nat.pos_of_mul_pos_right positive)]
  rfl

namespace Precision

/-- An expansion that is no less than one has digits before the point. -/
theorem exists_length_whole {digits : Nat} (whole : 10 ^ places ≤ digits) :
    ∃ l, 10 ^ (l + places) ≤ digits ∧ digits < 10 ^ (l + 1 + places) := by
  have positive : 0 < digits := Nat.lt_of_lt_of_le (Nat.pow_pos (by decide)) whole
  obtain ⟨k, _, least, most⟩ := exists_length_toDigits (Nat.ne_of_gt positive)
  have more := (Nat.pow_lt_pow_iff_right (by decide)).mp (Nat.lt_of_le_of_lt whole most)
  obtain ⟨l, rfl⟩ := Nat.exists_eq_add_of_le (Nat.le_of_lt_succ more)
  exact ⟨l, by rwa [Nat.add_comm l], by rwa [Nat.add_comm, ← Nat.add_assoc]⟩

/-- A whole number that is read as a real one is shown as the whole number that precedes all others
    that are read alike. -/
theorem exists_preferred (finite : p.codeOf ⟨n, 0⟩ < p.infinity) :
    ∃ shown, p.Preferred shown ∧ p.codeOf ⟨shown, 0⟩ = p.codeOf ⟨n, 0⟩ ∧
      (p.shortest .upward (p.codeOf ⟨n, 0⟩)).positional = (Nat.toDigits 10 shown, []) := by
  by_cases zero : n = 0
  case pos =>
    subst zero
    refine ⟨0, preferred_of_le (Nat.zero_le _), rfl, ?_⟩
    rw [codeOf_zero, shortest_zero]
    rfl
  have nonzero := codeOf_ne_zero (p := p) (Nat.pos_of_ne_zero zero)
  have large := unitsPerOne_le_units (p := p) (Nat.pos_of_ne_zero zero)
  have reads (places : Nat) := p.codeAt_mul_pow places n
  generalize p.codeOf ⟨n, 0⟩ = code at *
  -- Everything is counted in units of the last place of the expansion.
  obtain ⟨digits, places, expansion, value⟩ := p.exists_exactDecimal code
  obtain ⟨best, counts, last, first⟩ := shortest_prefers finite nonzero expansion value
  have reads' : p.codeAt places best = code := by
    rw [← codeOf_of_counts counts, codeOf_shortest .upward finite]
  have whole : 10 ^ places ≤ digits := by
    refine Nat.le_of_mul_le_mul_right ?_ p.unitsPerOne_pos
    rw [value, Nat.mul_comm]
    exact Nat.mul_le_mul_right _ large
  obtain ⟨l, least, most⟩ := exists_length_whole whole
  obtain ⟨shown, rfl⟩ := dvd_of_prefers finite nonzero value least most (reads places)
    (Nat.dvd_mul_left ..) reads' first
  have alike (m : Nat) : p.codeAt places (10 ^ places * m) = p.codeOf ⟨m, 0⟩ := by
    rw [Nat.mul_comm, codeAt_mul_pow]
  rw [alike] at reads'
  refine ⟨shown, fun m other same => ?_, reads', (counts.whole last).positional_eq ?_⟩
  · rw [reads'] at same ⊢
    rw [← alike] at same
    have before := first _ same fun equal => other
      (Nat.eq_of_mul_eq_mul_left (Nat.pow_pos (by decide)) equal)
    rwa [Nat.mul_comm, Nat.mul_comm _ m, prefers_mul_pow] at before
  · refine Nat.pos_of_ne_zero ?_
    rintro rfl
    exact nonzero (reads'.symm.trans (p.codeOf_zero 0))

end Precision

/-! ## Texts -/

section

variable (p) (i : Signed .w64)

theorem Precision.codeOf_signed_lt : p.codeOf ⟨i.val.natAbs, 0⟩ < p.infinity := by
  obtain ⟨i, least, most⟩ := i
  refine codeOf_natural_lt (show i.natAbs < 2 ^ 64 from ?_)
  simp only [Width.half] at least most
  omega

theorem Kind.read_floating_integer : (Kind.floating p).read ((Kind.signed .w64).display i) =
    some (.ofDecimal (decide (i.val < 0)) ⟨i.val.natAbs, 0⟩) := by
  have digits : ∀ c ∈ Nat.toDigits 10 i.val.natAbs ++ [], c.isDigit = true := by
    rw [List.append_nil]
    exact isDigit_toDigits _
  have real := readReal_numeral p (decide (i.val < 0)) Nat.toDigits_ne_nil digits
  have visible : (Kind.signed .w64).displayChars i ≠ [] := by
    intro bare
    have read := readInteger_chars i.val
    rw [show (Numeral.ofInteger i.val).chars = [] from bare] at read
    contradiction
  rw [List.append_nil, Nat.ofDigitChars_ten_toDigits] at real
  rw [Kind.read, Kind.display, String.toList_ofList, readCellReal,
    trimBlanks_of_visible (displayChars_signed_visible i), if_neg visible]
  exact real

/-- As a real number a whole one is shown with its sign and with the digits of the magnitude that
    precedes all others that are read alike. -/
theorem Floating.exists_display_integer : ∃ shown, p.Preferred shown ∧
    p.codeOf ⟨shown, 0⟩ = p.codeOf ⟨i.val.natAbs, 0⟩ ∧
    (ofDecimal (decide (i.val < 0)) ⟨i.val.natAbs, 0⟩ : Floating p).display =
      String.ofList (Numeral.chars ⟨decide (i.val < 0), Nat.toDigits 10 shown, [], none⟩) := by
  have finite := p.codeOf_signed_lt i
  obtain ⟨shown, preferred, alike, layout⟩ := p.exists_preferred finite
  refine ⟨shown, preferred, alike, ?_⟩
  rw [display, ofDecimal, displayChars, if_neg (Nat.ne_of_lt finite), layout]

/-- A whole number that the format has can still be shown as another one, of fewer digits. -/
example : (Floating.ofDecimal false ⟨134217728, 0⟩ : Floating .single).display = "134217730" := by
  decide +kernel

theorem Floating.display_integer_iff :
    (ofDecimal (decide (i.val < 0)) ⟨i.val.natAbs, 0⟩ : Floating p).display =
      (Kind.signed .w64).display i ↔ p.Preferred i.val.natAbs := by
  obtain ⟨shown, preferred, alike, text⟩ := exists_display_integer p i
  rw [text]
  constructor
  · intro same
    have chars : Nat.toDigits 10 shown = Nat.toDigits 10 i.val.natAbs := by
      simpa [Numeral.chars, Kind.displayChars, Numeral.ofInteger] using String.ofList_injective same
    have digits := congrArg (Nat.ofDigitChars 10 · 0) chars
    simp only [Nat.ofDigitChars_ten_toDigits] at digits
    rwa [← digits]
  · intro itself
    rw [itself.unique preferred alike]
    rfl

end

end LinkedTables
