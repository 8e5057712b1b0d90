import LinkedTables.Proofs.RealReading
import LinkedTables.Proofs.RowByRow
import LinkedTables.Proofs.ShownCells

/-! # Finite numbers in guessed columns

A column is made real for the sake of a finite number, but whether a number is finite is decided in the
wider format.  In the narrower one every number from a certain size on becomes an infinity.  So a column
of double precision holds a finite number, and one of single precision does unless all its numbers are
of that size. -/

namespace LinkedTables

/-! ## The first number out of range -/

namespace Precision

variable {p : Precision} {a b : Nat}

/-- The least whole number that is rounded to infinity, in the middle before the first magnitude that
    is out of range. -/
def overflow : Precision → Nat
  | .single => Nat.pow 2 128 - Nat.pow 2 103
  | .double => Nat.pow 2 1024 - Nat.pow 2 970

theorem overflow_units (p : Precision) :
    2 * (p.overflow * p.unitsPerOne) = p.middle (p.infinity - 1) := by
  cases p <;> decide +kernel

/-- The last finite code is odd, so the middle behind it belongs to infinity. -/
theorem nearestCode_eq_infinity_iff (positive : 0 < b) :
    p.nearestCode a b = p.infinity ↔ p.middle (p.infinity - 1) * b ≤ 2 * a := by
  have odd : (p.infinity - 1) % 2 = 1 := by cases p <;> decide
  constructor
  · intro infinite
    by_contra small
    have finite := nearestCode_lt_of_middle positive (Nat.not_le.mp small)
    omega
  · intro large
    by_contra other
    have finite : p.nearestCode a b < p.infinity :=
      Nat.lt_of_le_of_ne (p.nearestCode_le_infinity a b) other
    have behind := (nearest_nearestCode positive finite).behind
    by_cases last : p.nearestCode a b = p.infinity - 1
    · rw [last] at behind
      omega
    · -- The middle behind a code before the last one is lower.
      have lower : p.middle (p.nearestCode a b) < p.middle (p.infinity - 1) := by
        refine Nat.add_lt_add ?_ ?_
        · exact p.units_strictMono (by omega)
        · exact p.units_strictMono (by omega)
      have scaled := Nat.mul_lt_mul_of_pos_right lower positive
      omega

/-- A decimal is rounded to infinity exactly from the middle before it on. -/
theorem codeOf_eq_infinity_iff {d : Decimal} : p.codeOf d = p.infinity ↔ d.AtLeast p.overflow := by
  obtain ⟨digits, exponent⟩ := d
  have units := p.overflow_units
  have one := p.unitsPerOne_pos
  cases exponent with
  | ofNat e =>
    show p.nearestCode (digits * 10 ^ e * p.unitsPerOne) 1 = _ ↔ p.overflow ≤ digits * 10 ^ e
    rw [nearestCode_eq_infinity_iff Nat.one_pos, ← units, Nat.mul_one,
      Nat.mul_le_mul_left_iff (by decide), Nat.mul_le_mul_right_iff one]
  | negSucc e =>
    show p.nearestCode (digits * p.unitsPerOne) (10 ^ (e + 1)) = _ ↔
      p.overflow * 10 ^ (e + 1) ≤ digits
    rw [nearestCode_eq_infinity_iff (Nat.pow_pos (by decide)), ← units, Nat.mul_assoc,
      Nat.mul_le_mul_left_iff (by decide), Nat.mul_right_comm, Nat.mul_le_mul_right_iff one]

theorem codeOf_lt_infinity_iff {d : Decimal} :
    p.codeOf d < p.infinity ↔ ¬ d.AtLeast p.overflow := by
  rw [← codeOf_eq_infinity_iff]
  have most : p.codeOf d ≤ p.infinity := by
    simp only [codeOf]
    split <;> exact p.nearestCode_le_infinity _ _
  omega

end Precision

/-! ## Numbers in texts -/

/-- The sign and the magnitude of a number in digits. -/
def signedDecimal? : List Char → Option (Bool × Decimal)
  | '-' :: magnitude => (readDecimal magnitude).map (true, ·)
  | '+' :: magnitude => (readDecimal magnitude).map (false, ·)
  | magnitude => (readDecimal magnitude).map (false, ·)

/-- Whether a text is a number in digits, one that a format has room for. -/
def Within (p : Precision) (text : String) : Prop :=
  ∃ negative d, signedDecimal? (trimBlanks text.toList) = some (negative, d) ∧
    ¬ d.AtLeast p.overflow

variable {p : Precision} {negative : Bool} {d : Decimal}

theorem decimal_of_readMagnitude {text : List Char} {x : Floating p}
    (read : readMagnitude p negative text = some x) (finite : x.isFinite = true) :
    ∃ d, readDecimal text = some d ∧ x = .ofDecimal negative d := by
  simp only [readMagnitude] at read
  cases decimal : readDecimal text with
  | some d =>
    simp only [decimal, Option.some.injEq] at read
    exact ⟨d, rfl, read.symm⟩
  | none =>
    -- The names of numbers are those of NaN and of the infinities.
    simp only [decimal] at read
    split at read
    next =>
      cases read
      simp [Floating.isFinite, Floating.infinite] at finite
    next =>
      split at read
      next =>
        cases read
        contradiction
      next => contradiction

theorem signedDecimal?_of_readReal {text : List Char} {x : Floating p}
    (read : readReal p text = some x) (finite : x.isFinite = true) :
    ∃ negative d, signedDecimal? text = some (negative, d) ∧ x = .ofDecimal negative d := by
  simp only [readReal] at read
  split at read
  next magnitude =>
    obtain ⟨d, decimal, rfl⟩ := decimal_of_readMagnitude read finite
    exact ⟨true, d, by simp [signedDecimal?, decimal], rfl⟩
  next magnitude =>
    obtain ⟨d, decimal, rfl⟩ := decimal_of_readMagnitude read finite
    exact ⟨false, d, by simp [signedDecimal?, decimal], rfl⟩
  next unsigned _ _ =>
    obtain ⟨d, decimal, rfl⟩ := decimal_of_readMagnitude read finite
    refine ⟨false, d, ?_, rfl⟩
    simp only [signedDecimal?, decimal]
    rfl

theorem readReal_of_signedDecimal? (p : Precision) {text : List Char}
    (written : signedDecimal? text = some (negative, d)) :
    readReal p text = some (.ofDecimal negative d) := by
  simp only [signedDecimal?] at written
  split at written
  next magnitude =>
    obtain ⟨_, decimal, same⟩ := Option.map_eq_some_iff.mp written
    cases same
    simp [readReal, readMagnitude, decimal]
  next magnitude =>
    obtain ⟨_, decimal, same⟩ := Option.map_eq_some_iff.mp written
    cases same
    simp [readReal, readMagnitude, decimal]
  next unsigned _ _ =>
    obtain ⟨_, decimal, same⟩ := Option.map_eq_some_iff.mp written
    cases same
    simp only [readReal, readMagnitude, decimal]

theorem read_signedDecimal? (p : Precision) {text : String}
    (written : signedDecimal? (trimBlanks text.toList) = some (negative, d)) :
    (Kind.floating p).read text = some (.ofDecimal negative d) := by
  have visible : trimBlanks text.toList ≠ [] := by
    intro bare
    rw [bare] at written
    contradiction
  simp only [Kind.read, readCellReal, visible, if_false]
  exact readReal_of_signedDecimal? p written

theorem isFinite_ofDecimal :
    (Floating.ofDecimal negative d : Floating p).isFinite = true ↔ ¬ d.AtLeast p.overflow := by
  rw [← Precision.codeOf_lt_infinity_iff]
  exact decide_eq_true_iff

theorem isInfinite_ofDecimal :
    (Floating.ofDecimal negative d : Floating p).isInfinite = true ↔ d.AtLeast p.overflow := by
  rw [← Precision.codeOf_eq_infinity_iff]
  exact beq_iff_eq

/-- A text is read as a finite number exactly if it is one in digits that the format has room for. -/
theorem read_finite_iff {text : String} :
    (∃ x, (Kind.floating p).read text = some x ∧ x.isFinite = true) ↔ Within p text := by
  constructor
  · rintro ⟨x, read, finite⟩
    simp only [Kind.read, readCellReal] at read
    split at read
    next =>
      cases read
      contradiction
    next =>
      obtain ⟨negative, d, written, rfl⟩ := signedDecimal?_of_readReal read finite
      exact ⟨negative, d, written, isFinite_ofDecimal.mp finite⟩
  · rintro ⟨negative, d, written, small⟩
    exact ⟨_, read_signedDecimal? p written, isFinite_ofDecimal.mpr small⟩

theorem readsFinite_iff {text : String} : readsFinite text = true ↔ Within .double text := by
  rw [← read_finite_iff, readsFinite]
  cases (Kind.floating .double).read text <;> simp

theorem within_of_reads {text : String} (reads : (Kind.signed .w64).reads text) : Within p text :=
  read_finite_iff.mp (exists_finite_of_reads p reads)

/-! ## Columns -/

/-- Whether a row of a column has a finite number of a format. -/
def Column.HoldsFinite (p : Precision) (column : Column) : Prop :=
  ∃ row x, column.value true row = .ok (.cell (.floating p) x) ∧ x.isFinite = true

namespace Column.Holds

variable {header : String} {texts : List String} {column : Column} {row : Nat} {text : String}

theorem exists_text {kind : Kind} {value : Value} (holds : Holds header (some kind) texts column)
    (shown : column.value true row = .ok value) : ∃ text, texts[row]? = some text := by
  cases holds with
  | plain contents read =>
    obtain ⟨content, there, _⟩ := value_plain.mp shown
    have cell : (texts.map kind.read)[row]? = some (some content) := by
      rw [read, List.getElem?_map, ← List.getElem?_toArray, there]
      rfl
    rw [List.getElem?_map] at cell
    obtain ⟨text, there, _⟩ := Option.map_eq_some_iff.mp cell
    exact ⟨text, there⟩

/-- Of the numbers that are finite in the wider format a column keeps those that its own has room for,
    and makes infinities of the others. -/
theorem value_finite (holds : Holds header (some (.floating p)) texts column)
    (there : texts[row]? = some text) (finite : readsFinite text = true) :
    ∃ x : Floating p, column.value true row = .ok (.cell (.floating p) x) ∧
      (x.isFinite = true ↔ Within p text) ∧ (x.isInfinite = true ↔ ¬ Within p text) := by
  obtain ⟨negative, d, written, _⟩ := readsFinite_iff.mp finite
  obtain ⟨x, read, shown⟩ := holds.value_plain_eq there
  rw [read_signedDecimal? p written] at read
  cases read
  have within : Within p text ↔ ¬ d.AtLeast p.overflow := by
    constructor
    · rintro ⟨negative', d', written', small⟩
      rw [written] at written'
      cases written'
      exact small
    · exact fun small => ⟨negative, d, written, small⟩
  refine ⟨_, shown, ?_, ?_⟩
  · rw [isFinite_ofDecimal, within]
  · rw [isInfinite_ofDecimal, within, not_not]

theorem holdsFinite_iff (holds : Holds header (some (.floating p)) texts column) :
    column.HoldsFinite p ↔ ∃ text ∈ texts, Within p text := by
  constructor
  · rintro ⟨row, x, shown, finite⟩
    obtain ⟨text, there⟩ := holds.exists_text shown
    obtain ⟨x', read, shown'⟩ := holds.value_plain_eq there
    rw [shown] at shown'
    cases shown'
    exact ⟨text, List.mem_of_getElem? there, read_finite_iff.mp ⟨x, read, finite⟩⟩
  · rintro ⟨text, member, within⟩
    obtain ⟨row, there⟩ := List.mem_iff_getElem?.mp member
    obtain ⟨x, read, finite⟩ := read_finite_iff.mpr within
    obtain ⟨x', read', shown⟩ := holds.value_plain_eq there
    rw [read] at read'
    cases read'
    exact ⟨row, x, shown, finite⟩

end Column.Holds

/-- What a real column keeps of the numbers that its texts are in the wider format: the finite ones that
    its own format has room for stay finite, and the others become infinities.  Whole numbers stay
    finite in either format, and in the wider one all do. -/
structure Column.KeepsFinite (p : Precision) (texts : List String) (column : Column) : Prop where
  sampled : ∃ text ∈ texts, readsFinite text = true
  cells : ∀ row text, texts[row]? = some text → readsFinite text = true →
    ∃ x : Floating p, column.value true row = .ok (.cell (.floating p) x) ∧
      (x.isFinite = true ↔ Within p text) ∧ (x.isInfinite = true ↔ ¬ Within p text)
  finite_iff : column.HoldsFinite p ↔ ∃ text ∈ texts, Within p text
  whole : (∃ text ∈ texts, (Kind.signed .w64).reads text) → column.HoldsFinite p
  wide : p = .double →
    column.HoldsFinite p ∧ ∀ text ∈ texts, readsFinite text = true → Within p text

theorem Column.Holds.keepsFinite {header : String} {texts : List String} {column : Column}
    (holds : Holds header (some (.floating p)) texts column)
    (sampled : ∃ text ∈ texts, readsFinite text = true) : column.KeepsFinite p texts where
  sampled := sampled
  cells _ _ there finite := holds.value_finite there finite
  finite_iff := holds.holdsFinite_iff
  whole := fun ⟨text, member, reads⟩ =>
    holds.holdsFinite_iff.mpr ⟨text, member, within_of_reads reads⟩
  wide := by
    rintro rfl
    obtain ⟨text, member, finite⟩ := sampled
    exact ⟨holds.holdsFinite_iff.mpr ⟨text, member, readsFinite_iff.mp finite⟩,
      fun _ _ => readsFinite_iff.mp⟩

theorem exists_finite_of_guessed {texts : List String} {doublePrecision : Bool}
    (guessed : inferKind texts doublePrecision = some (.floating p)) :
    ∃ text ∈ texts, readsFinite text = true := by
  rw [← realKind_of_guessed guessed] at guessed
  exact (inferKind_eq_real_iff.mp guessed).2.1

namespace Frame

theorem HoldsRows.guessed_of_kind {headers : List String} {kinds : Nat → Option Kind} {width : Nat}
    {rows : List (List String)} {frame : Frame} {position : Nat} {column : Column}
    (holds : HoldsRows headers kinds width rows frame)
    (there : frame.columns[position]? = some column) (real : column.kind = .floating p) :
    kinds position = some (.floating p) := by
  have held := holds.holds position column there
  cases guessed : kinds position with
  | none =>
    rw [guessed] at held
    cases held
    contradiction
  | some kind =>
    rw [guessed] at held
    rw [← held.kind_eq, real]

/-- Every real column that is guessed from rows, in either precision, is made for the sake of a text
    that is a finite number in the wider format.  Each such number stays finite exactly if the format of
    the column has room for it, and is an infinity otherwise; so the column holds a finite number
    exactly if there is room for one of its texts, as there is in double precision and for whole
    numbers. -/
theorem ofTexts_finite_iff (rows : List (List String)) (headers : List String)
    (doublePrecision : Bool)
    (rectangular : ∀ row ∈ rows, row.length = inferredWidth rows headers) :
    ∃ frame, ofTexts rows headers doublePrecision = .ok frame ∧
      ∀ (position : Nat) (column : Column) (p : Precision),
        frame.columns[position]? = some column → column.kind = .floating p →
        realKind doublePrecision = .floating p ∧ column.KeepsFinite p (textsAt rows position) := by
  obtain ⟨frame, made, holds⟩ := ofTexts_holds rows headers doublePrecision rectangular
  refine ⟨frame, made, fun position column p there real => ?_⟩
  have guessed := holds.guessed_of_kind there real
  have held := holds.holds position column there
  rw [guessed] at held
  exact ⟨realKind_of_guessed guessed, held.keepsFinite (exists_finite_of_guessed guessed)⟩

/-- A number that single precision has no room for, one that it has room for, and an infinity. -/
def largeRows : List (List String) :=
  [["1e39"], ["1.5"], ["inf"]]

theorem ofTexts_finite_iff_large :
    ∃ frame column, ofTexts largeRows ["x"] false = .ok frame ∧ frame.columns[0]? = some column ∧
      column.HoldsFinite .single ∧
      ∃ x, column.value true 1 = .ok (.cell (.floating .single) x) ∧ x.isFinite = true := by
  obtain ⟨frame, made, columns⟩ := ofTexts_finite_iff largeRows ["x"] false (by decide)
  obtain ⟨_, made', holds⟩ := ofTexts_holds largeRows ["x"] false (by decide)
  cases made.symm.trans made'
  have guessed : kindAt false largeRows 0 = some (.floating .single) := by decide +kernel
  obtain ⟨column, there, held⟩ := holds.exists_column (by decide) guessed
  obtain ⟨_, keeps⟩ := columns 0 column .single there held.kind_eq
  have within : Within .single "1.5" := read_finite_iff.mp
    ⟨.ofDecimal false ⟨15, -1⟩, by decide +kernel, by decide +kernel⟩
  obtain ⟨x, shown, finite, _⟩ := keeps.cells 1 "1.5" (by decide) (by decide +kernel)
  exact ⟨frame, column, made, there, keeps.finite_iff.mpr ⟨"1.5", by decide, within⟩,
    x, shown, finite.mpr within⟩

/-- The number alone makes a real column in which nothing is finite. -/
theorem ofTexts_lacks_finite :
    readsFinite "1e39" = true ∧
      ∃ frame column, ofTexts [["1e39"]] ["x"] false = .ok frame ∧
        frame.columns[0]? = some column ∧ column.kind = .floating .single ∧
        column.value true 0 = .ok (.cell (.floating .single) (.infinite false)) ∧
        ¬ column.HoldsFinite .single := by
  obtain ⟨frame, made, holds⟩ := ofTexts_holds [["1e39"]] ["x"] false (by decide)
  have guessed : kindAt false [["1e39"]] 0 = some (.floating .single) := by decide +kernel
  obtain ⟨column, there, held⟩ := holds.exists_column (by decide) guessed
  have read : (Kind.floating .single).read "1e39" = some (.infinite false) := by decide +kernel
  have here : (textsAt [["1e39"]] 0)[0]? = some "1e39" := by decide
  obtain ⟨x, read', shown⟩ := held.value_plain_eq here
  rw [read] at read'
  cases read'
  refine ⟨by decide +kernel, frame, column, made, there, held.kind_eq, shown, fun finite => ?_⟩
  obtain ⟨text, member, within⟩ := held.holdsFinite_iff.mp finite
  cases List.mem_singleton.mp member
  obtain ⟨x, read', isFinite⟩ := read_finite_iff.mpr within
  rw [read] at read'
  cases read'
  simp [Floating.isFinite, Floating.infinite] at isFinite

end Frame

end LinkedTables
