import LinkedTables.Proofs.DocumentRecords
import LinkedTables.Proofs.RoundingTwice

/-! # Real numbers read from documents

The numeral of a finite number is read as a number again, though not always as the same one: the
reader takes the significand and the power of ten apart and rounds each of them.  A numeral of few
digits and a small exponent is rounded once, and then the number comes back. -/

namespace LinkedTables

/-! ## The size of decimals -/

namespace Decimal

/-- Whether a decimal is no less than a natural number. -/
def AtLeast (d : Decimal) (n : Nat) : Prop :=
  match d.exponent with
  | .ofNat e => n ≤ d.digits * 10 ^ e
  | .negSucc e => n * 10 ^ (e + 1) ≤ d.digits

variable {d : Decimal} {p : Precision} {n : Nat}

/-- A decimal that is rounded to a finite code is not above the middle behind the code. -/
theorem AtLeast.twice_le (least : d.AtLeast n) (finite : p.codeOf d < p.infinity) :
    2 * n * p.unitsPerOne ≤ p.middle (p.codeOf d) := by
  obtain ⟨digits, exponent⟩ := d
  cases exponent with
  | ofNat e =>
    have middle := Precision.twice_le_of_nearestCode Nat.one_pos finite
    rw [Nat.mul_one] at middle
    refine le_trans ?_ middle
    rw [Nat.mul_assoc]
    exact Nat.mul_le_mul_left _ (Nat.mul_le_mul_right _ least)
  | negSucc e =>
    have power : 0 < Nat.pow 10 (e + 1) := Nat.pow_pos (by decide)
    have middle := Precision.twice_le_of_nearestCode power finite
    refine Nat.le_of_mul_le_mul_right (le_trans ?_ middle) power
    calc 2 * n * p.unitsPerOne * Nat.pow 10 (e + 1)
        = 2 * (n * 10 ^ (e + 1) * p.unitsPerOne) := by rw [Nat.pow_eq]; ring
      _ ≤ 2 * (digits * p.unitsPerOne) := Nat.mul_le_mul_left _ (Nat.mul_le_mul_right _ least)

theorem AtLeast.lt (least : d.AtLeast n) (finite : p.codeOf d < p.infinity) :
    n * p.unitsPerOne < 2 ^ p.topBits := by
  obtain ⟨digits, exponent⟩ := d
  cases exponent with
  | ofNat e =>
    have small := Precision.lt_of_nearestCode_lt finite
    rw [Nat.div_one] at small
    exact Nat.lt_of_le_of_lt (Nat.mul_le_mul_right _ least) small
  | negSucc e =>
    have power : 0 < Nat.pow 10 (e + 1) := Nat.pow_pos (by decide)
    have small := Precision.lt_of_nearestCode_lt finite
    rw [Nat.div_lt_iff_lt_mul power] at small
    refine Nat.lt_of_mul_lt_mul_right (a := Nat.pow 10 (e + 1)) (Nat.lt_of_le_of_lt ?_ small)
    calc n * p.unitsPerOne * Nat.pow 10 (e + 1)
        = n * 10 ^ (e + 1) * p.unitsPerOne := by rw [Nat.pow_eq]; ring
      _ ≤ digits * p.unitsPerOne := Nat.mul_le_mul_right _ least

/-- A number of some digits is no less than the power of ten of the first one. -/
theorem pow_le_digits (nonzero : d.digits ≠ 0) :
    10 ^ ((Nat.toDigits 10 d.digits).length - 1) ≤ d.digits := by
  obtain ⟨k, count, least, _⟩ := exists_length_toDigits nonzero
  rwa [count, Nat.add_sub_cancel]

theorem atLeast_leading (nonzero : d.digits ≠ 0) {e : Nat} (leading : d.leadingExponent = e) :
    d.AtLeast (10 ^ e) := by
  have large := pow_le_digits nonzero
  have digits := Nat.length_toDigits_pos (b := 10) (n := d.digits)
  obtain ⟨number, exponent⟩ := d
  simp only [leadingExponent] at leading large digits
  cases exponent with
  | ofNat places =>
    have split : e = (Nat.toDigits 10 number).length - 1 + places := by
      rw [Int.ofNat_eq_natCast] at leading
      omega
    show 10 ^ e ≤ number * 10 ^ places
    rw [split, Nat.pow_add]
    exact Nat.mul_le_mul_right _ large
  | negSucc places =>
    have split : (Nat.toDigits 10 number).length - 1 = e + (places + 1) := by omega
    show 10 ^ e * 10 ^ (places + 1) ≤ number
    rwa [← Nat.pow_add, ← split]

/-- The first digit of a finite number is not at a large power of ten. -/
theorem leadingExponent_lt (nonzero : d.digits ≠ 0) (finite : p.codeOf d < p.infinity) :
    d.leadingExponent < (p.topBits - p.unitPlaces : Nat) := by
  by_contra large
  obtain ⟨e, leading⟩ := Int.eq_ofNat_of_zero_le (by omega : 0 ≤ d.leadingExponent)
  have small := (atLeast_leading nonzero leading).lt finite
  have bits : p.unitPlaces ≤ p.topBits := by cases p <;> decide
  have split : 2 ^ p.topBits = 2 ^ (p.topBits - p.unitPlaces) * p.unitsPerOne := by
    rw [Precision.unitsPerOne_eq, ← Nat.pow_add, Nat.sub_add_cancel bits]
  rw [split] at small
  have power : 2 ^ (p.topBits - p.unitPlaces) ≤ 10 ^ e :=
    le_trans (Nat.pow_le_pow_right (by decide) (by omega)) (Nat.pow_le_pow_left (by decide) e)
  exact absurd (Nat.lt_of_mul_lt_mul_right small) (Nat.not_lt.mpr power)

/-- Nor is that of a number that is not rounded to zero. -/
theorem lt_leadingExponent (nonzero : p.codeOf d ≠ 0) :
    -(p.unitPlaces + 2 : Int) < d.leadingExponent := by
  obtain ⟨digits, exponent⟩ := d
  have length := Nat.length_toDigits_pos (b := 10) (n := digits)
  have fewer : digits < 10 ^ (Nat.toDigits 10 digits).length :=
    (Nat.length_toDigits_le_iff (by decide) length).mp (Nat.le_refl _)
  cases exponent with
  | ofNat e =>
    simp only [leadingExponent, Int.ofNat_eq_natCast]
    omega
  | negSucc e =>
    have large := Precision.le_of_nearestCode_ne_zero nonzero
    have power : 10 ^ (e + 1) < 10 ^ ((Nat.toDigits 10 digits).length + (p.unitPlaces + 1)) := by
      calc 10 ^ (e + 1)
          ≤ 2 * (digits * p.unitsPerOne) := large
        _ = digits * 2 ^ (p.unitPlaces + 1) := by rw [Precision.unitsPerOne_eq]; ring
        _ < 10 ^ (Nat.toDigits 10 digits).length * 2 ^ (p.unitPlaces + 1) :=
            Nat.mul_lt_mul_of_pos_right fewer (Nat.pow_pos (by decide))
        _ ≤ 10 ^ (Nat.toDigits 10 digits).length * 10 ^ (p.unitPlaces + 1) :=
            Nat.mul_le_mul_left _ (Nat.pow_le_pow_left (by decide) _)
        _ = 10 ^ ((Nat.toDigits 10 digits).length + (p.unitPlaces + 1)) := by rw [← Nat.pow_add]
    have places := (Nat.pow_lt_pow_iff_right (by decide)).mp power
    simp only [leadingExponent]
    omega

theorem leadingExponent_natAbs_le {code : Nat} (finite : code < p.infinity) :
    (p.shortest .toEven code).leadingExponent.natAbs ≤ Json.exponentLimit := by
  have rounded := Precision.codeOf_shortest .toEven finite
  rcases Precision.shortest_plain finite with nonzero | zero
  case inr =>
    rw [zero]
    decide
  by_cases none : code = 0
  case pos =>
    rw [none, p.shortest_zero]
    decide
  case neg =>
    have upper := leadingExponent_lt nonzero (rounded.symm ▸ finite)
    have lower := lt_leadingExponent (rounded.symm ▸ none)
    have range : p.topBits - p.unitPlaces ≤ 1024 ∧ p.unitPlaces ≤ 1074 := by cases p <;> decide
    rw [Json.exponentLimit]
    omega

end Decimal

/-! ## Reading numerals -/

namespace Json

open Precision (double)

/-- Some first digits are appended to a significand, all of them if they fit. -/
theorem accumulate_split (digits : List Char) (start : Nat) : ∃ taken unused,
    digits = taken ++ unused ∧
      accumulate start digits = (Nat.ofDigitChars 10 taken start, unused) := by
  induction digits generalizing start with
  | nil => exact ⟨[], [], rfl, rfl⟩
  | cons digit digits inductionHypothesis =>
    rw [accumulate]
    split
    case isTrue =>
      obtain ⟨taken, unused, rfl, rest⟩ :=
        inductionHypothesis (10 * start + (digit.toNat - '0'.toNat))
      exact ⟨digit :: taken, unused, rfl, by rw [rest, Nat.ofDigitChars_cons]⟩
    case isFalse => exact ⟨[], digit :: digits, rfl, rfl⟩

variable {numeral : Numeral} {negative : Bool} {d : Decimal} {taken unused : List Char}

/-- A numeral of a real number is read as its first digits times a power of ten. -/
theorem quantity?_of_standsFor (stands : numeral.StandsFor negative d)
    (bounded : d.leadingExponent.natAbs ≤ exponentLimit)
    (split : numeral.fraction = taken ++ unused)
    (accumulated : accumulate (Nat.ofDigitChars 10 numeral.whole 0) numeral.fraction =
      (Nat.ofDigitChars 10 taken (Nat.ofDigitChars 10 numeral.whole 0), unused)) :
    quantity? numeral =
      (scale (.ofNatural (Nat.ofDigitChars 10 (numeral.whole ++ taken) 0))
        (numeral.power - taken.length)).map fun x => .real (withSign negative x) := by
  -- The digits before the point always fit; of those behind it some may be left out.
  have short : Nat.ofDigitChars 10 numeral.whole 0 ≤ significandLimit := by
    have small := ofDigitChars_lt stands.wellFormed.whole.decimal 0
    have power : 10 ^ numeral.whole.length ≤ 10 ^ 16 :=
      Nat.pow_le_pow_right (by decide) stands.short
    rw [significandLimit]
    omega
  have used : numeral.fraction.length - unused.length = taken.length := by
    rw [split, List.length_append, Nat.add_sub_cancel]
  have bare : ¬ (numeral.fraction = [] ∧ numeral.exponent = none) := by
    rintro ⟨fraction, exponent⟩
    exact stands.real.elim (absurd fraction) (absurd exponent)
  simp only [quantity?, accumulate_of_le short, true_and, if_neg bare, accumulated, used,
    List.length_nil, Nat.ofDigitChars_append, stands.sign]
  cases exponent : numeral.exponent with
  | none =>
    simp only [applyExponent, Numeral.power, exponent, Option.map_map]
    rfl
  | some written =>
    obtain rfl := stands.power written exponent
    have size : ¬ exponentLimit < Nat.ofDigitChars 10 (Exponent.ofInteger d.leadingExponent).digits 0 := by
      simpa [Exponent.ofInteger] using bounded
    have power : numeral.power = (Exponent.ofInteger d.leadingExponent).power := by
      rw [Numeral.power, exponent]
    simp only [applyExponent, if_neg size, power, Exponent.power, Option.map_map]
    have shift (i : Int) : ((0 : Nat) : Int) - taken.length + i = i - taken.length := by omega
    rw [shift]
    rfl

theorem quantity?_of_short (stands : numeral.StandsFor negative d)
    (bounded : d.leadingExponent.natAbs ≤ exponentLimit) (short : numeral.decimal.digits ≤ 2 ^ 53)
    (low : numeral.decimal.exponent.natAbs ≤ 22) :
    quantity? numeral = some (.real (.ofDecimal negative numeral.decimal)) := by
  have fits : Nat.ofDigitChars 10 numeral.fraction (Nat.ofDigitChars 10 numeral.whole 0) ≤
      significandLimit := by
    rw [Numeral.decimal_digits, Nat.ofDigitChars_append] at short
    rw [significandLimit]
    omega
  have read := quantity?_of_standsFor stands bounded (List.append_nil _).symm (accumulate_of_le fits)
  rw [read]
  have exact : scale (.ofNatural (Nat.ofDigitChars 10 (numeral.whole ++ numeral.fraction) 0))
      (numeral.power - numeral.fraction.length) = some (.ofDecimal false numeral.decimal) :=
    scale_of_short short low
  rw [exact]
  cases negative <;> rfl

/-- The digits that are taken make up no more than the whole numeral. -/
theorem atLeast_taken (split : numeral.fraction = taken ++ unused) {e : Nat}
    (exponent : numeral.power - taken.length = e) :
    numeral.decimal.AtLeast (Nat.ofDigitChars 10 (numeral.whole ++ taken) 0 * 10 ^ e) := by
  have digits : Nat.ofDigitChars 10 (numeral.whole ++ taken) 0 * 10 ^ unused.length ≤
      numeral.decimal.digits := by
    rw [Numeral.decimal_digits, split, ← List.append_assoc,
      Nat.ofDigitChars_append (l := numeral.whole ++ taken), Nat.ofDigitChars_eq_ofDigitChars_zero (l := unused), Nat.mul_comm]
    exact Nat.le_add_right ..
  have behind : numeral.decimal.exponent = e - unused.length := by
    rw [Numeral.decimal_exponent, split, List.length_append]
    omega
  generalize Nat.ofDigitChars 10 (numeral.whole ++ taken) 0 = significand at digits ⊢
  generalize numeral.decimal = decimal at digits behind ⊢
  obtain ⟨number, place⟩ := decimal
  simp only at digits behind
  -- The exponent outweighs the digits that are left out, or some of them stand behind the point.
  cases place with
  | ofNat place =>
    have split : e = unused.length + place := by
      rw [Int.ofNat_eq_natCast] at behind
      omega
    show significand * 10 ^ e ≤ number * 10 ^ place
    rw [split, Nat.pow_add, ← Nat.mul_assoc]
    exact Nat.mul_le_mul_right _ digits
  | negSucc place =>
    have split : unused.length = e + (place + 1) := by omega
    show significand * 10 ^ e * 10 ^ (place + 1) ≤ number
    rwa [Nat.mul_assoc, ← Nat.pow_add, ← split]

theorem quantity?_isSome_of_safe (stands : numeral.StandsFor negative d)
    (bounded : d.leadingExponent.natAbs ≤ exponentLimit)
    (safe : ∀ n, numeral.decimal.AtLeast n → 2 * n * double.unitsPerOne ≤ greatestSafe) :
    (quantity? numeral).isSome = true := by
  obtain ⟨taken, unused, split, accumulated⟩ :=
    accumulate_split numeral.fraction (Nat.ofDigitChars 10 numeral.whole 0)
  rw [quantity?_of_standsFor stands bounded split accumulated, Option.isSome_map]
  -- Only a power that is applied as a factor can lead out of range.
  by_cases negative : numeral.power - taken.length < 0
  case pos => exact scale_isSome_of_neg negative _
  case neg =>
    obtain ⟨e, exponent⟩ := Int.eq_ofNat_of_zero_le (Int.not_lt.mp negative)
    rw [exponent]
    exact scale_isSome_of_safe (safe _ (atLeast_taken split exponent))

end Json

/-! ## Numbers that are read -/

namespace Floating

open Precision (double single)

variable {p : Precision}

/-- What is finite in the narrower format is far below the greatest numbers of the wider one. -/
theorem safe_of_single {d : Decimal} (finite : single.codeOf d < single.infinity) (n : Nat)
    (least : d.AtLeast n) : 2 * n * double.unitsPerOne ≤ Json.greatestSafe := by
  have small := least.lt finite
  have split : 2 ^ single.topBits = 2 ^ (single.topBits - single.unitPlaces) * single.unitsPerOne := by
    rw [Precision.unitsPerOne_eq, ← Nat.pow_add]
    exact congrArg (2 ^ ·) rfl
  rw [split] at small
  have below := Nat.lt_of_mul_lt_mul_right small
  have room : 2 * 2 ^ (single.topBits - single.unitPlaces) * double.unitsPerOne ≤
      Json.greatestSafe := by decide +kernel
  exact le_trans (Nat.mul_le_mul_right _ (Nat.mul_le_mul_left _ (Nat.le_of_lt below))) room

/-- Below the three greatest numbers nothing that is rounded to a number is unsafe. -/
theorem safe_of_double {d : Decimal} (low : double.codeOf d ≤ double.infinity - 4) (n : Nat)
    (least : d.AtLeast n) : 2 * n * double.unitsPerOne ≤ Json.greatestSafe := by
  have top : double.infinity - 4 < double.infinity := by decide
  have middle := least.twice_le (Nat.lt_of_le_of_lt low top)
  have before := double.units_mono low
  have behind := double.units_mono (Nat.add_le_add_right low 1)
  exact le_trans middle (Nat.add_le_add before behind)

/-- A number in the order of the greatest ones is read as a number if its product is in range. -/
theorem quantity?_isSome_of_product (negative : Bool) {code : Fin (double.infinity + 1)}
    (digits : Nat) (finite : code.val < double.infinity)
    (shortest : double.shortest .toEven code.val = ⟨digits, 292⟩)
    (length : (Nat.toDigits 10 digits).length = 17) (fits : digits ≤ Json.significandLimit)
    (within : ((ofNatural digits).timesPower (Json.powerOfTen 292)).isInfinite = false) :
    ∃ numeral, (number negative code : Double).numeral? = some numeral ∧
      (Json.quantity? numeral).isSome = true := by
  have leading : (Decimal.mk digits 292).leadingExponent = 308 := by
    rw [Decimal.leadingExponent, length]
    rfl
  have written : (number negative code : Double).numeral? =
      some ⟨negative, (Nat.toDigits 10 digits).take 1, (Nat.toDigits 10 digits).drop 1,
        some (.ofInteger 308)⟩ := by
    rw [numeral?, if_neg (Nat.ne_of_lt finite)]
    simp only [shortest, leading]
    rfl
  obtain ⟨_, stands⟩ := standsFor_of_numeral? written
  have shown : Nat.ofDigitChars 10 ((Nat.toDigits 10 digits).take 1 ++
      (Nat.toDigits 10 digits).drop 1) 0 = digits := by
    rw [List.take_append_drop, Nat.ofDigitChars_ten_toDigits]
  have exponent : ((308 : Int) - ((Nat.toDigits 10 digits).drop 1).length) = (292 : Nat) := by
    rw [List.length_drop, length]
    rfl
  have accumulated := Json.accumulate_of_le (le_of_eq_of_le
    ((Nat.ofDigitChars_append _).symm.trans shown) fits)
  refine ⟨_, written, ?_⟩
  rw [Json.quantity?_of_standsFor stands (Decimal.leadingExponent_natAbs_le finite)
    (List.append_nil _).symm accumulated, Option.isSome_map]
  simp only [shown, Numeral.power, Exponent.power_ofInteger, exponent]
  rw [Json.scale, if_pos (by decide), if_pos (by decide)]
  simp only [Int.natAbs_natCast, within]
  rfl

theorem quantity?_isSome_of_greatest (negative : Bool) {code : Fin (double.infinity + 1)}
    (finite : code.val < double.infinity) (high : double.infinity - 4 < code.val) :
    ∃ numeral, (number negative code : Double).numeral? = some numeral ∧
      (Json.quantity? numeral).isSome = true := by
  have three : code.val = double.infinity - 1 ∨ code.val = double.infinity - 2 ∨
      code.val = double.infinity - 3 := by omega
  rcases three with first | second | third
  · exact quantity?_isSome_of_product negative 17976931348623157 finite
      (first ▸ by decide +kernel) rfl (by decide) (by decide +kernel)
  · exact quantity?_isSome_of_product negative 17976931348623155 finite
      (second ▸ by decide +kernel) rfl (by decide) (by decide +kernel)
  · exact quantity?_isSome_of_product negative 17976931348623153 finite
      (third ▸ by decide +kernel) rfl (by decide) (by decide +kernel)

theorem quantity?_isSome (negative : Bool) {code : Fin (p.infinity + 1)}
    (finite : code.val < p.infinity) : ∃ numeral, (number negative code).numeral? = some numeral ∧
      (Json.quantity? numeral).isSome = true := by
  obtain ⟨numeral, written, stands⟩ := numeral?_finite negative finite
  have bounded := Decimal.leadingExponent_natAbs_le finite
  have rounded : p.codeOf numeral.decimal = code.val := by
    rw [stands.rounded, Precision.codeOf_shortest .toEven finite]
  cases p with
  | single =>
    exact ⟨numeral, written, Json.quantity?_isSome_of_safe stands bounded
      (safe_of_single (rounded ▸ finite))⟩
  | double =>
    by_cases low : code.val ≤ double.infinity - 4
    case pos =>
      exact ⟨numeral, written, Json.quantity?_isSome_of_safe stands bounded
        (safe_of_double (rounded ▸ low))⟩
    case neg => exact quantity?_isSome_of_greatest negative finite (Nat.not_le.mp low)

/-- A number whose numeral has few digits and a small exponent, few enough to be rounded twice if it
    is one of the narrower format. -/
def Short (x : Floating p) : Prop :=
  ∃ numeral, x.numeral? = some numeral ∧ numeral.decimal.digits ≤ 2 ^ 53 ∧
    numeral.decimal.exponent.natAbs ≤ 22 ∧ (p = single → numeral.decimal.Few)

/-- A number that is read from its document as it was written. -/
def Restored (x : Floating p) : Prop :=
  (Json.ofReal x).asReal? p = some x

theorem ofReal_eq_null (x : Floating p) (infinite : x.isFinite = false) : Json.ofReal x = .null := by
  rw [Json.ofReal, numeral?_eq_none_iff.mpr infinite]

/-- Just the finite numbers are read back at all. -/
@[simp] theorem asReal?_ofReal_isSome (q : Precision) (x : Floating p) :
    ((Json.ofReal x).asReal? q).isSome = x.isFinite := by
  cases finite : x.isFinite with
  | false =>
    rw [ofReal_eq_null x finite]
    rfl
  | true =>
    cases x with
    | nan => contradiction
    | number negative code =>
      obtain ⟨numeral, written, read⟩ := quantity?_isSome negative (decide_eq_true_eq.mp finite)
      obtain ⟨quantity, denotes⟩ := Option.isSome_iff_exists.mp read
      rw [Json.ofReal, written]
      simp only [Json.asReal?, Json.asQuantity?, denotes]
      cases quantity <;> rfl

theorem Restored.isFinite {x : Floating p} (restored : x.Restored) : x.isFinite = true := by
  rw [← asReal?_ofReal_isSome p x, restored]
  rfl

theorem spellable_ofReal (x : Floating p) : (Json.ofReal x).Spellable := by
  cases written : x.numeral? with
  | none =>
    rw [Json.ofReal, written]
    trivial
  | some numeral =>
    cases x with
    | nan => contradiction
    | number negative code =>
      rw [Json.ofReal, written]
      exact (standsFor_of_numeral? written).2.wellFormed

@[simp] theorem convert_self (x : Floating p) : x.convert = x := by
  cases x with
  | nan => rfl
  | number negative code =>
    by_cases infinite : code.val = p.infinity
    case pos =>
      obtain rfl : code = ⟨p.infinity, Nat.lt_succ_self _⟩ := Fin.ext infinite
      rw [convert, if_pos infinite]
      rfl
    case neg =>
      have finite : code.val < p.infinity := by omega
      have rounded := Precision.nearestCode_units finite p.unitsPerOne_pos
      rw [convert, if_neg infinite]
      simp only [ofQuotient, rounded]

theorem convert_ofDecimal {d : Decimal} {code : Fin (p.infinity + 1)} (negative : Bool)
    (rounded : p.codeOf d = code.val) (finite : code.val < p.infinity) (few : p = single → d.Few) :
    (ofDecimal negative d : Double).convert = number negative code := by
  cases p with
  | double =>
    rw [convert_self]
    simp only [ofDecimal, rounded]
  | single =>
    have wide := Precision.codeOf_double_lt (rounded ▸ finite)
    have twice := (few rfl).codeOf_twice (rounded ▸ finite)
    rw [ofDecimal, convert, if_neg (Nat.ne_of_lt wide)]
    simp only [ofQuotient, twice, rounded]

theorem Short.restored {x : Floating p} (short : x.Short) : x.Restored := by
  obtain ⟨numeral, written, digits, exponent, few⟩ := short
  cases x with
  | nan => contradiction
  | number negative code =>
    obtain ⟨finite, stands⟩ := standsFor_of_numeral? written
    have read := Json.quantity?_of_short stands (Decimal.leadingExponent_natAbs_le finite) digits exponent
    have rounded : p.codeOf numeral.decimal = code.val := by
      rw [stands.rounded, Precision.codeOf_shortest .toEven finite]
    rw [Restored, Json.ofReal, written]
    simp only [Json.asReal?, Json.asQuantity?, read, convert_ofDecimal negative rounded finite few]

end Floating

end LinkedTables
