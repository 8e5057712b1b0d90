import LinkedTables.Proofs.DocumentNumerals
import LinkedTables.Proofs.RoundedQuotients

/-! # The numerals of real numbers

Every number but NaN and the infinities has a numeral in documents.  It is one of the grammar, it is no
bare whole number, and however it is laid out, its decimal is rounded like the shortest decimal of the
number. -/

namespace LinkedTables

/-! ## Decimals of numerals -/

/-- The exponent of a numeral as it is written. -/
def Exponent.power (exponent : Exponent) : Int :=
  let size := Nat.ofDigitChars 10 exponent.digits 0
  if exponent.sign = .minus then -size else size

namespace Numeral

/-- The exponent of a numeral, zero if it has none. -/
def power (numeral : Numeral) : Int :=
  match numeral.exponent with
  | some exponent => exponent.power
  | none => 0

/-- The digits of a numeral with the exponent of the last one. -/
def decimal (numeral : Numeral) : Decimal :=
  ⟨Nat.ofDigitChars 10 (numeral.whole ++ numeral.fraction) 0,
    numeral.power - numeral.fraction.length⟩

end Numeral

theorem Numeral.decimal_digits (numeral : Numeral) :
    numeral.decimal.digits = Nat.ofDigitChars 10 (numeral.whole ++ numeral.fraction) 0 :=
  rfl

theorem Numeral.decimal_exponent (numeral : Numeral) :
    numeral.decimal.exponent = numeral.power - numeral.fraction.length :=
  rfl

@[simp] theorem Exponent.power_ofInteger (i : Int) : (Exponent.ofInteger i).power = i := by
  simp only [power, ofInteger, Nat.ofDigitChars_ten_toDigits]
  by_cases negative : i < 0
  case pos =>
    simp only [negative, if_true]
    omega
  case neg =>
    simp only [negative, if_false, reduceCtorEq]
    omega

theorem Exponent.wellFormed_ofInteger (i : Int) : (Exponent.ofInteger i).WellFormed :=
  ⟨Nat.toDigits_ne_nil, isDigit_toDigits i.natAbs⟩

namespace Precision

/-- Zero has no digits but zero. -/
@[simp] theorem shortest_zero (p : Precision) (tie : TieRule) : p.shortest tie 0 = ⟨0, 0⟩ := by
  cases p <;> cases tie <;> decide +kernel

@[simp] theorem codeOf_zero (p : Precision) (exponent : Int) : p.codeOf ⟨0, exponent⟩ = 0 := by
  cases exponent with
  | ofNat e => simpa [codeOf] using p.nearestCode_zero Nat.one_pos
  | negSucc e =>
    have positive : 0 < 10 ^ (e + 1) := Nat.pow_pos (by decide)
    simpa [codeOf] using p.nearestCode_zero positive

theorem codeOf_mul_ten (p : Precision) (digits : Nat) :
    p.codeOf ⟨10 * digits, -1⟩ = p.codeOf ⟨digits, 0⟩ := by
  rw [codeOf_natural]
  show p.nearestCode (10 * digits * p.unitsPerOne) (10 ^ (0 + 1)) = _
  have tenfold := p.nearestCode_mul (by decide : 0 < 10) (digits * p.unitsPerOne) 1
  rwa [← Nat.mul_assoc] at tenfold

/-- A number that is not zero has digits, or zero itself has no exponent. -/
theorem shortest_plain {p : Precision} {code : Nat} (finite : code < p.infinity) :
    (p.shortest .toEven code).digits ≠ 0 ∨ p.shortest .toEven code = ⟨0, 0⟩ := by
  by_cases zero : code = 0
  case pos =>
    rw [zero]
    exact .inr (p.shortest_zero .toEven)
  case neg =>
    refine .inl fun digits => zero ?_
    have rounded := codeOf_shortest .toEven finite
    generalize p.shortest .toEven code = d at digits rounded
    obtain ⟨number, exponent⟩ := d
    cases digits
    rw [← rounded, codeOf_zero]

end Precision

/-! ## Digits -/

theorem head?_toDigits_ne {n : Nat} (nonzero : n ≠ 0) : (Nat.toDigits 10 n).head? ≠ some '0' :=
  fun zero => nonzero (toDigits_eq_zero_iff.mp ((plainDigits_toDigits n).leading zero))

theorem plainDigits_of_head? {n : Nat} {digits : List Char} (nonzero : n ≠ 0)
    (head : digits.head? = (Nat.toDigits 10 n).head?) (all : ∀ c ∈ digits, c.isDigit = true) :
    PlainDigits digits := by
  refine ⟨?_, all, fun zero => absurd (head ▸ zero) (head?_toDigits_ne nonzero)⟩
  rintro rfl
  rw [List.head?_nil, eq_comm, List.head?_eq_none_iff] at head
  exact Nat.toDigits_ne_nil head

theorem ofDigitChars_lt {digits : List Char} (all : ∀ c ∈ digits, c.isDigit = true) (start : Nat) :
    Nat.ofDigitChars 10 digits start < (start + 1) * 10 ^ digits.length := by
  induction digits generalizing start with
  | nil => simp
  | cons c digits inductionHypothesis =>
    obtain ⟨digit, others⟩ := List.forall_mem_cons.mp all
    have small := (digitChar_of_isDigit digit).1
    rw [Nat.ofDigitChars_cons, List.length_cons, Nat.pow_succ]
    calc Nat.ofDigitChars 10 digits (10 * start + (c.toNat - '0'.toNat))
        < (10 * start + (c.toNat - '0'.toNat) + 1) * 10 ^ digits.length := inductionHypothesis others _
      _ ≤ ((start + 1) * 10) * 10 ^ digits.length := Nat.mul_le_mul_right _ (by omega)
      _ = (start + 1) * (10 ^ digits.length * 10) := by ring

/-- A decimal that is not too large has plain digits before its point, and not many. -/
theorem Decimal.positional_whole {d : Decimal} (plain : d.digits ≠ 0 ∨ d = ⟨0, 0⟩)
    (small : d.leadingExponent ≤ 15) :
    PlainDigits d.positional.1 ∧ d.positional.1.length ≤ 16 := by
  rcases plain with nonzero | rfl
  case inr => exact ⟨plainDigits_toDigits 0, by decide⟩
  obtain ⟨_, all, _⟩ := d.positional_spec (rfl : d.positional = (d.positional.1, d.positional.2))
  have wholeDigits := (List.forall_mem_append.mp all).1
  have digits := Nat.length_toDigits_pos (b := 10) (n := d.digits)
  obtain ⟨number, exponent⟩ := d
  simp only [leadingExponent] at nonzero digits small
  cases exponent with
  | ofNat zeros =>
    have head : (positional ⟨number, .ofNat zeros⟩).1.head? = (Nat.toDigits 10 number).head? :=
      List.head?_append_of_ne_nil _ Nat.toDigits_ne_nil
    refine ⟨plainDigits_of_head? nonzero head wholeDigits, ?_⟩
    rw [Int.ofNat_eq_natCast] at small
    simp only [positional, List.length_append, List.length_replicate]
    omega
  | negSucc places =>
    have length : (positional ⟨number, .negSucc places⟩).1.length =
        max 1 ((Nat.toDigits 10 number).length - (places + 1)) := by
      simp only [positional, List.length_take, List.length_append, List.length_replicate]
      omega
    refine ⟨?_, by omega⟩
    by_cases below : (Nat.toDigits 10 number).length ≤ places + 1
    case pos =>
      -- The one digit before the point is a zero in front of the digits.
      obtain ⟨more, zeros⟩ : ∃ more, places + 2 - (Nat.toDigits 10 number).length = more + 1 :=
        ⟨places + 1 - (Nat.toDigits 10 number).length, by omega⟩
      have single : (positional ⟨number, .negSucc places⟩).1 = ['0'] := by
        have count : more + (Nat.toDigits 10 number).length + 1 - (places + 1) = 1 := by omega
        simp [positional, zeros, List.replicate_succ, count]
      rw [single]
      exact plainDigits_toDigits 0
    case neg =>
      have zeros : places + 2 - (Nat.toDigits 10 number).length = 0 := by omega
      refine plainDigits_of_head? nonzero ?_ wholeDigits
      obtain ⟨count, shown⟩ : ∃ count, (Nat.toDigits 10 number).length - (places + 1) = count + 1 :=
        ⟨(Nat.toDigits 10 number).length - (places + 2), by omega⟩
      simp [positional, zeros, shown, List.head?_take]

/-! ## Numerals of numbers -/

/-- How the numeral of a finite number stands for its shortest decimal. -/
structure Numeral.StandsFor (numeral : Numeral) (negative : Bool) (d : Decimal) : Prop where
  sign : numeral.negative = negative
  wellFormed : numeral.WellFormed
  real : numeral.fraction ≠ [] ∨ numeral.exponent ≠ none
  short : numeral.whole.length ≤ 16
  power : ∀ exponent ∈ numeral.exponent, exponent = .ofInteger d.leadingExponent
  rounded : ∀ q : Precision, q.codeOf numeral.decimal = q.codeOf d

/-- A number laid out around a point, with a zero behind it if nothing else is. -/
theorem Decimal.positional_standsFor (negative : Bool) {d : Decimal} {whole fraction : List Char}
    (layout : d.positional = (whole, fraction)) (plain : d.digits ≠ 0 ∨ d = ⟨0, 0⟩)
    (small : d.leadingExponent ≤ 15) :
    Numeral.StandsFor ⟨negative, whole, if fraction = [] then ['0'] else fraction, none⟩
      negative d := by
  obtain ⟨wholePlain, wholeShort⟩ := d.positional_whole plain small
  obtain ⟨_, all, rounded⟩ := d.positional_spec layout
  rw [layout] at wholePlain wholeShort
  have fractionDigits := (List.forall_mem_append.mp all).2
  by_cases nothing : fraction = []
  case pos =>
    subst nothing
    rw [if_pos rfl]
    refine ⟨rfl, ⟨wholePlain, by simp, by simp⟩, .inl (by simp), wholeShort, by simp, fun q => ?_⟩
    rw [← rounded q, List.append_nil, List.length_nil, Int.natCast_zero, Int.neg_zero,
      ← q.codeOf_mul_ten, Numeral.decimal, Nat.ofDigitChars_append]
    rfl
  case neg =>
    rw [if_neg nothing]
    refine ⟨rfl, ⟨wholePlain, fractionDigits, by simp⟩, .inl nothing, wholeShort, by simp, fun q => ?_⟩
    rw [← rounded q, Numeral.decimal, Numeral.power, Int.zero_sub]

theorem Decimal.scientific_standsFor (negative : Bool) (d : Decimal) :
    Numeral.StandsFor ⟨negative, (Nat.toDigits 10 d.digits).take 1, (Nat.toDigits 10 d.digits).drop 1,
      some (.ofInteger d.leadingExponent)⟩ negative d := by
  have all := isDigit_toDigits d.digits
  have digits := Nat.length_toDigits_pos (b := 10) (n := d.digits)
  have decimal : Numeral.decimal ⟨negative, (Nat.toDigits 10 d.digits).take 1,
      (Nat.toDigits 10 d.digits).drop 1, some (.ofInteger d.leadingExponent)⟩ = d := by
    simp only [Numeral.decimal, Numeral.power, List.take_append_drop, Nat.ofDigitChars_ten_toDigits,
      Exponent.power_ofInteger, leadingExponent, List.length_drop]
    congr 1
    omega
  have single : ∃ c, (Nat.toDigits 10 d.digits).take 1 = [c] ∧ c.isDigit = true := by
    obtain ⟨c, others, shown⟩ := List.exists_cons_of_ne_nil (Nat.toDigits_ne_nil (b := 10) (n := d.digits))
    rw [shown] at all ⊢
    exact ⟨c, rfl, all c (by simp)⟩
  obtain ⟨c, first, digit⟩ := single
  refine ⟨rfl, ⟨?_, ?_, ?_⟩, .inr (by simp), by simp, ?_, fun q => by rw [decimal]⟩
  · show PlainDigits ((Nat.toDigits 10 d.digits).take 1)
    rw [first]
    exact ⟨by simp, by simpa using digit, by simp⟩
  · exact fun c member => all c (List.mem_of_mem_drop member)
  · rintro _ ⟨⟩
    exact Exponent.wellFormed_ofInteger _
  · rintro _ ⟨⟩
    rfl

namespace Floating

variable {p : Precision}

theorem numeral?_infinite {negative : Bool} {code : Fin (p.infinity + 1)}
    (infinite : code.val = p.infinity) : (number negative code).numeral? = none := by
  rw [numeral?, if_pos infinite]

theorem numeral?_finite (negative : Bool) {code : Fin (p.infinity + 1)}
    (finite : code.val < p.infinity) : ∃ numeral, (number negative code).numeral? = some numeral ∧
      numeral.StandsFor negative (p.shortest .toEven code.val) := by
  rw [numeral?, if_neg (Nat.ne_of_lt finite)]
  simp only
  split
  next window =>
    have greatest : p.greatestPositional ≤ 15 := by cases p <;> decide
    refine ⟨_, rfl, Decimal.positional_standsFor negative rfl (Precision.shortest_plain finite) ?_⟩
    omega
  next => exact ⟨_, rfl, Decimal.scientific_standsFor negative _⟩

/-- Only a finite number has a numeral, which stands for it. -/
theorem standsFor_of_numeral? {negative : Bool} {code : Fin (p.infinity + 1)} {numeral : Numeral}
    (written : (number negative code).numeral? = some numeral) : code.val < p.infinity ∧
      numeral.StandsFor negative (p.shortest .toEven code.val) := by
  have finite : code.val < p.infinity := by
    by_contra beyond
    rw [numeral?_infinite (by omega)] at written
    contradiction
  obtain ⟨_, shown, stands⟩ := numeral?_finite negative finite
  obtain rfl := Option.some.inj (shown.symm.trans written)
  exact ⟨finite, stands⟩

theorem numeral?_eq_none_iff {x : Floating p} : x.numeral? = none ↔ x.isFinite = false := by
  cases x with
  | nan => exact iff_of_true rfl rfl
  | number negative code =>
    by_cases finite : code.val < p.infinity
    case pos =>
      obtain ⟨numeral, written, _⟩ := numeral?_finite negative finite
      simp [written, isFinite, finite]
    case neg =>
      have infinite : code.val = p.infinity := by omega
      simp [numeral?_infinite infinite, isFinite, finite]

end Floating

end LinkedTables
