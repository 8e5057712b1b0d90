import LinkedTables.Cell.Kind
import LinkedTables.Proofs.NumberRounding
import Mathlib.Data.List.TakeWhile

/-! # Numbers read as they are shown

Whole numbers are shown by their digits and real numbers by the shortest digits that read back.
Whichever decimal is chosen, and wherever its point is put, the text is read as the number. -/

namespace LinkedTables

/-! ## Digits -/

theorem isDigit_toDigits (n : Nat) : ∀ c ∈ Nat.toDigits 10 n, c.isDigit = true :=
  fun _ => Nat.isDigit_of_mem_toDigits (by decide) (by decide)

theorem readDigits_of_isDigit {text : List Char} (nonempty : text ≠ [])
    (digits : ∀ c ∈ text, c.isDigit = true) :
    readDigits text = some (Nat.ofDigitChars 10 text 0) := by
  rw [readDigits, if_pos ⟨nonempty, List.all_eq_true.mpr digits⟩]

@[simp] theorem readDigits_toDigits (n : Nat) : readDigits (Nat.toDigits 10 n) = some n := by
  rw [readDigits_of_isDigit Nat.toDigits_ne_nil (isDigit_toDigits n), Nat.ofDigitChars_ten_toDigits]

theorem exists_length_toDigits {n : Nat} (nonzero : n ≠ 0) :
    ∃ k, (Nat.toDigits 10 n).length = k + 1 ∧ 10 ^ k ≤ n ∧ n < 10 ^ (k + 1) := by
  obtain ⟨k, count⟩ := Nat.exists_eq_add_one_of_ne_zero
    (Nat.ne_of_gt (Nat.length_toDigits_pos (b := 10) (n := n)))
  have fits := (Nat.length_toDigits_le_iff (n := n) (by decide) (Nat.succ_pos k)).mp (Nat.le_of_eq count)
  refine ⟨k, count, ?_, fits⟩
  by_contra small
  cases k with
  | zero => exact small (Nat.pos_of_ne_zero nonzero)
  | succ k =>
    have fewer := (Nat.length_toDigits_le_iff (by decide) (Nat.succ_pos k)).mpr (Nat.not_le.mp small)
    omega

/-- A text that begins with a digit carries no sign. -/
theorem ne_sign_of_isDigit {c : Char} (digit : c.isDigit = true) : c ≠ '-' ∧ c ≠ '+' := by
  constructor <;> rintro rfl <;> exact absurd digit (by decide)

@[simp] theorem readInteger_chars (i : Int) : readInteger (Numeral.ofInteger i).chars = some i := by
  have digits := isDigit_toDigits i.natAbs
  have read := readDigits_toDigits i.natAbs
  by_cases negative : i < 0
  case pos =>
    have chars : (Numeral.ofInteger i).chars = '-' :: Nat.toDigits 10 i.natAbs := by
      simp [Numeral.ofInteger, Numeral.chars, negative]
    rw [chars, readInteger, read]
    show some (-(i.natAbs : Int)) = some i
    rw [Option.some.injEq]
    omega
  case neg =>
    have chars : (Numeral.ofInteger i).chars = Nat.toDigits 10 i.natAbs := by
      simp [Numeral.ofInteger, Numeral.chars, negative]
    rw [chars]
    cases shown : Nat.toDigits 10 i.natAbs with
    | nil => exact absurd shown Nat.toDigits_ne_nil
    | cons c rest =>
      rw [shown] at digits read
      obtain ⟨notMinus, notPlus⟩ := ne_sign_of_isDigit (digits c (by simp))
      rw [readInteger, read]
      · show some (i.natAbs : Int) = some i
        rw [Option.some.injEq]
        omega
      all_goals simp [notMinus, notPlus]

/-! ## Decimals -/

section

variable {whole fraction : List Char}

theorem readDecimal_digits (nonempty : whole ≠ []) (digits : ∀ c ∈ whole ++ fraction, c.isDigit = true) :
    readDecimal (whole ++ if fraction = [] then [] else '.' :: fraction) =
      some ⟨Nat.ofDigitChars 10 (whole ++ fraction) 0, -(fraction.length : Int)⟩ := by
  obtain ⟨wholeDigits, fractionDigits⟩ := List.forall_mem_append.mp digits
  by_cases point : fraction = []
  case pos =>
    subst point
    have taken : whole.takeWhile Char.isDigit = whole := List.takeWhile_eq_self_iff.mpr wholeDigits
    have dropped : whole.dropWhile Char.isDigit = [] := List.dropWhile_eq_nil_iff.mpr wholeDigits
    simp [readDecimal, taken, dropped, splitFraction, nonempty, readExponent]
  case neg =>
    have taken : (whole ++ '.' :: fraction).takeWhile Char.isDigit = whole := by
      rw [List.takeWhile_append_of_pos wholeDigits]
      simp
    have dropped : (whole ++ '.' :: fraction).dropWhile Char.isDigit = '.' :: fraction := by
      rw [List.dropWhile_append_of_pos wholeDigits]
      simp
    have taken' : fraction.takeWhile Char.isDigit = fraction :=
      List.takeWhile_eq_self_iff.mpr fractionDigits
    have dropped' : fraction.dropWhile Char.isDigit = [] :=
      List.dropWhile_eq_nil_iff.mpr fractionDigits
    simp [readDecimal, point, taken, dropped, splitFraction, taken', dropped', nonempty, readExponent]

theorem readReal_numeral (p : Precision) (negative : Bool) (nonempty : whole ≠ [])
    (digits : ∀ c ∈ whole ++ fraction, c.isDigit = true) :
    readReal p (Numeral.chars ⟨negative, whole, fraction, none⟩) =
      some (.ofDecimal negative
        ⟨Nat.ofDigitChars 10 (whole ++ fraction) 0, -(fraction.length : Int)⟩) := by
  have magnitude : readMagnitude p negative (whole ++ if fraction = [] then [] else '.' :: fraction) =
      some (.ofDecimal negative
        ⟨Nat.ofDigitChars 10 (whole ++ fraction) 0, -(fraction.length : Int)⟩) := by
    rw [readMagnitude, readDecimal_digits nonempty digits]
  have chars : Numeral.chars ⟨negative, whole, fraction, none⟩ =
      (if negative then ['-'] else []) ++
        (whole ++ if fraction = [] then [] else '.' :: fraction) := by
    simp [Numeral.chars]
  rw [chars]
  cases negative with
  | true => exact magnitude
  | false =>
    cases whole with
    | nil => contradiction
    | cons c rest =>
      obtain ⟨notMinus, notPlus⟩ := ne_sign_of_isDigit (digits c (by simp))
      simp only [Bool.false_eq_true, if_false, List.nil_append, List.cons_append] at magnitude ⊢
      rw [readReal, magnitude]
      all_goals simp [notMinus, notPlus]

end

/-- How a decimal is laid out makes no difference to what it is read as. -/
theorem Decimal.positional_spec (d : Decimal) {whole fraction : List Char}
    (layout : d.positional = (whole, fraction)) :
    whole ≠ [] ∧ (∀ c ∈ whole ++ fraction, c.isDigit = true) ∧
      ∀ p : Precision, p.codeOf ⟨Nat.ofDigitChars 10 (whole ++ fraction) 0,
        -(fraction.length : Int)⟩ = p.codeOf d := by
  obtain ⟨digits, exponent⟩ := d
  have zero : ∀ count, ∀ c ∈ List.replicate count '0', c.isDigit = true := by
    intro count c member
    rw [List.eq_of_mem_replicate member]
    decide
  cases exponent with
  | ofNat zeros =>
    cases layout
    refine ⟨List.append_ne_nil_of_left_ne_nil Nat.toDigits_ne_nil _, ?_, fun p => ?_⟩
    · rw [List.append_nil]
      exact List.forall_mem_append.mpr ⟨isDigit_toDigits digits, zero zeros⟩
    · rw [List.append_nil, Nat.ofDigitChars_append, Nat.ofDigitChars_replicate_zero,
        Nat.ofDigitChars_ten_toDigits]
      show p.nearestCode (10 ^ zeros * digits * Nat.pow 10 0 * p.unitsPerOne) 1 =
        p.nearestCode (digits * Nat.pow 10 zeros * p.unitsPerOne) 1
      rw [Nat.mul_comm digits]
      simp
  | negSucc places =>
    simp only [positional, Prod.mk.injEq] at layout
    obtain ⟨rfl, rfl⟩ := layout
    -- At least one digit stands before the point, and as many behind it as there are places.
    have long : places + 2 ≤ (List.replicate (places + 2 - (Nat.toDigits 10 digits).length) '0' ++
        Nat.toDigits 10 digits).length := by
      rw [List.length_append, List.length_replicate]
      omega
    refine ⟨?_, ?_, fun p => ?_⟩
    · apply List.ne_nil_of_length_pos
      rw [List.length_take]
      omega
    · rw [List.take_append_drop]
      exact List.forall_mem_append.mpr ⟨zero _, isDigit_toDigits digits⟩
    · rw [List.take_append_drop, Nat.ofDigitChars_append, Nat.ofDigitChars_replicate_zero,
        Nat.mul_zero, Nat.ofDigitChars_ten_toDigits, List.length_drop]
      congr 2
      omega

/-! ## Shortest decimals -/

namespace Precision

variable {p : Precision} {tie : TieRule} {code : Nat}

theorem codeOf_of_neighbour? {exact found : Decimal} {drop : Nat}
    (chosen : p.neighbour? tie code exact drop = some found) : p.codeOf found = code := by
  simp only [neighbour?] at chosen
  split at chosen
  · contradiction
  next low _ =>
    cases chosen
    exact beq_iff_eq.mp low
  next _ high =>
    cases chosen
    exact beq_iff_eq.mp high
  next low high =>
    -- Both neighbours read back, so the choice between them does not matter.
    have either : found = exact.below drop ∨ found = exact.above drop := by
      split at chosen
      · exact .inl (Option.some.inj chosen).symm
      split at chosen
      · exact .inr (Option.some.inj chosen).symm
      cases tie with
      | upward => exact .inr (Option.some.inj chosen).symm
      | toEven =>
        simp only at chosen
        split at chosen
        · exact .inl (Option.some.inj chosen).symm
        · exact .inr (Option.some.inj chosen).symm
    rcases either with rfl | rfl
    · exact beq_iff_eq.mp low
    · exact beq_iff_eq.mp high

theorem codeOf_shortest (tie : TieRule) (finite : code < p.infinity) :
    p.codeOf (p.shortest tie code) = code := by
  rw [shortest]
  cases search : (List.range digitLimit).findSome? fun n =>
      p.neighbour? tie code (p.exactDecimal code) ((p.exactDecimal code).length - (n + 1)) with
  | none => exact codeOf_exactDecimal finite
  | some found =>
    obtain ⟨n, _, chosen⟩ := List.exists_of_findSome?_eq_some search
    exact codeOf_of_neighbour? chosen

end Precision

/-! ## Real numbers -/

namespace Floating

variable {p : Precision}

theorem readReal_shortest (q : Precision) (negative : Bool) {code : Fin (p.infinity + 1)}
    (finite : code.val ≠ p.infinity) :
    readReal q (number negative code).displayChars =
      some (.ofDecimal negative (p.shortest .upward code.val)) := by
  obtain ⟨nonempty, digits, reads⟩ := (p.shortest .upward code.val).positional_spec rfl
  rw [displayChars, if_neg finite]
  show readReal q (Numeral.chars ⟨negative, _, _, none⟩) = _
  rw [readReal_numeral q negative nonempty digits]
  simp only [ofDecimal, reads]

@[simp] theorem readReal_displayChars (x : Floating p) : readReal p x.displayChars = some x := by
  cases x with
  | nan => cases p <;> rfl
  | number negative code =>
    by_cases infinite : code.val = p.infinity
    case pos =>
      obtain rfl : code = ⟨p.infinity, Nat.lt_succ_self _⟩ := Fin.ext infinite
      rw [displayChars, if_pos infinite]
      cases negative <;> cases p <;> rfl
    case neg =>
      have finite : code.val < p.infinity := by omega
      rw [readReal_shortest p negative infinite]
      simp only [ofDecimal, Precision.codeOf_shortest .upward finite]

end Floating

end LinkedTables
