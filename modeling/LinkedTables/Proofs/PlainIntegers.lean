import LinkedTables.Proofs.CellTexts
import Mathlib.Data.List.Induction

/-! # Plain whole numbers

Of all the texts that read as a whole number one is plain: it has no plus sign, no zero in front and
no blanks, and zero has no minus sign.  A plain number is shown as it was written, whatever width it
is kept in. -/

namespace LinkedTables

/-- Digits as they are written: at least one, and a zero in front only by itself. -/
structure PlainDigits (digits : List Char) : Prop where
  nonempty : digits ≠ []
  decimal : ∀ c ∈ digits, c.isDigit = true
  leading : digits.head? = some '0' → digits = ['0']

/-- A whole number of 64 bits as it is written. -/
inductive PlainInteger : String → Prop where
  | natural {digits : List Char} (plain : PlainDigits digits)
      (bound : (Nat.ofDigitChars 10 digits 0 : Int) < Width.half .w64) :
      PlainInteger (String.ofList digits)
  | negative {digits : List Char} (plain : PlainDigits digits) (nonzero : digits ≠ ['0'])
      (bound : (Nat.ofDigitChars 10 digits 0 : Int) ≤ Width.half .w64) :
      PlainInteger (String.ofList ('-' :: digits))

/-! ## Digits -/

theorem toDigits_eq_zero_iff {n : Nat} : Nat.toDigits 10 n = ['0'] ↔ n = 0 := by
  constructor
  · intro zero
    rw [← Nat.ofDigitChars_ten_toDigits (n := n), zero]
    rfl
  · rintro rfl
    rfl

theorem digitChar_of_isDigit {c : Char} (digit : c.isDigit = true) :
    c.toNat - '0'.toNat < 10 ∧ Nat.digitChar (c.toNat - '0'.toNat) = c := by
  have range := toNat_of_isDigit digit
  have zero : '0'.toNat = 48 := rfl
  have small : c.toNat - '0'.toNat < 10 := by omega
  refine ⟨small, Char.toNat_inj.mp ?_⟩
  rw [Nat.toNat_digitChar_of_lt_ten small]
  omega

namespace PlainDigits

variable {digits : List Char}

/-- Without its last digit a plain number of more than one digit is plain, and not zero. -/
theorem of_concat {c : Char} (plain : PlainDigits (digits ++ [c])) (more : digits ≠ []) :
    PlainDigits digits ∧ digits ≠ ['0'] := by
  have front : (digits ++ [c]).head? = digits.head? := List.head?_append_of_ne_nil _ more
  have nonzero : digits.head? ≠ some '0' := by
    intro zero
    have single := congrArg List.length (plain.leading (front.trans zero))
    rw [List.length_append, List.length_singleton, List.length_singleton] at single
    exact more (List.length_eq_zero_iff.mp (Nat.succ.inj single))
  refine ⟨⟨more, fun c member => plain.decimal c (List.mem_append_left _ member), ?_⟩, ?_⟩
  · intro zero
    exact absurd zero nonzero
  · rintro rfl
    exact nonzero rfl

theorem toDigits_ofDigitChars (plain : PlainDigits digits) :
    Nat.toDigits 10 (Nat.ofDigitChars 10 digits 0) = digits := by
  -- Digits are shown from the first and appended at the end, so the induction is from the end.
  induction digits using List.reverseRecOn with
  | nil => exact absurd rfl plain.nonempty
  | append_singleton digits c inductionHypothesis =>
    obtain ⟨small, shown⟩ := digitChar_of_isDigit (plain.decimal c (by simp))
    rw [Nat.ofDigitChars_append, Nat.ofDigitChars_cons, Nat.ofDigitChars_nil]
    by_cases single : digits = []
    case pos =>
      subst single
      rw [Nat.ofDigitChars_nil, Nat.mul_zero, Nat.zero_add, Nat.toDigits_of_lt_base small, shown]
      rfl
    case neg =>
      obtain ⟨plain', nonzero⟩ := plain.of_concat single
      have before := inductionHypothesis plain'
      have positive : 0 < Nat.ofDigitChars 10 digits 0 := by
        rwa [Nat.pos_iff_ne_zero, ne_eq, ← toDigits_eq_zero_iff, before]
      rw [← Nat.toDigits_append_toDigits (by decide) positive small, before,
        Nat.toDigits_of_lt_base small, shown]

end PlainDigits

/-- Digits are shown without a zero in front. -/
theorem plainDigits_toDigits (n : Nat) : PlainDigits (Nat.toDigits 10 n) := by
  refine ⟨Nat.toDigits_ne_nil, isDigit_toDigits n, ?_⟩
  induction n using Nat.strongRecOn with
  | ind n inductionHypothesis =>
    rw [Nat.toDigits_eq_if (by decide)]
    split
    next single =>
      intro zero
      rw [List.head?_cons, Option.some.injEq] at zero
      rw [zero]
    next more =>
      intro zero
      rw [List.head?_append_of_ne_nil _ Nat.toDigits_ne_nil] at zero
      -- The digits in front would show zero, but there is something to be shown.
      have nothing := toDigits_eq_zero_iff.mp (inductionHypothesis (n / 10) (by omega) zero)
      omega

/-! ## Whole numbers -/

theorem display_signed_of_nonneg {width : Width} {i : Signed width} (positive : 0 ≤ i.val) :
    (Kind.signed width).display i = String.ofList (Nat.toDigits 10 i.val.natAbs) := by
  have sign : ¬ i.val < 0 := Int.not_lt.mpr positive
  simp [Kind.display, Kind.displayChars, Numeral.ofInteger, Numeral.chars, sign]

theorem display_signed_of_neg {width : Width} {i : Signed width} (negative : i.val < 0) :
    (Kind.signed width).display i = String.ofList ('-' :: Nat.toDigits 10 i.val.natAbs) := by
  simp [Kind.display, Kind.displayChars, Numeral.ofInteger, Numeral.chars, negative]

theorem plainInteger_iff {text : String} :
    PlainInteger text ↔ ∃ i : Signed .w64, text = (Kind.signed .w64).display i := by
  constructor
  · intro plain
    -- Without a zero in front the digits are those of the number that they make up.
    cases plain with
    | @natural digits plain bound =>
      refine ⟨⟨Nat.ofDigitChars 10 digits 0, by simp only [Width.half]; omega, bound⟩, ?_⟩
      rw [display_signed_of_nonneg (Int.natCast_nonneg _), Int.natAbs_natCast,
        plain.toDigits_ofDigitChars]
    | @negative digits plain nonzero bound =>
      have shown := plain.toDigits_ofDigitChars
      have positive : Nat.ofDigitChars 10 digits 0 ≠ 0 := by
        rwa [ne_eq, ← toDigits_eq_zero_iff, shown]
      refine ⟨⟨-(Nat.ofDigitChars 10 digits 0 : Int), ?_, ?_⟩, ?_⟩
      · exact Int.neg_le_neg bound
      · simp only [Width.half]
        omega
      · have negative : -(Nat.ofDigitChars 10 digits 0 : Int) < 0 := by omega
        rw [display_signed_of_neg negative, Int.natAbs_neg, Int.natAbs_natCast, shown]
  · rintro ⟨⟨i, least, bound⟩, rfl⟩
    have plain := plainDigits_toDigits i.natAbs
    by_cases negative : i < 0
    · rw [display_signed_of_neg negative]
      refine .negative plain ?_ ?_
      · exact mt toDigits_eq_zero_iff.mp (Int.natAbs_ne_zero.mpr (Int.ne_of_lt negative))
      · rw [Nat.ofDigitChars_ten_toDigits]
        show (i.natAbs : Int) ≤ Width.half .w64
        omega
    · rw [display_signed_of_nonneg (Int.not_lt.mp negative)]
      refine .natural plain ?_
      rw [Nat.ofDigitChars_ten_toDigits]
      show (i.natAbs : Int) < Width.half .w64
      omega

theorem PlainInteger.display_of_read {text : String} (plain : PlainInteger text) {width : Width}
    {i : Signed width} (read : (Kind.signed width).read text = some i) :
    (Kind.signed width).display i = text := by
  obtain ⟨wide, rfl⟩ := plainInteger_iff.mp plain
  rw [Kind.read_display_signed] at read
  split at read
  next =>
    cases read
    rfl
  next => contradiction

theorem PlainInteger.reads {text : String} (plain : PlainInteger text) :
    (Kind.signed .w64).reads text := by
  obtain ⟨i, rfl⟩ := plainInteger_iff.mp plain
  rw [Kind.reads, Kind.read_display_signed, dif_pos i.property]
  rfl

end LinkedTables
