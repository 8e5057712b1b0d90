import LinkedTables.Json.Decoding
import LinkedTables.Proofs.PlainIntegers

/-! # Numerals in documents

A numeral is written as it stands, so it is read up to where it ends.  What it denotes is settled
behind that: a whole number of 64 bits, with a sign or without, denotes itself. -/

namespace LinkedTables

/-- An exponent of the grammar has digits. -/
def Exponent.WellFormed (exponent : Exponent) : Prop :=
  exponent.digits ≠ [] ∧ ∀ c ∈ exponent.digits, c.isDigit = true

/-- A numeral of the grammar: plain digits before the point, any behind it, and perhaps an
    exponent. -/
structure Numeral.WellFormed (numeral : Numeral) : Prop where
  whole : PlainDigits numeral.whole
  fraction : ∀ c ∈ numeral.fraction, c.isDigit = true
  exponent : ∀ part ∈ numeral.exponent, part.WellFormed

namespace Json

variable {digits rest : List Char} {c : Char}

/-- A text that does not go on with a number. -/
def Ends (rest : List Char) : Prop :=
  ∀ c ∈ rest.head?, c.isDigit = false ∧ c ≠ '.' ∧ c ≠ 'e' ∧ c ≠ 'E'

theorem takeWhile_digits (all : ∀ c ∈ digits, c.isDigit = true)
    (stop : ∀ c ∈ rest.head?, c.isDigit = false) :
    (digits ++ rest).takeWhile Char.isDigit = digits := by
  rw [List.takeWhile_append_of_pos all]
  cases rest with
  | nil => simp
  | cons c rest => simp [stop c rfl]

theorem dropWhile_digits (all : ∀ c ∈ digits, c.isDigit = true)
    (stop : ∀ c ∈ rest.head?, c.isDigit = false) :
    (digits ++ rest).dropWhile Char.isDigit = rest := by
  rw [List.dropWhile_append_of_pos all]
  cases rest with
  | nil => rfl
  | cons c rest => simp [stop c rfl]

theorem readWhole_digits (plain : PlainDigits digits)
    (stop : ∀ c ∈ rest.head?, c.isDigit = false) :
    readWhole (digits ++ rest) = some (digits, rest) := by
  obtain ⟨nonempty, all, leading⟩ := plain
  have taken := takeWhile_digits all stop
  have dropped := dropWhile_digits all stop
  cases digits with
  | nil => contradiction
  | cons c others =>
    by_cases zero : c = '0'
    case pos =>
      subst zero
      obtain rfl : others = [] := (List.cons.inj (leading rfl)).2
      cases rest with
      | nil => rfl
      | cons c rest => simp [readWhole, stop c rfl]
    case neg =>
      rw [List.cons_append, readWhole]
      · rw [← List.cons_append, taken, dropped, if_neg nonempty]
      · rintro others' equal
        exact zero (List.cons.inj equal).1

theorem readExponentOf_digits (sign : ExponentSign) (nonempty : digits ≠ [])
    (all : ∀ c ∈ digits, c.isDigit = true) (stop : ∀ c ∈ rest.head?, c.isDigit = false) :
    readExponentOf sign (digits ++ rest) = some (some ⟨sign, digits⟩, rest) := by
  simp only [readExponentOf, takeWhile_digits all stop, dropWhile_digits all stop, if_neg nonempty]

/-- The characters of an exponent that may be absent. -/
def exponentChars (exponent : Option Exponent) : List Char :=
  match exponent with
  | some exponent => exponent.chars
  | none => []

theorem readExponentPart_chars {exponent : Option Exponent}
    (wellFormed : ∀ part ∈ exponent, part.WellFormed) (ends : Ends rest) :
    readExponentPart (exponentChars exponent ++ rest) = some (exponent, rest) := by
  have stop : ∀ c ∈ rest.head?, c.isDigit = false := fun c first => (ends c first).1
  cases exponent with
  | none =>
    cases rest with
    | nil => rfl
    | cons c rest =>
      obtain ⟨_, _, small, capital⟩ := ends c rfl
      simp [exponentChars, readExponentPart, small, capital]
  | some exponent =>
    obtain ⟨nonempty, all⟩ := wellFormed exponent rfl
    obtain ⟨sign, digits⟩ := exponent
    have read := readExponentOf_digits sign nonempty all stop
    -- Without a sign the first digit must not be taken for one.
    cases sign with
    | plus | minus => exact read
    | absent =>
      cases digits with
      | nil => contradiction
      | cons c digits =>
        have digit : c.isDigit = true := all c (by simp)
        have notPlus : c ≠ '+' := by rintro rfl; exact absurd digit (by decide)
        have notMinus : c ≠ '-' := by rintro rfl; exact absurd digit (by decide)
        show readExponentPart ('e' :: c :: (digits ++ rest)) = _
        rw [readExponentPart, if_pos (.inl rfl)]
        · exact read
        all_goals simp [notPlus, notMinus]

/-- A numeral without its sign is read up to where it ends. -/
theorem readUnsigned_chars {numeral : Numeral} (wellFormed : numeral.WellFormed)
    (ends : Ends rest) :
    readUnsigned numeral.negative (numeral.whole ++
      ((if numeral.fraction = [] then [] else '.' :: numeral.fraction) ++
        (exponentChars numeral.exponent ++ rest))) = some (numeral, rest) := by
  obtain ⟨negative, whole, fraction, exponent⟩ := numeral
  obtain ⟨plain, fractionDigits, exponentDigits⟩ := wellFormed
  have exponentRead := readExponentPart_chars exponentDigits ends
  -- Whatever follows the digits, it is no digit.
  have exponentStop : ∀ c ∈ (exponentChars exponent ++ rest).head?, c.isDigit = false ∧ c ≠ '.' := by
    intro c first
    cases exponent with
    | none =>
      obtain ⟨digit, point, _⟩ := ends c first
      exact ⟨digit, point⟩
    | some exponent =>
      obtain ⟨sign, digits⟩ := exponent
      obtain rfl : c = 'e' := by cases sign <;> exact (Option.some.inj first).symm
      decide
  by_cases point : fraction = []
  case pos =>
    subst point
    have wholeRead := readWhole_digits plain
      fun c first => (exponentStop c first).1
    have fractionRead : readFraction (exponentChars exponent ++ rest) =
        some ([], exponentChars exponent ++ rest) := by
      rw [readFraction]
      intro others equal
      exact (exponentStop '.' (by rw [equal]; rfl)).2 rfl
    simp only [readUnsigned, if_true, List.nil_append, wholeRead, fractionRead, exponentRead,
      Option.bind_eq_bind, Option.bind_some, Option.pure_def]
  case neg =>
    have wholeRead : readWhole (whole ++ '.' :: (fraction ++ (exponentChars exponent ++ rest))) =
        some (whole, '.' :: (fraction ++ (exponentChars exponent ++ rest))) :=
      readWhole_digits plain fun c first => by cases first; decide
    have stop : ∀ c ∈ (exponentChars exponent ++ rest).head?, c.isDigit = false :=
      fun c first => (exponentStop c first).1
    have fractionRead : readFraction ('.' :: (fraction ++ (exponentChars exponent ++ rest))) =
        some (fraction, exponentChars exponent ++ rest) := by
      simp only [readFraction, takeWhile_digits fractionDigits stop,
        dropWhile_digits fractionDigits stop, if_neg point]
    simp only [readUnsigned, if_neg point, List.cons_append, wholeRead, fractionRead, exponentRead,
      Option.bind_eq_bind, Option.bind_some, Option.pure_def]

theorem readNumeral_chars {numeral : Numeral} (wellFormed : numeral.WellFormed) (ends : Ends rest) :
    readNumeral (numeral.chars ++ rest) = some (numeral, rest) := by
  have unsigned := readUnsigned_chars wellFormed ends
  have chars : numeral.chars ++ rest = (if numeral.negative then ['-'] else []) ++ (numeral.whole ++
      ((if numeral.fraction = [] then [] else '.' :: numeral.fraction) ++
        (exponentChars numeral.exponent ++ rest))) := by
    simp only [Numeral.chars, List.append_assoc]
    rfl
  rw [chars]
  cases negative : numeral.negative with
  | true =>
    rw [negative] at unsigned
    exact unsigned
  | false =>
    rw [negative] at unsigned
    rw [readNumeral]
    · exact unsigned
    · -- A sign is no digit.
      obtain ⟨c, others, whole⟩ := List.exists_cons_of_ne_nil wellFormed.whole.nonempty
      have digit := wellFormed.whole.decimal c (by simp [whole])
      rintro rest' equal
      rw [whole] at equal
      obtain rfl : c = '-' := (List.cons.inj equal).1
      exact absurd digit (by decide)

/-! ## What whole numbers denote -/

theorem accumulate_of_le {significand : Nat}
    (fits : Nat.ofDigitChars 10 digits significand ≤ significandLimit) :
    accumulate significand digits = (Nat.ofDigitChars 10 digits significand, []) := by
  induction digits generalizing significand with
  | nil => rfl
  | cons digit digits inductionHypothesis =>
    rw [Nat.ofDigitChars_cons] at fits ⊢
    have here : 10 * significand + (digit.toNat - '0'.toNat) ≤ significandLimit := by
      refine Nat.le_trans ?_ fits
      rw [Nat.ofDigitChars_eq_ofDigitChars_zero]
      exact (Nat.le_mul_of_pos_left _ (Nat.pow_pos (by decide))).trans (Nat.le_add_right ..)
    rw [accumulate, if_pos here, inductionHypothesis fits]

theorem quantity?_ofInteger {i : Int} (least : -0x8000000000000000 ≤ i)
    (most : i < 0x10000000000000000) : quantity? (.ofInteger i) = some (.whole i) := by
  have shown : Nat.ofDigitChars 10 (Nat.toDigits 10 i.natAbs) 0 = i.natAbs :=
    Nat.ofDigitChars_ten_toDigits
  have fits : Nat.ofDigitChars 10 (Nat.toDigits 10 i.natAbs) 0 ≤ significandLimit := by
    rw [shown, significandLimit]
    omega
  simp only [quantity?, Numeral.ofInteger, accumulate_of_le fits, shown, and_self, if_true,
    wholeQuantity, decide_eq_true_eq, Option.some.injEq]
  split
  next negative =>
    rw [if_neg (by omega)]
    congr 1
    omega
  next positive =>
    congr 1
    omega

theorem asBelow?_ofInteger {bound : Nat} (n : Fin bound) (words : bound ≤ 0x10000000000000000) :
    (ofInteger n.val).asBelow? bound = some n := by
  have denotes : (ofInteger n.val).asQuantity? = some (.whole n.val) :=
    quantity?_ofInteger (by omega) (by omega)
  simp [asBelow?, denotes]

theorem asBounded?_ofInteger {least bound : Int} (i : { i : Int // least ≤ i ∧ i < bound })
    (words : -0x8000000000000000 ≤ least ∧ bound ≤ 0x10000000000000000) :
    (ofInteger i.val).asBounded? least bound = some i := by
  have range := i.property
  have denotes : (ofInteger i.val).asQuantity? = some (.whole i.val) :=
    quantity?_ofInteger (by omega) (by omega)
  simp [asBounded?, denotes, range]

theorem wellFormed_ofInteger (i : Int) : (Numeral.ofInteger i).WellFormed :=
  ⟨plainDigits_toDigits i.natAbs, by simp [Numeral.ofInteger], by simp [Numeral.ofInteger]⟩

end Json

end LinkedTables
