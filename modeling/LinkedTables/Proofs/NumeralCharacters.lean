import LinkedTables.Proofs.CellTexts

/-! # The characters of numbers

A text that is read as a real number is made of letters, digits, signs and points.  Neither a blank
nor a comma is among them, so a number ends where the next separator stands. -/

namespace LinkedTables

variable {c : Char} {text : List Char}

/-- The letters, digits, signs and points of which the texts of numbers are made. -/
def NumeralChar (c : Char) : Prop :=
  c.isAlphanum = true ∨ c ∈ ['+', '-', '.']

theorem toNat_of_isAlphanum (alphanum : c.isAlphanum = true) : 48 ≤ c.toNat ∧ c.toNat ≤ 122 := by
  rcases Bool.or_eq_true_iff.mp alphanum with letter | digit
  · rcases Bool.or_eq_true_iff.mp letter with upper | lower
    · obtain ⟨least, greatest⟩ := of_decide_eq_true upper
      have least : 65 ≤ c.toNat := UInt32.le_iff_toNat_le.mp least
      have greatest : c.toNat ≤ 90 := UInt32.le_iff_toNat_le.mp greatest
      omega
    · obtain ⟨least, greatest⟩ := Bool.and_eq_true_iff.mp lower
      have least : 97 ≤ c.toNat := UInt32.le_iff_toNat_le.mp (of_decide_eq_true least)
      have greatest : c.toNat ≤ 122 := UInt32.le_iff_toNat_le.mp (of_decide_eq_true greatest)
      omega
  · have range := toNat_of_isDigit digit
    omega

theorem isAlphanum_of_toLower (alphanum : c.toLower.isAlphanum = true) : c.isAlphanum = true := by
  unfold Char.toLower at alphanum
  split at alphanum
  next upper =>
    have letter : c.isAlpha = true := Bool.or_eq_true_iff.mpr (.inl (decide_eq_true upper))
    exact Bool.or_eq_true_iff.mpr (.inl letter)
  next => exact alphanum

theorem NumeralChar.inside (numeral : NumeralChar c) : isSeparator c = false := by
  rcases numeral with alphanum | mark
  · have range := toNat_of_isAlphanum alphanum
    have comma : c ≠ ',' := by
      rintro rfl
      contradiction
    simp [isSeparator, isBlank, blankRanges, comma]
    omega
  · exact isSeparator_of_mem (by decide) mark

theorem numeral_of_isDigit (digit : c.isDigit = true) : NumeralChar c :=
  .inl (Bool.or_eq_true_iff.mpr (.inr digit))

theorem numeral_of_readExponentDigits {size : Nat} (read : readExponentDigits text = some size) :
    ∀ c ∈ text, NumeralChar c := by
  simp only [readExponentDigits] at read
  split at read
  next digits => exact fun c member => numeral_of_isDigit (List.all_eq_true.mp digits.2 c member)
  next => contradiction

theorem numeral_of_readExponent {exponent : Int} (read : readExponent text = some exponent) :
    ∀ c ∈ text, NumeralChar c := by
  have letter : ∀ mark : Char, mark = 'e' ∨ mark = 'E' → NumeralChar mark := by
    rintro mark (rfl | rfl) <;> exact .inl (by decide)
  have sign : NumeralChar '-' ∧ NumeralChar '+' := ⟨.inr (by decide), .inr (by decide)⟩
  unfold readExponent at read
  split at read
  next => simp
  next mark digits =>
    obtain ⟨marked, read⟩ := Option.ite_none_right_eq_some.mp read
    obtain ⟨_, digits, _⟩ := Option.map_eq_some_iff.mp read
    obtain ⟨size, digits, _⟩ := Option.bind_eq_some_iff.mp digits
    simpa [letter mark marked, sign] using numeral_of_readExponentDigits digits
  next mark digits =>
    obtain ⟨marked, read⟩ := Option.ite_none_right_eq_some.mp read
    obtain ⟨size, digits, _⟩ := Option.map_eq_some_iff.mp read
    simpa [letter mark marked, sign] using numeral_of_readExponentDigits digits
  next mark digits _ _ =>
    obtain ⟨marked, read⟩ := Option.ite_none_right_eq_some.mp read
    obtain ⟨size, digits, _⟩ := Option.map_eq_some_iff.mp read
    simpa [letter mark marked] using numeral_of_readExponentDigits digits

theorem numeral_of_splitFraction (rest : ∀ c ∈ (splitFraction text).2, NumeralChar c) :
    ∀ c ∈ text, NumeralChar c := by
  unfold splitFraction at rest
  split at rest
  next behind =>
    rw [← List.takeWhile_append_dropWhile (p := Char.isDigit) (l := behind)]
    refine List.forall_mem_cons.mpr ⟨.inr (by decide), List.forall_mem_append.mpr ⟨?_, rest⟩⟩
    exact fun c member => numeral_of_isDigit (List.mem_takeWhile_imp member)
  next => exact rest

theorem numeral_of_readDecimal {d : Decimal} (read : readDecimal text = some d) :
    ∀ c ∈ text, NumeralChar c := by
  simp only [readDecimal] at read
  obtain ⟨_, read⟩ := Option.ite_none_left_eq_some.mp read
  obtain ⟨exponent, read, _⟩ := Option.map_eq_some_iff.mp read
  rw [← List.takeWhile_append_dropWhile (p := Char.isDigit) (l := text)]
  refine List.forall_mem_append.mpr ⟨?_, numeral_of_splitFraction (numeral_of_readExponent read)⟩
  exact fun c member => numeral_of_isDigit (List.mem_takeWhile_imp member)

theorem numeral_of_name {name : List Char} (letters : name.all Char.isAlphanum = true)
    (same : text.map Char.toLower = name) : ∀ c ∈ text, NumeralChar c := by
  subst same
  intro c member
  have letter := List.all_eq_true.mp letters _ (List.mem_map_of_mem member)
  exact .inl (isAlphanum_of_toLower letter)

theorem numeral_of_readMagnitude {p : Precision} {negative : Bool} {x : Floating p}
    (read : readMagnitude p negative text = some x) : ∀ c ∈ text, NumeralChar c := by
  unfold readMagnitude at read
  split at read
  next decimal => exact numeral_of_readDecimal decimal
  next =>
    simp only at read
    split at read
    next infinity =>
      rcases infinity with short | long
      · exact numeral_of_name (by decide) short
      · exact numeral_of_name (by decide) long
    next =>
      obtain ⟨nan, _⟩ := Option.ite_none_right_eq_some.mp read
      exact numeral_of_name (by decide) nan

theorem numeral_of_readReal {p : Precision} {x : Floating p} (read : readReal p text = some x) :
    ∀ c ∈ text, NumeralChar c := by
  unfold readReal at read
  split at read
  next => exact List.forall_mem_cons.mpr ⟨.inr (by decide), numeral_of_readMagnitude read⟩
  next => exact List.forall_mem_cons.mpr ⟨.inr (by decide), numeral_of_readMagnitude read⟩
  next => exact numeral_of_readMagnitude read

end LinkedTables
