import LinkedTables.Proofs.KindInference
import LinkedTables.Proofs.NumberTexts

/-! # Cells read as they are shown

Neither a blank nor a comma is shown in a whole or a real number, so trimming changes nothing, and
what is read from the text of a cell is the content of the cell. -/

namespace LinkedTables

/-! ## Visible characters -/

theorem toNat_of_isDigit {c : Char} (digit : c.isDigit = true) : 48 ≤ c.toNat ∧ c.toNat ≤ 57 := by
  simpa [Char.isDigit, UInt32.le_iff_toNat_le] using digit

theorem isBlank_of_inside {c : Char} (inside : isSeparator c = false) : isBlank c = false :=
  (Bool.or_eq_false_iff.mp inside).2

theorem isSeparator_of_isDigit {c : Char} (digit : c.isDigit = true) : isSeparator c = false := by
  have range := toNat_of_isDigit digit
  have comma : ',' ≠ c := by
    rintro rfl
    contradiction
  simp [isSeparator, isBlank, blankRanges, comma.symm]
  omega

theorem trimBlanks_of_visible {text : List Char} (visible : ∀ c ∈ text, isBlank c = false) :
    trimBlanks text = text := by
  have kept : ∀ chars : List Char, (∀ c ∈ chars, isBlank c = false) →
      chars.dropWhile isBlank = chars := by
    intro chars all
    cases chars with
    | nil => rfl
    | cons c rest => rw [List.dropWhile_cons_of_neg (by simp [all c (by simp)])]
  rw [trimBlanks, kept text visible, kept text.reverse (by simpa using visible), List.reverse_reverse]

theorem isSeparator_numeral (negative : Bool) {whole fraction : List Char}
    (digits : ∀ c ∈ whole ++ fraction, c.isDigit = true) :
    ∀ c ∈ Numeral.chars ⟨negative, whole, fraction, none⟩, isSeparator c = false := by
  obtain ⟨wholeDigits, fractionDigits⟩ := List.forall_mem_append.mp digits
  simp only [Numeral.chars, List.append_nil]
  refine List.forall_mem_append.mpr ⟨List.forall_mem_append.mpr ⟨?_, ?_⟩, ?_⟩
  · cases negative with
    | true => exact List.forall_mem_singleton.mpr (by decide)
    | false => exact List.forall_mem_nil _
  · exact fun c member => isSeparator_of_isDigit (wholeDigits c member)
  · split
    · exact List.forall_mem_nil _
    · exact List.forall_mem_cons.mpr
        ⟨by decide, fun c member => isSeparator_of_isDigit (fractionDigits c member)⟩

theorem isSeparator_of_mem {c : Char} {word : List Char}
    (inside : word.all (!isSeparator ·) = true) (member : c ∈ word) : isSeparator c = false := by
  simpa using List.all_eq_true.mp inside c member

theorem isSeparator_displayChars {p : Precision} (x : Floating p) :
    ∀ c ∈ x.displayChars, isSeparator c = false := by
  cases x with
  | nan =>
    rw [Floating.displayChars]
    exact fun c => isSeparator_of_mem (by decide)
  | number negative code =>
    rw [Floating.displayChars]
    split
    · cases negative <;> exact fun c => isSeparator_of_mem (by decide)
    · obtain ⟨_, digits, _⟩ := (p.shortest .upward code.val).positional_spec rfl
      exact isSeparator_numeral negative digits

theorem Floating.displayChars_ne_nil {p : Precision} (x : Floating p) : x.displayChars ≠ [] := by
  intro bare
  have read := x.readReal_displayChars
  rw [bare] at read
  contradiction

/-! ## Whole numbers -/

namespace Kind

theorem displayChars_signed_visible {width : Width} (i : Signed width) :
    ∀ c ∈ (Kind.signed width).displayChars i, isBlank c = false := by
  refine fun c member => isBlank_of_inside (isSeparator_numeral _ ?_ c member)
  rw [List.append_nil]
  exact isDigit_toDigits _

theorem read_display_signed {width other : Width} (i : Signed width) :
    (Kind.signed other).read ((Kind.signed width).display i) =
      if h : -other.half ≤ i.val ∧ i.val < other.half then some ⟨i.val, h⟩ else none := by
  rw [Kind.read, Kind.display, String.toList_ofList, trimBlanks_of_visible
    (displayChars_signed_visible i), readBounded, displayChars, readInteger_chars]

/-- Nothing is trimmed from the text of a real number. -/
theorem read_floating_display {p : Precision} (q : Precision) (x : Floating p) :
    (Kind.floating q).read x.display = readReal q x.displayChars := by
  have visible : ∀ c ∈ x.displayChars, isBlank c = false :=
    fun c member => isBlank_of_inside (isSeparator_displayChars x c member)
  rw [Kind.read, Floating.display, String.toList_ofList, readCellReal,
    trimBlanks_of_visible visible, if_neg x.displayChars_ne_nil]

@[simp] theorem read_display_floating {p : Precision} (x : Floating p) :
    (Kind.floating p).read x.display = some x := by
  rw [read_floating_display, x.readReal_displayChars]

end Kind

end LinkedTables
