import LinkedTables.Inference
import Mathlib.Data.List.DropRight

/-! # A guessed kind reads every text

`inferKind` looks at trimmed texts and leaves the blank ones out, and it may widen the kind that
the others suggest.  A column made of the guess then reads the texts as they stand.  That no text
is refused rests on three facts: blanks at the ends make no difference to any kind, a whole number
reads as a real one, and which texts read as real numbers does not depend on the precision. -/

namespace LinkedTables

/-! ## Blanks -/

@[simp] theorem dropWhile_trimBlanks (text : List Char) :
    (trimBlanks text).dropWhile isBlank = trimBlanks text := by
  have start : trimBlanks text <+: text.dropWhile isBlank := List.rdropWhile_prefix isBlank _
  cases trimmed : trimBlanks text with
  | nil => rfl
  | cons c rest =>
    rw [trimmed] at start
    obtain ⟨tail, whole⟩ := start
    have stops : text.dropWhile isBlank ≠ [] := by simp [← whole]
    have visible := List.head_dropWhile_not isBlank stops
    simp only [← whole, List.cons_append, List.head_cons] at visible
    rw [List.dropWhile_cons_of_neg (by simpa using visible)]

@[simp] theorem trimBlanks_trimBlanks (text : List Char) :
    trimBlanks (trimBlanks text) = trimBlanks text := by
  have ends : (trimBlanks text).rdropWhile isBlank = trimBlanks text :=
    List.rdropWhile_idempotent isBlank (text.dropWhile isBlank)
  rw [trimBlanks, dropWhile_trimBlanks]
  exact ends

/-- Blanks at the ends of a text make no difference. -/
@[simp] theorem read_trimmed (kind : Kind) (text : String) : kind.read (trimmed text) = kind.read text := by
  cases kind <;>
    simp only [Kind.read, readVector, readCellReal, trimmed, String.toList_ofList,
      trimBlanks_trimBlanks]

/-! ## Whole numbers as real numbers -/

theorem readDecimal_of_readDigits {text : List Char} {n : Nat} (read : readDigits text = some n) :
    (readDecimal text).isSome := by
  simp only [readDigits] at read
  split at read
  next digits =>
    have all : ∀ c ∈ text, c.isDigit := by simpa using digits.2
    have taken : text.takeWhile Char.isDigit = text := List.takeWhile_eq_self_iff.mpr all
    have dropped : text.dropWhile Char.isDigit = [] := List.dropWhile_eq_nil_iff.mpr all
    simp [readDecimal, taken, dropped, splitFraction, digits.1, readExponent]
  next => contradiction

theorem readMagnitude_of_readDigits (p : Precision) (negative : Bool) {text : List Char} {n : Nat}
    (read : readDigits text = some n) : (readMagnitude p negative text).isSome := by
  obtain ⟨d, decimal⟩ := Option.isSome_iff_exists.mp (readDecimal_of_readDigits read)
  simp [readMagnitude, decimal]

theorem readReal_of_readInteger (p : Precision) {text : List Char} {i : Int}
    (read : readInteger text = some i) : (readReal p text).isSome := by
  simp only [readInteger] at read
  split at read
  · obtain ⟨n, digits, _⟩ := Option.map_eq_some_iff.mp read
    exact readMagnitude_of_readDigits p false digits
  next magnitude =>
    cases digits : readDigits magnitude with
    | none => simp [digits] at read
    | some n => exact readMagnitude_of_readDigits p true digits
  next unsigned positive negative =>
    obtain ⟨n, digits, _⟩ := Option.map_eq_some_iff.mp read
    simp only [readReal]
    exact readMagnitude_of_readDigits p false digits

/-! ## Which texts read as real numbers -/

theorem readMagnitude_isSome (p q : Precision) (negative : Bool) (text : List Char) :
    (readMagnitude p negative text).isSome = (readMagnitude q negative text).isSome := by
  simp only [readMagnitude]
  cases readDecimal text with
  | some d => rfl
  | none =>
    simp only
    split
    · rfl
    · split <;> rfl

theorem readReal_isSome (p q : Precision) (text : List Char) :
    (readReal p text).isSome = (readReal q text).isSome := by
  simp only [readReal]
  split <;> exact readMagnitude_isSome ..

/-! ## The guess -/

/-- Whether a kind reads a text. -/
def Kind.reads (kind : Kind) (text : String) : Prop :=
  (kind.read text).isSome

theorem reads_trimmed {kind : Kind} {text : String} : kind.reads (trimmed text) ↔ kind.reads text := by
  rw [Kind.reads, read_trimmed, Kind.reads]

theorem readCellReal_of_readReal (p q : Precision) {text : List Char}
    (reads : trimBlanks text ≠ [] → (readReal q (trimBlanks text)).isSome) :
    (readCellReal p text).isSome := by
  simp only [readCellReal]
  split
  next => rfl
  next visible => rw [readReal_isSome p q]; exact reads visible

theorem reads_floating (p q : Precision) {text : String} (reads : (Kind.floating q).reads text) :
    (Kind.floating p).reads text := by
  refine readCellReal_of_readReal p q fun visible => ?_
  simpa [Kind.reads, Kind.read, readCellReal, visible] using reads

/-- Whatever reads as a whole number reads as a real one. -/
theorem reads_floating_of_signed (p : Precision) {width : Width} {text : String}
    (reads : (Kind.signed width).reads text) : (Kind.floating p).reads text := by
  refine readCellReal_of_readReal p p fun _ => ?_
  simp only [Kind.reads, Kind.read, readBounded] at reads
  cases read : readInteger (trimBlanks text.toList) with
  | none => simp [read] at reads
  | some i => exact readReal_of_readInteger p read

theorem reads_floating_of_blank (p : Precision) {text : String} (blank : trimmed text = "") :
    (Kind.floating p).reads text := by
  have nothing : trimBlanks text.toList = [] := by simpa [trimmed] using blank
  exact readCellReal_of_readReal p p fun visible => absurd nothing visible

/-- The texts of a column that are not blank, trimmed. -/
def presentTexts (texts : List String) : List String :=
  (texts.map trimmed).filter (· ≠ "")

theorem length_presentTexts_lt {texts : List String} {text : String} (member : text ∈ texts)
    (blank : trimmed text = "") : (presentTexts texts).length < texts.length := by
  have fewer : (presentTexts texts).length < (texts.map trimmed).length :=
    List.length_filter_lt_length_iff_exists.mpr
      ⟨trimmed text, List.mem_map_of_mem member, by simpa using blank⟩
  simpa using fewer

theorem blank_or_reads {kind : Kind} {texts : List String} (fit : fits kind (presentTexts texts))
    {text : String} (member : text ∈ texts) : trimmed text = "" ∨ kind.reads text := by
  by_cases blank : trimmed text = ""
  · exact .inl blank
  · have present : trimmed text ∈ presentTexts texts := by
      simp only [presentTexts, List.mem_filter, List.mem_map]
      exact ⟨⟨text, member, rfl⟩, by simpa using blank⟩
    have reads := List.all_eq_true.mp fit _ present
    exact .inr (reads_trimmed.mp reads)

/-- A kind that fits all texts but the blank ones, widened if there are such, reads every text. -/
theorem reads_widened {width : Width} {texts : List String} {doublePrecision : Bool}
    (fit : fits (.signed width) (presentTexts texts)) {text : String} (member : text ∈ texts) :
    (if (presentTexts texts).length < texts.length then realKind doublePrecision
      else .signed width).reads text := by
  split
  next =>
    rcases blank_or_reads fit member with blank | reads
    · exact reads_floating_of_blank _ blank
    · exact reads_floating_of_signed _ reads
  next full =>
    -- Nothing is widened where no text is blank.
    rcases blank_or_reads fit member with blank | reads
    · exact absurd (length_presentTexts_lt member blank) full
    · exact reads

/-- A column made of the kind that its texts suggest reads every one of them. -/
theorem inferKind_reads {texts : List String} {doublePrecision : Bool} {kind : Kind}
    (guessed : inferKind texts doublePrecision = some kind) {text : String}
    (member : text ∈ texts) : kind.reads text := by
  have present : (texts.map trimmed).filter (· ≠ "") = presentTexts texts := rfl
  simp only [inferKind, present] at guessed
  split at guessed
  · contradiction
  split at guessed
  next fit =>
    cases guessed
    exact reads_widened fit member
  split at guessed
  next fit =>
    cases guessed
    exact reads_widened fit member
  split at guessed
  next fit =>
    cases guessed
    simp only [Bool.and_eq_true] at fit
    -- The texts were tried in double precision, whatever the precision of the column.
    rcases blank_or_reads fit.1 member with blank | reads
    · exact reads_floating_of_blank _ blank
    · exact reads_floating _ .double reads
  · contradiction

end LinkedTables
