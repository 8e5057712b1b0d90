import LinkedTables.Proofs.CellTexts

/-! # Which kind is guessed

What `inferKind` answers is said of the texts as they stand, by what each of them reads as: all as
whole numbers, or all as real numbers with a finite one and one that is not whole among them.  A
blank text reads as a real number and as no whole one, which is why a gap makes a column real. -/

namespace LinkedTables

/-! ## Single texts -/

theorem reads_signed_of_le {width other : Width} {text : String} (wider : width.half ≤ other.half)
    (reads : (Kind.signed width).reads text) : (Kind.signed other).reads text := by
  simp only [Kind.reads, Kind.read, readBounded] at reads ⊢
  cases read : readInteger (trimBlanks text.toList) with
  | none => simp [read] at reads
  | some i =>
    simp only [read] at reads ⊢
    split at reads
    next bounds =>
      rw [dif_pos ⟨by omega, by omega⟩]
      rfl
    next => contradiction

theorem not_reads_signed_of_blank {width : Width} {text : String} (blank : trimmed text = "") :
    ¬ (Kind.signed width).reads text := by
  have nothing : trimBlanks text.toList = [] := by simpa [trimmed] using blank
  have digits : readInteger [] = none := rfl
  simp [Kind.reads, Kind.read, readBounded, nothing, digits]

theorem readsFinite_of_blank {text : String} (blank : trimmed text = "") :
    readsFinite text = false := by
  have nothing : trimBlanks text.toList = [] := by simpa [trimmed] using blank
  simp [readsFinite, Kind.read, readCellReal, nothing, Floating.isFinite]

@[simp] theorem readsFinite_trimmed (text : String) : readsFinite (trimmed text) = readsFinite text := by
  rw [readsFinite, readsFinite, read_trimmed]

/-- A digit string is read as a decimal without a fraction. -/
theorem readDecimal_natural {text : List Char} {n : Nat} (read : readDigits text = some n) :
    readDecimal text = some ⟨n, 0⟩ := by
  simp only [readDigits] at read
  split at read
  next digits =>
    cases read
    have all : ∀ c ∈ text ++ [], c.isDigit = true := by
      simpa using List.all_eq_true.mp digits.2
    simpa using readDecimal_digits digits.1 all
  next => contradiction

theorem readMagnitude_natural (p : Precision) (negative : Bool) {text : List Char} {n : Nat}
    (read : readDigits text = some n) :
    readMagnitude p negative text = some (.ofDecimal negative ⟨n, 0⟩) := by
  rw [readMagnitude, readDecimal_natural read]

theorem readReal_integer (p : Precision) {text : List Char} {i : Int}
    (read : readInteger text = some i) :
    ∃ negative, readReal p text = some (.ofDecimal negative ⟨i.natAbs, 0⟩) := by
  simp only [readInteger] at read
  split at read
  next magnitude =>
    obtain ⟨n, digits, rfl⟩ := Option.map_eq_some_iff.mp read
    exact ⟨false, readMagnitude_natural p false digits⟩
  next magnitude =>
    cases digits : readDigits magnitude with
    | none => simp [digits] at read
    | some n =>
      obtain rfl : -(n : Int) = i := by simpa [digits] using read
      rw [Int.natAbs_neg, Int.natAbs_natCast]
      exact ⟨true, readMagnitude_natural p true digits⟩
  next unsigned _ _ =>
    obtain ⟨n, digits, rfl⟩ := Option.map_eq_some_iff.mp read
    refine ⟨false, ?_⟩
    simp only [readReal]
    exact readMagnitude_natural p false digits

theorem exists_finite_of_reads (p : Precision) {text : String}
    (reads : (Kind.signed .w64).reads text) :
    ∃ x : Floating p, (Kind.floating p).read text = some x ∧ x.isFinite = true := by
  simp only [Kind.reads, Kind.read, readBounded] at reads
  cases read : readInteger (trimBlanks text.toList) with
  | none => simp [read] at reads
  | some i =>
    have bounds : -Width.half .w64 ≤ i ∧ i < Width.half .w64 := by
      by_contra outside
      simp [read, outside] at reads
    have small : i.natAbs < 2 ^ 64 := by
      simp only [Width.half] at bounds
      omega
    have visible : trimBlanks text.toList ≠ [] := by
      intro bare
      rw [bare] at read
      contradiction
    obtain ⟨negative, real⟩ := readReal_integer p read
    refine ⟨.ofDecimal negative ⟨i.natAbs, 0⟩, ?_, ?_⟩
    · simp only [Kind.read, readCellReal, visible, if_false, real]
    · exact decide_eq_true (Precision.codeOf_natural_lt small)

theorem readsFinite_of_reads {text : String} (reads : (Kind.signed .w64).reads text) :
    readsFinite text = true := by
  obtain ⟨x, read, finite⟩ := exists_finite_of_reads .double reads
  simpa only [readsFinite, read] using finite

/-! ## Columns of texts -/

variable {texts : List String} {doublePrecision : Bool}

theorem fits_presentTexts_iff {kind : Kind} :
    fits kind (presentTexts texts) = true ↔
      ∀ text ∈ texts, trimmed text = "" ∨ kind.reads text := by
  constructor
  · exact fun fit text => blank_or_reads fit
  · intro all
    refine List.all_eq_true.mpr fun present member => ?_
    obtain ⟨source, visible⟩ := List.mem_filter.mp member
    obtain ⟨text, inside, rfl⟩ := List.mem_map.mp source
    exact reads_trimmed.mpr ((all text inside).resolve_left (by simpa using visible))

theorem length_presentTexts_lt_iff :
    (presentTexts texts).length < texts.length ↔ ∃ text ∈ texts, trimmed text = "" := by
  constructor
  · intro fewer
    by_contra none
    have all : presentTexts texts = texts.map trimmed := by
      refine List.filter_eq_self.mpr fun present member => ?_
      obtain ⟨text, inside, rfl⟩ := List.mem_map.mp member
      simpa using fun blank => none ⟨text, inside, blank⟩
    rw [all, List.length_map] at fewer
    exact Nat.lt_irrefl _ fewer
  · rintro ⟨text, member, blank⟩
    exact length_presentTexts_lt member blank

theorem isEmpty_presentTexts_iff :
    (presentTexts texts).isEmpty = true ↔ ∀ text ∈ texts, trimmed text = "" := by
  simp [presentTexts]

theorem any_readsFinite_iff :
    (presentTexts texts).any readsFinite = true ↔ ∃ text ∈ texts, readsFinite text = true := by
  rw [List.any_eq_true]
  constructor
  · rintro ⟨present, member, finite⟩
    obtain ⟨text, inside, rfl⟩ := List.mem_map.mp (List.mem_filter.mp member).1
    exact ⟨text, inside, by rwa [readsFinite_trimmed] at finite⟩
  · rintro ⟨text, inside, finite⟩
    refine ⟨trimmed text, List.mem_filter.mpr ⟨List.mem_map_of_mem inside, ?_⟩, ?_⟩
    · have visible : trimmed text ≠ "" := by
        intro blank
        rw [readsFinite_of_blank blank] at finite
        contradiction
      simpa using visible
    · rwa [readsFinite_trimmed]

/-- What texts must be like for a kind to be guessed. -/
inductive Guess (doublePrecision : Bool) (texts : List String) : Option Kind → Prop where
  | blank (blank : ∀ text ∈ texts, trimmed text = "") : Guess doublePrecision texts none
  | whole {width : Width} (width_eq : width = .w32 ∨ width = .w64) (nonempty : texts ≠ [])
      (reads : ∀ text ∈ texts, (Kind.signed width).reads text)
      (narrowest : width = .w64 → ∃ text ∈ texts, ¬ (Kind.signed .w32).reads text) :
      Guess doublePrecision texts (some (.signed width))
  | real (reads : ∀ text ∈ texts, (Kind.floating .double).reads text)
      (finite : ∃ text ∈ texts, readsFinite text = true)
      (other : ∃ text ∈ texts, ¬ (Kind.signed .w64).reads text) :
      Guess doublePrecision texts (some (realKind doublePrecision))
  | words (unlike : (∃ text ∈ texts, ¬ (Kind.floating .double).reads text) ∨
      ∀ text ∈ texts, readsFinite text = false) : Guess doublePrecision texts none

theorem reads_w64 {width : Width} (width_eq : width = .w32 ∨ width = .w64) {text : String}
    (reads : (Kind.signed width).reads text) : (Kind.signed .w64).reads text := by
  rcases width_eq with rfl | rfl
  · exact reads_signed_of_le (by decide) reads
  · exact reads

/-- Texts that are blank or whole numbers make a column of whole numbers, or of real ones if there
    is a gap. -/
theorem guess_widened {width : Width} (width_eq : width = .w32 ∨ width = .w64)
    (visible : ¬ ∀ text ∈ texts, trimmed text = "")
    (fit : ∀ text ∈ texts, trimmed text = "" ∨ (Kind.signed width).reads text)
    (narrowest : width = .w64 → ∃ text ∈ texts, ¬ (Kind.signed .w32).reads text) :
    Guess doublePrecision texts (some (if (presentTexts texts).length < texts.length then
      realKind doublePrecision else .signed width)) := by
  split
  next gap =>
    obtain ⟨gap, inside, blank⟩ := length_presentTexts_lt_iff.mp gap
    refine .real (fun text member => ?_) ?_ ⟨gap, inside, not_reads_signed_of_blank blank⟩
    · rcases fit text member with blank | reads
      · exact reads_floating_of_blank _ blank
      · exact reads_floating_of_signed _ reads
    · simp only [not_forall] at visible
      obtain ⟨text, member, there⟩ := visible
      exact ⟨text, member, readsFinite_of_reads (reads_w64 width_eq ((fit text member).resolve_left there))⟩
  next full =>
    have none : ¬ ∃ text ∈ texts, trimmed text = "" := mt length_presentTexts_lt_iff.mpr full
    refine .whole width_eq ?_ (fun text member => (fit text member).resolve_left fun blank =>
      none ⟨text, member, blank⟩) narrowest
    rintro rfl
    exact visible (List.forall_mem_nil _)

theorem exists_not_reads {kind : Kind} (unfit : ¬ fits kind (presentTexts texts) = true) :
    ∃ text ∈ texts, trimmed text ≠ "" ∧ ¬ kind.reads text := by
  rw [fits_presentTexts_iff] at unfit
  simpa using unfit

theorem guess_inferKind (texts : List String) (doublePrecision : Bool) :
    Guess doublePrecision texts (inferKind texts doublePrecision) := by
  have present : (texts.map trimmed).filter (· ≠ "") = presentTexts texts := rfl
  simp only [inferKind, present]
  -- Each kind that is tried and refused leaves a text behind that does not read as it.
  split
  next blank => exact .blank (isEmpty_presentTexts_iff.mp blank)
  next visible =>
    rw [isEmpty_presentTexts_iff] at visible
    split
    next fit =>
      exact guess_widened (.inl rfl) visible (fits_presentTexts_iff.mp fit)
        fun wide => absurd wide (by decide)
    next large =>
      obtain ⟨text, member, _, unlike⟩ := exists_not_reads large
      split
      next fit =>
        exact guess_widened (.inr rfl) visible (fits_presentTexts_iff.mp fit)
          fun _ => ⟨text, member, unlike⟩
      next other =>
        obtain ⟨text, member, _, unlike⟩ := exists_not_reads other
        split
        next fit =>
          rw [Bool.and_eq_true, fits_presentTexts_iff, any_readsFinite_iff] at fit
          refine .real (fun text member => ?_) fit.2 ⟨text, member, unlike⟩
          exact (fit.1 text member).elim (reads_floating_of_blank _) id
        next unfit =>
          rw [Bool.and_eq_true, not_and_or, any_readsFinite_iff] at unfit
          refine .words (unfit.imp (fun unfit => ?_) fun none text member => ?_)
          · obtain ⟨text, member, _, unlike⟩ := exists_not_reads unfit
            exact ⟨text, member, unlike⟩
          · exact Bool.eq_false_iff.mpr fun finite => none ⟨text, member, finite⟩

/-- A column is made real exactly if all its texts are real numbers or blank, one is finite, and one
    is no 64-bit whole number. -/
theorem inferKind_eq_real_iff : inferKind texts doublePrecision = some (realKind doublePrecision) ↔
    (∀ text ∈ texts, (Kind.floating .double).reads text) ∧
      (∃ text ∈ texts, readsFinite text = true) ∧
      ∃ text ∈ texts, ¬ (Kind.signed .w64).reads text := by
  have guess := guess_inferKind texts doublePrecision
  constructor
  · intro real
    rw [real] at guess
    generalize answer : some (realKind doublePrecision) = kind? at guess
    cases guess with
    | real reads finite other => exact ⟨reads, finite, other⟩
    | blank | words => contradiction
    | whole => cases answer
  · rintro ⟨reads, ⟨finite, inFinite, isFinite⟩, ⟨other, inOther, notWhole⟩⟩
    generalize inferKind texts doublePrecision = kind? at guess
    -- Each other guess contradicts one of the three conditions.
    cases guess with
    | blank blank =>
      rw [readsFinite_of_blank (blank finite inFinite)] at isFinite
      contradiction
    | whole width_eq _ whole => exact absurd (reads_w64 width_eq (whole other inOther)) notWhole
    | real => rfl
    | words unlike =>
      rcases unlike with ⟨text, member, unlike⟩ | infinite
      · exact absurd (reads text member) unlike
      · rw [infinite finite inFinite] at isFinite
        contradiction

/-- A column is made one of whole numbers exactly if all its texts are whole numbers, and a wide
    one if they have to be. -/
theorem inferKind_eq_signed_iff {width : Width} :
    inferKind texts doublePrecision = some (.signed width) ↔
      (width = .w32 ∨ width = .w64) ∧ texts ≠ [] ∧
        (∀ text ∈ texts, (Kind.signed width).reads text) ∧
        (width = .w64 → ∃ text ∈ texts, ¬ (Kind.signed .w32).reads text) := by
  have guess := guess_inferKind texts doublePrecision
  constructor
  · intro whole
    rw [whole] at guess
    generalize answer : some (Kind.signed width) = kind? at guess
    cases guess with
    | whole width_eq nonempty reads narrowest =>
      cases answer
      exact ⟨width_eq, nonempty, reads, narrowest⟩
    | blank | words => contradiction
    | real => cases answer
  · rintro ⟨width_eq, nonempty, reads, narrowest⟩
    obtain ⟨first, inFirst⟩ := List.exists_mem_of_ne_nil texts nonempty
    generalize inferKind texts doublePrecision = kind? at guess
    cases guess with
    | blank blank => exact absurd (reads first inFirst) (not_reads_signed_of_blank (blank first inFirst))
    | @whole other other_eq _ reads' narrowest' =>
      -- Of two different widths the wide one has a text that does not fit the narrow one.
      rcases width_eq with rfl | rfl <;> rcases other_eq with rfl | rfl
      · rfl
      · obtain ⟨text, member, unlike⟩ := narrowest' rfl
        exact absurd (reads text member) unlike
      · obtain ⟨text, member, unlike⟩ := narrowest rfl
        exact absurd (reads' text member) unlike
      · rfl
    | real _ _ other =>
      obtain ⟨text, member, unlike⟩ := other
      exact absurd (reads_w64 width_eq (reads text member)) unlike
    | words unlike =>
      rcases unlike with ⟨text, member, unlike⟩ | infinite
      · exact absurd (reads_floating_of_signed _ (reads text member)) unlike
      · have finite := readsFinite_of_reads (reads_w64 width_eq (reads first inFirst))
        rw [infinite first inFirst] at finite
        contradiction

end LinkedTables
