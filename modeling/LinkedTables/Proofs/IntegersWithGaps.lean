import LinkedTables.Proofs.ShownIntegers
import LinkedTables.Proofs.TextTables

/-! # Whole numbers beside gaps

A column of whole numbers with a gap is made real, so that the gap can be held as NaN.  The whole
numbers are rounded then, and come back as they were written only if they are what the rounded numbers
are shown as; for the small ones that is so, but not for all. -/

namespace LinkedTables

/-- Texts that are blank or plain whole numbers, some of either sort. -/
structure Gapped (texts : List String) : Prop where
  cells : ∀ text ∈ texts, trimmed text = "" ∨ PlainInteger text
  gap : ∃ text ∈ texts, trimmed text = ""
  integer : ∃ text ∈ texts, PlainInteger text

theorem Gapped.inferKind_eq {texts : List String} (gapped : Gapped texts) (doublePrecision : Bool) :
    inferKind texts doublePrecision = some (realKind doublePrecision) := by
  refine inferKind_eq_real_iff.mpr ⟨fun text member => ?_, ?_, ?_⟩
  · rcases gapped.cells text member with blank | plain
    · exact reads_floating_of_blank _ blank
    · exact reads_floating_of_signed _ plain.reads
  · obtain ⟨text, member, plain⟩ := gapped.integer
    exact ⟨text, member, readsFinite_of_reads plain.reads⟩
  · obtain ⟨text, member, blank⟩ := gapped.gap
    exact ⟨text, member, not_reads_signed_of_blank blank⟩

theorem read_floating_blank (p : Precision) {text : String} (blank : trimmed text = "") :
    (Kind.floating p).read text = some .nan := by
  have nothing : trimBlanks text.toList = [] := by simpa [trimmed] using blank
  simp [Kind.read, readCellReal, nothing]

namespace Column.Holds

variable {p : Precision} {header : String} {texts : List String} {column : Column} {row : Nat}
  {text : String} {i : Signed .w64}

theorem value_blank (holds : Holds header (some (.floating p)) texts column)
    (there : texts[row]? = some text) (blank : trimmed text = "") :
    column.value true row = .ok (.cell (.floating p) .nan) := by
  obtain ⟨content, read, shown⟩ := holds.value_plain_eq there
  rw [read_floating_blank p blank] at read
  cases read
  exact shown

theorem value_real_integer (holds : Holds header (some (.floating p)) texts column)
    (there : texts[row]? = some ((Kind.signed .w64).display i)) :
    column.value true row =
      .ok (.cell (.floating p) (.ofDecimal (decide (i.val < 0)) ⟨i.val.natAbs, 0⟩)) := by
  obtain ⟨content, read, shown⟩ := holds.value_plain_eq there
  rw [Kind.read_floating_integer] at read
  cases read
  exact shown

end Column.Holds

/-- What a real column has in a row for a whole number: the real number nearest to it.  It is shown with
    the sign, and with the digits of the magnitude that precedes all others that are read alike; hence
    as it was written exactly if this is its own magnitude, which it is if it is small. -/
structure Column.ShowsInteger (p : Precision) (column : Column) (row : Nat) (i : Signed .w64) :
    Prop where
  value : column.value true row =
    .ok (.cell (.floating p) (.ofDecimal (decide (i.val < 0)) ⟨i.val.natAbs, 0⟩))
  shown : ∃ magnitude, p.Preferred magnitude ∧
    p.codeOf ⟨magnitude, 0⟩ = p.codeOf ⟨i.val.natAbs, 0⟩ ∧ column.display row =
      .ok (String.ofList (Numeral.chars ⟨decide (i.val < 0), Nat.toDigits 10 magnitude, [], none⟩))
  itself : column.display row = .ok ((Kind.signed .w64).display i) ↔ p.Preferred i.val.natAbs
  small : i.val.natAbs ≤ 2 * p.run → column.display row = .ok ((Kind.signed .w64).display i)

theorem Column.Holds.showsInteger {p : Precision} {header : String} {texts : List String}
    {column : Column} {row : Nat} {i : Signed .w64}
    (holds : Holds header (some (.floating p)) texts column)
    (there : texts[row]? = some ((Kind.signed .w64).display i)) : column.ShowsInteger p row i := by
  have value := holds.value_real_integer there
  have display : column.display row =
      .ok (Floating.ofDecimal (decide (i.val < 0)) ⟨i.val.natAbs, 0⟩ : Floating p).display :=
    display_eq_ok_iff.mpr ⟨_, value, rfl⟩
  have itself : column.display row = .ok ((Kind.signed .w64).display i) ↔
      p.Preferred i.val.natAbs := by
    rw [display, Except.ok.injEq, Floating.display_integer_iff]
  obtain ⟨magnitude, preferred, alike, text⟩ := Floating.exists_display_integer p i
  exact ⟨value, ⟨magnitude, preferred, alike, text ▸ display⟩, itself,
    fun small => itself.mpr (Precision.preferred_of_le small)⟩

namespace Frame

theorem HoldsRows.exists_real_column {headers : List String} {doublePrecision : Bool} {width : Nat}
    {rows : List (List String)} {frame : Frame} {position : Nat}
    (holds : HoldsRows headers (kindAt doublePrecision rows) width rows frame)
    (gapped : Gapped (textsAt rows position)) :
    ∃ column, frame.columns[position]? = some column ∧
      column.Holds (headerAt headers position) (some (realKind doublePrecision))
        (textsAt rows position) := by
  -- A column in which there is a gap is one of the frame.
  have bound : position < width := by
    obtain ⟨text, member, _⟩ := gapped.gap
    obtain ⟨row, inside, there⟩ := List.mem_filterMap.mp member
    rw [← holds.rectangular row inside]
    exact (List.getElem?_eq_some_iff.mp there).1
  exact holds.exists_column bound (gapped.inferKind_eq doublePrecision)

/-- In either precision every column of plain whole numbers with a gap is made real; the gap is NaN, and
    a whole number is shown as it was written exactly if it precedes all others that are read as the
    same real number, as all up to twice the length of a run do. -/
theorem ofTexts_gap_shows_iff (rows : List (List String)) (headers : List String)
    (doublePrecision : Bool)
    (rectangular : ∀ row ∈ rows, row.length = inferredWidth rows headers) :
    ∃ frame p, ofTexts rows headers doublePrecision = .ok frame ∧
      realKind doublePrecision = .floating p ∧
      ∀ position, Gapped (textsAt rows position) →
        ∃ column, frame.columns[position]? = some column ∧ column.kind = .floating p ∧
          ∀ row text, (textsAt rows position)[row]? = some text →
            (trimmed text = "" → column.value true row = .ok (.cell (.floating p) .nan)) ∧
            ∀ i, text = (Kind.signed .w64).display i → column.ShowsInteger p row i := by
  obtain ⟨frame, made, holds⟩ := ofTexts_holds rows headers doublePrecision rectangular
  refine ⟨frame, _, made, rfl, fun position gapped => ?_⟩
  obtain ⟨column, there, held⟩ := holds.exists_real_column gapped
  refine ⟨column, there, held.kind_eq, fun row text here => ⟨held.value_blank here, ?_⟩⟩
  rintro i rfl
  exact held.showsInteger here

/-- Two whole numbers at the end of those that single precision keeps, and a gap between them. -/
def edgeRows : List (List String) :=
  [["16777217"], [" "], ["-16777216"]]

theorem gapped_edgeRows : Gapped (textsAt edgeRows 0) where
  cells := by
    refine List.forall_mem_cons.mpr ⟨.inr ?_, List.forall_mem_cons.mpr ⟨.inl (by decide),
      List.forall_mem_singleton.mpr (.inr ?_)⟩⟩
    · exact plainInteger_iff.mpr ⟨⟨16777217, by decide⟩, by decide⟩
    · exact plainInteger_iff.mpr ⟨⟨-16777216, by decide⟩, by decide⟩
  gap := ⟨" ", by decide, by decide⟩
  integer := ⟨"16777217", by decide, plainInteger_iff.mpr ⟨⟨16777217, by decide⟩, by decide⟩⟩

theorem ofTexts_gap_shows_iff_edge :
    ∃ frame column, ofTexts edgeRows ["n"] false = .ok frame ∧ frame.columns[0]? = some column ∧
      column.value true 1 = .ok (.cell (.floating .single) .nan) ∧
      column.display 2 = .ok "-16777216" := by
  obtain ⟨frame, p, made, real, columns⟩ := ofTexts_gap_shows_iff edgeRows ["n"] false (by decide)
  cases real
  obtain ⟨column, there, _, cells⟩ := columns 0 gapped_edgeRows
  refine ⟨frame, column, made, there, (cells 1 " " rfl).1 (by decide), ?_⟩
  exact ((cells 2 "-16777216" rfl).2 ⟨-16777216, by decide⟩ (by decide)).small (by decide)

/-- Behind the end a whole number is shown as the one before it. -/
theorem ofTexts_gap_changes :
    Gapped (textsAt edgeRows 0) ∧ (textsAt edgeRows 0)[0]? = some "16777217" ∧
      ∃ frame column, ofTexts edgeRows ["n"] false = .ok frame ∧
        frame.columns[0]? = some column ∧ column.display 0 = .ok "16777216" := by
  obtain ⟨frame, made, holds⟩ := ofTexts_holds edgeRows ["n"] false (by decide)
  obtain ⟨column, there, held⟩ := holds.exists_real_column gapped_edgeRows
  have here : (textsAt edgeRows 0)[0]? = some ((Kind.signed .w64).display ⟨16777217, by decide⟩) := by
    decide
  obtain ⟨shown, preferred, alike, text⟩ := (held.showsInteger here).shown
  have last : Precision.single.Preferred 16777216 := Precision.preferred_of_le (by decide)
  have same : Precision.single.codeOf ⟨shown, 0⟩ = Precision.single.codeOf ⟨16777216, 0⟩ :=
    alike.trans (by decide +kernel)
  rw [last.unique preferred same] at text
  exact ⟨gapped_edgeRows, rfl, frame, column, made, there, text⟩

end Frame

end LinkedTables
