import LinkedTables.Proofs.RowByRow

/-! # Which tables of texts become frames

Kinds are guessed by trying the texts without their blanks, without the empty ones among them, and
real numbers in the wider format.  The columns then read the texts as they stand, in the format that
is asked for.  No text is lost in between: all that can be wrong with a table is that a row has not as
many texts as there are columns, and then the first such row is reported. -/

namespace LinkedTables

namespace Frame

variable {rows : List (List String)} {headers : List String} {doublePrecision : Bool}

/-- A row of another width than the table, with none before it. -/
def FirstUneven (width : Nat) (rows : List (List String)) (row : List String) : Prop :=
  ∃ before after, rows = before ++ row :: after ∧ row.length ≠ width ∧
    ∀ earlier ∈ before, earlier.length = width

theorem firstUneven_iff {width : Nat} {row : List String} :
    FirstUneven width rows row ↔ rows.find? (·.length ≠ width) = some row := by
  rw [List.find?_eq_some_iff_append]
  constructor
  · rintro ⟨before, after, split, uneven, even⟩
    exact ⟨by simpa using uneven, before, after, split, by simpa using even⟩
  · rintro ⟨uneven, before, after, split, even⟩
    exact ⟨before, after, split, by simpa using uneven, by simpa using even⟩

theorem ofTexts_of_uneven {row : List String}
    (first : FirstUneven (inferredWidth rows headers) rows row) :
    ofTexts rows headers doublePrecision =
      .error (.columnCount (inferredWidth rows headers) row.length) := by
  simp only [ofTexts, firstUneven_iff.mp first]

theorem exists_firstUneven {width : Nat} (uneven : ¬ ∀ row ∈ rows, row.length = width) :
    ∃ row, FirstUneven width rows row := by
  simp only [firstUneven_iff, ← Option.isSome_iff_exists, List.find?_isSome]
  simpa using uneven

namespace HoldsRows

variable {kinds : Nat → Option Kind} {width : Nat} {frame : Frame}

/-- A frame of rows has a column for each of their texts and a cell for each row, and no column that
    names the rows. -/
theorem shape (holds : HoldsRows headers kinds width rows frame) :
    frame.width = width ∧
      ∀ column ∈ frame.columns, column.isIndex = false ∧ column.size = rows.length :=
  ⟨holds.length, fun _ member => ⟨holds.isIndex_eq member, holds.size_eq member⟩⟩

end HoldsRows

/-- A table of texts is refused exactly for the first row of another width, and else becomes a frame
    of this width with one cell for each row in each column and no column that names the rows; for
    every text reads as the kind that is guessed for its column. -/
theorem ofTexts_error_iff_uneven (rows : List (List String)) (headers : List String)
    (doublePrecision : Bool) :
    (∀ cause, ofTexts rows headers doublePrecision = .error cause ↔
      ∃ row, FirstUneven (inferredWidth rows headers) rows row ∧
        cause = .columnCount (inferredWidth rows headers) row.length) ∧
    ((∃ frame, ofTexts rows headers doublePrecision = .ok frame ∧
        frame.width = inferredWidth rows headers ∧
        ∀ column ∈ frame.columns, column.isIndex = false ∧ column.size = rows.length) ↔
      ∀ row ∈ rows, row.length = inferredWidth rows headers) ∧
    ∀ position, ∀ text ∈ textsAt rows position,
      Accepts (kindAt doublePrecision rows position) text := by
  refine ⟨fun cause => ⟨fun refused => ?_, ?_⟩, ⟨?_, fun rectangular => ?_⟩, ?_⟩
  · by_cases rectangular : ∀ row ∈ rows, row.length = inferredWidth rows headers
    · obtain ⟨frame, made, _⟩ := ofTexts_holds rows headers doublePrecision rectangular
      rw [made] at refused
      contradiction
    · obtain ⟨row, first⟩ := exists_firstUneven rectangular
      rw [ofTexts_of_uneven first, Except.error.injEq] at refused
      exact ⟨row, first, refused.symm⟩
  · rintro ⟨row, first, rfl⟩
    exact ofTexts_of_uneven first
  · rintro ⟨frame, made, _⟩
    by_contra uneven
    obtain ⟨row, first⟩ := exists_firstUneven uneven
    rw [ofTexts_of_uneven first] at made
    contradiction
  · obtain ⟨frame, made, holds⟩ := ofTexts_holds rows headers doublePrecision rectangular
    exact ⟨frame, made, holds.shape⟩
  · exact fun position text member kind guessed => inferKind_reads guessed member

end Frame

end LinkedTables
