import LinkedTables.Proofs.SummaryDocuments

/-! # Columns left out of a listing

A summary of a frame lists the first columns of it, so whatever the settings are there is a number of
columns left out.  A document says how many columns there are and lists columns, and neither is held
against the other.  If it lists more than it counts it is read like any other, but then no number of
columns is left out, and the summary has no text. -/

namespace LinkedTables

theorem Json.Fields.exists_entries {α : Type} {fields : Fields} {name : String}
    {decode : Json → Option α} {list : List α}
    (read : fields.required? name (Json.asList? decode) = some list) :
    ∃ entries, fields.known.lookup name = some (.array entries) ∧
      entries.mapM decode = some list := by
  obtain ⟨listing, there, decoded⟩ := Option.bind_eq_some_iff.mp read
  cases listing with
  | array entries => exact ⟨entries, there, decoded⟩
  | null | truth | number | string | object => contradiction

namespace Summary

variable {summary : Summary} {document : Json}

/-! ## Answers -/

/-- So many columns are left out of the listing; this is answered, and told by the text. -/
structure Omits (summary : Summary) (omitted : Nat) : Prop where
  counts : summary.columns.length + omitted = summary.columnCount
  answer : summary.omitted? = some omitted
  text : summary.display? = some
    (summary.textStart ++ String.join (summary.columns.map columnLine) ++ textEnd omitted)

theorem omits_of_le (few : summary.columns.length ≤ summary.columnCount) :
    summary.Omits (summary.columnCount - summary.columns.length) := by
  have answer : summary.omitted? = some (summary.columnCount - summary.columns.length) := if_pos few
  refine ⟨Nat.add_sub_of_le few, answer, ?_⟩
  rw [display?_eq, answer, Option.map_some]

theorem unanswered_of_lt (many : summary.columnCount < summary.columns.length) :
    summary.omitted? = none ∧ summary.display? = none := by
  have answer : summary.omitted? = none := if_neg (Nat.not_le.mpr many)
  refine ⟨answer, ?_⟩
  rw [display?_eq, answer, Option.map_none]

/-! ## Where summaries come from -/

/-- The summary that a text holds. -/
def read? (text : String) : Option Summary :=
  (Json.parse text).bind ofJson?

/-- A summary comes about as that of a frame, under any settings, or out of a text. -/
inductive Arises : Summary → Prop where
  | made (frame : Frame) (settings : SummarySettings) : Arises (ofFrame frame settings)
  | read {text : String} {summary : Summary} (reads : read? text = some summary) : Arises summary

theorem omits_ofFrame (frame : Frame) (settings : SummarySettings) :
    (ofFrame frame settings).Omits (frame.width - min (listed settings frame.width) frame.width) := by
  have length := length_columns_ofFrame frame settings
  -- Settings may ask for more columns than there are; no more are taken.
  have few : (ofFrame frame settings).columns.length ≤ (ofFrame frame settings).columnCount := by
    rw [length]
    exact Nat.min_le_right _ _
  rw [← length]
  exact omits_of_le few

/-- What a document tells of the columns: how many there are, and the entries of those listed. -/
def Tells (document : Json) (count : Nat) (entries : List Json) : Prop :=
  ∃ fields, document.asFields? ["num_columns", "num_rows", "consistent", "columns"] = some fields ∧
    fields.required? "num_columns" Json.asCount? = some count ∧
    fields.known.lookup "columns" = some (.array entries)

theorem tells_of_ofJson? (read : ofJson? document = some summary) :
    ∃ entries, Tells document summary.columnCount entries ∧
      entries.mapM ColumnSummary.ofJson? = some summary.columns := by
  simp only [ofJson?, Option.bind_eq_bind, Option.bind_eq_some_iff, Option.pure_def,
    Option.some.injEq] at read
  obtain ⟨fields, record, columnCount, count, _, _, _, _, columns, listing, rfl⟩ := read
  obtain ⟨entries, there, decoded⟩ := Json.Fields.exists_entries listing
  exact ⟨entries, ⟨fields, record, count, there⟩, decoded⟩

/-- A document is read whether or not it counts as many columns as it lists. -/
theorem exists_read?_compact (counted : summary.Counted)
    (finite : ∀ column ∈ summary.columns, ∀ range ∈ column.range, range.isFinite = true) :
    ∃ columns, List.Forall₂ ColumnSummary.Alike summary.columns columns ∧
      read? summary.toJson.compact = some { summary with columns } := by
  obtain ⟨back, reads⟩ := Option.isSome_iff_exists.mp ((readBack_isSome_iff counted).mpr finite)
  obtain ⟨columns, alike, rfl⟩ := exists_alike_of_readBack counted reads
  exact ⟨columns, alike, reads⟩

/-! ## Columns left out -/

/-- A summary of a frame says how many columns it leaves out, under any settings.  One that is read
    says so just if its document lists no more columns than it counts.  And whatever a summary of
    finite ranges counts and lists, its document is read. -/
theorem omits_unless_overlisted (frame : Frame) (settings : SummarySettings) (text : String)
    (written : Summary) :
    let shown := min (listed settings frame.width) frame.width
    ((ofFrame frame settings).columns.length = shown ∧
      (ofFrame frame settings).Omits (frame.width - shown)) ∧
    (∀ summary, read? text = some summary →
      ∃ document entries, Json.parse text = some document ∧
        Tells document summary.columnCount entries ∧
        entries.mapM ColumnSummary.ofJson? = some summary.columns ∧
        (entries.length ≤ summary.columnCount →
          summary.Omits (summary.columnCount - entries.length)) ∧
        (summary.columnCount < entries.length →
          summary.omitted? = none ∧ summary.display? = none)) ∧
    (written.Counted →
      (∀ column ∈ written.columns, ∀ range ∈ column.range, range.isFinite = true) →
      ∃ columns, List.Forall₂ ColumnSummary.Alike written.columns columns ∧
        read? written.toJson.compact = some { written with columns }) := by
  intro shown
  refine ⟨⟨length_columns_ofFrame frame settings, omits_ofFrame frame settings⟩,
    fun summary reads => ?_, exists_read?_compact⟩
  obtain ⟨document, parsed, told⟩ := Option.bind_eq_some_iff.mp reads
  obtain ⟨entries, tells, decoded⟩ := tells_of_ofJson? told
  refine ⟨document, entries, parsed, tells, decoded, ?_⟩
  rw [← length_of_mapM decoded]
  exact ⟨omits_of_le, unanswered_of_lt⟩

/-- Seven columns are asked for of two, a text lists one of three, and the document of a summary lists
    one of none. -/
theorem omits_unless_overlisted_around :
    let frame : Frame := ⟨[.index (.sequential "a" 1), .index (.sequential "b" 1)]⟩
    let settings : SummarySettings := ⟨⟨0, by decide⟩, ⟨7, by decide⟩, ⟨0, by decide⟩⟩
    let column : ColumnSummary := ⟨0, "a", "INT32", 1, none, none, none, none⟩
    let text := "[3, 1, true, [[0, \"a\", \"INT32\", 1, null, null, null, null]]]"
    (ofFrame frame settings).Omits 0 ∧
      (read? text = some ⟨3, 1, true, [column]⟩ ∧ Omits ⟨3, 1, true, [column]⟩ 2) ∧
      ∃ columns, read? (toJson ⟨0, 1, true, [column]⟩).compact = some ⟨0, 1, true, columns⟩ ∧
        omitted? ⟨0, 1, true, columns⟩ = none ∧ display? ⟨0, 1, true, columns⟩ = none := by
  intro frame settings column text
  let overlisted : Summary := ⟨0, 1, true, [column]⟩
  have reads : read? text = some ⟨3, 1, true, [column]⟩ := by decide +kernel
  have counted : overlisted.Counted :=
    ⟨by decide, by decide, List.forall_mem_singleton.mpr ⟨by decide, by decide⟩⟩
  have finite : ∀ entry ∈ [column], ∀ range ∈ entry.range, range.isFinite = true :=
    List.forall_mem_singleton.mpr nofun
  obtain ⟨⟨_, made⟩, told, written⟩ := omits_unless_overlisted frame settings text overlisted
  refine ⟨made, ⟨reads, ?_⟩, ?_⟩
  · obtain ⟨_, entries, _, _, decoded, omits, _⟩ := told _ reads
    rw [← length_of_mapM decoded] at omits
    exact omits (by decide)
  · obtain ⟨columns, alike, reads⟩ := written counted finite
    obtain ⟨_, entries, _, _, decoded, _, unanswered⟩ :=
      (omits_unless_overlisted frame settings _ overlisted).2.1 _ reads
    rw [← length_of_mapM decoded, ← alike.length_eq] at unanswered
    exact ⟨columns, reads, unanswered Nat.one_pos⟩

/-- A document that counts no columns and lists one is read, and how many are left out cannot be
    said. -/
theorem overlisted_unanswered :
    let text := "\x7b\"num_columns\":0,\"num_rows\":1,\"consistent\":true,\"columns\":"
      ++ "[\x7b\"position\":0,\"header\":\"a\",\"format\":\"INT32\",\"rows\":1\x7d]\x7d"
    (∃ summary, read? text = some summary ∧ summary.omitted? = none ∧ summary.display? = none) ∧
      ¬ ∀ summary : Summary, summary.Arises → summary.columns.length ≤ summary.columnCount := by
  intro text
  have reads : read? text =
      some ⟨0, 1, true, [⟨0, "a", "INT32", 1, none, none, none, none⟩]⟩ := by decide +kernel
  refine ⟨⟨_, reads, unanswered_of_lt (by decide)⟩, fun few => ?_⟩
  exact absurd (few _ (.read reads)) (by decide)

end Summary

end LinkedTables
