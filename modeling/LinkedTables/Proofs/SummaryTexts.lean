import LinkedTables.Proofs.CellTexts
import LinkedTables.Summary
import Mathlib.Data.List.Forall2

/-! # Summaries told apart by their texts

No separator is shown in a number, so the numbers of a column can be told from its line, whatever text
stands around them, and the numbers of all columns from the text of a summary. -/

namespace LinkedTables

/-! ## Fields -/

theorem append_separator_inj {text other rest rest' : List Char} {mark : Char}
    (separates : isSeparator mark = true) (inside : ∀ c ∈ text, isSeparator c = false)
    (inside' : ∀ c ∈ other, isSeparator c = false)
    (same : text ++ mark :: rest = other ++ mark :: rest') : text = other ∧ rest = rest' := by
  have texts := congrArg (List.takeWhile (!isSeparator ·)) same
  rw [List.takeWhile_append_of_pos (by simpa using inside),
    List.takeWhile_append_of_pos (by simpa using inside')] at texts
  simp only [List.takeWhile_cons, separates] at texts
  obtain rfl : text = other := by simpa using texts
  exact ⟨rfl, (List.cons.inj (List.append_cancel_left same)).2⟩

theorem Floating.displayChars_injective {p : Precision} :
    Function.Injective (displayChars : Floating p → List Char) := fun x y same =>
  Option.some.inj (by rw [← x.readReal_displayChars, same, y.readReal_displayChars])

/-- The text of a number that may be absent. -/
def realChars (x : Option Double) : List Char :=
  x.elim ['-'] Floating.displayChars

theorem isSeparator_realChars (x : Option Double) : ∀ c ∈ realChars x, isSeparator c = false := by
  cases x with
  | none => exact fun c => isSeparator_of_mem (by decide)
  | some x => exact isSeparator_displayChars x

theorem realChars_injective : Function.Injective realChars := by
  -- What stands for an absent number is read as none.
  have absent (x : Double) : x.displayChars ≠ ['-'] := by
    intro same
    have read := x.readReal_displayChars
    rw [same] at read
    contradiction
  intro x y same
  cases x <;> cases y
  case none.none => rfl
  case none.some y => exact absurd same.symm (absent y)
  case some.none x => exact absurd same (absent x)
  case some.some x y => exact congrArg some (Floating.displayChars_injective same)

/-- The text of a range that may be absent. -/
def rangeChars : Option Range → List Char
  | some range =>
    '[' :: (range.least.displayChars ++ ',' :: ' ' :: (range.greatest.displayChars ++ [']']))
  | none => ['-']

theorem rangeChars_append_inj {range range' : Option Range} {rest rest' : List Char}
    (same : rangeChars range ++ '\t' :: rest = rangeChars range' ++ '\t' :: rest') :
    range = range' ∧ rest = rest' := by
  have inside (x : Double) : ∀ c ∈ x.displayChars ++ [']'], isSeparator c = false :=
    List.forall_mem_append.mpr
      ⟨isSeparator_displayChars x, List.forall_mem_singleton.mpr (by decide)⟩
  cases range <;> cases range'
  case none.none => exact ⟨rfl, (List.cons.inj (List.cons.inj same).2).2⟩
  case none.some => exact absurd (List.cons.inj same).1 (by decide)
  case some.none => exact absurd (List.cons.inj same).1 (by decide)
  case some.some range range' =>
    rw [rangeChars, rangeChars, List.cons_append, List.cons_append, List.append_assoc,
      List.append_assoc] at same
    obtain ⟨least, behind⟩ := append_separator_inj (by decide) (isSeparator_displayChars _)
      (isSeparator_displayChars _) (List.cons.inj same).2
    obtain ⟨greatest, rest⟩ := append_separator_inj (by decide) (inside _) (inside _)
      (List.cons.inj behind).2
    exact ⟨congrArg some (congrArg₂ Range.mk (Floating.displayChars_injective least)
      (Floating.displayChars_injective (List.append_cancel_right greatest))), rest⟩

/-! ## Lines -/

/-- Whether two columns differ in their numbers at most. -/
def ColumnSummary.Alike (column other : ColumnSummary) : Prop :=
  other = { column with range := other.range, least := other.least, greatest := other.greatest }

namespace Summary

/-- The line of a column up to its numbers. -/
def lineStart (column : ColumnSummary) : List Char :=
  ("\t".intercalate [toString column.position, column.format, toString column.rows, column.header]
    ++ "\t").toList

/-- The line of a column behind its numbers. -/
def lineEnd (column : ColumnSummary) : List Char :=
  match column.categories with
  | some categories => '\t' :: categories.toList ++ ['\n']
  | none => ['\n']

theorem toList_columnLine (column : ColumnSummary) : (columnLine column).toList =
    lineStart column ++ (rangeChars column.range ++ '\t' ::
      (realChars column.least ++ '\t' :: (realChars column.greatest ++ lineEnd column))) := by
  have range : (optionalField (column.range.map Range.display)).toList =
      rangeChars column.range := by
    cases column.range with
    | none => rfl
    | some range =>
      simp [optionalField, Range.display, rangeChars, Floating.display]
  have real (x : Option Double) : (optionalField (x.map Floating.display)).toList = realChars x := by
    cases x with
    | none => rfl
    | some x => exact String.toList_ofList
  rw [← range, ← real, ← real, columnLine, lineStart, lineEnd]
  cases column.categories <;> simp [String.intercalate_cons_cons]

theorem exists_separator_lineEnd (column : ColumnSummary) :
    ∃ mark rest, isSeparator mark = true ∧ lineEnd column = mark :: rest := by
  rw [lineEnd]
  cases column.categories with
  | none => exact ⟨'\n', [], by decide, rfl⟩
  | some categories => exact ⟨'\t', categories.toList ++ ['\n'], by decide, rfl⟩

/-- The numbers of a column are told by its line, whatever its header is. -/
theorem columnLine_append_inj {column other : ColumnSummary} (alike : column.Alike other)
    {rest rest' : List Char}
    (same : (columnLine column).toList ++ rest = (columnLine other).toList ++ rest') :
    column = other ∧ rest = rest' := by
  have start : lineStart other = lineStart column := by rw [alike]; rfl
  have ending : lineEnd other = lineEnd column := by rw [alike]; rfl
  -- The header may hold separators, but up to the numbers both lines are the same text.
  obtain ⟨mark, text, separates, separator⟩ := exists_separator_lineEnd column
  rw [toList_columnLine, toList_columnLine, start, ending, separator] at same
  simp only [List.append_assoc, List.cons_append] at same
  obtain ⟨ranges, behind⟩ := rangeChars_append_inj (List.append_cancel_left same)
  obtain ⟨least, behind⟩ := append_separator_inj (by decide) (isSeparator_realChars _)
    (isSeparator_realChars _) behind
  obtain ⟨greatest, behind⟩ := append_separator_inj separates (isSeparator_realChars _)
    (isSeparator_realChars _) behind
  refine ⟨?_, List.append_cancel_left behind⟩
  rw [alike, ← ranges, ← realChars_injective least, ← realChars_injective greatest]

theorem join_columnLine_inj {columns others : List ColumnSummary}
    (alike : List.Forall₂ ColumnSummary.Alike columns others) {rest rest' : List Char}
    (same : (String.join (columns.map columnLine)).toList ++ rest =
      (String.join (others.map columnLine)).toList ++ rest') : columns = others := by
  -- Each line ends where its numbers and the text behind them end, so the next one begins there.
  induction alike with
  | nil => rfl
  | cons alike _ inductionHypothesis =>
    rw [List.map_cons, List.map_cons, String.join_cons, String.join_cons, String.toList_append,
      String.toList_append, List.append_assoc, List.append_assoc] at same
    obtain ⟨rfl, others⟩ := columnLine_append_inj alike same
    rw [inductionHypothesis others]

/-! ## Whole texts -/

/-- The text above the lines of the columns. -/
def textStart (summary : Summary) : String :=
  "Number of Columns: " ++ toString summary.columnCount ++ "\n"
    ++ "Number of Rows: " ++ toString summary.rowCount ++ "\n"
    ++ (if summary.isConsistent then "" else "Inconsistent row counts\n")
    ++ "Col\tFormat\tRows\tName\tRange\tMin\tMax\n"

/-- The text below the lines of the columns. -/
def textEnd (omitted : Nat) : String :=
  if omitted = 0 then "" else "... (" ++ toString omitted ++ " more columns)\n"

theorem display?_eq (summary : Summary) : summary.display? = summary.omitted?.map fun omitted =>
    summary.textStart ++ String.join (summary.columns.map columnLine) ++ textEnd omitted := rfl

theorem display?_eq_iff {summary : Summary} {columns : List ColumnSummary}
    (few : summary.columns.length ≤ summary.columnCount)
    (alike : List.Forall₂ ColumnSummary.Alike summary.columns columns) :
    display? { summary with columns } = summary.display? ↔ columns = summary.columns := by
  have omitted : omitted? { summary with columns } = summary.omitted? := by
    rw [omitted?, omitted?, alike.length_eq]
  refine ⟨fun same => ?_, fun same => by rw [same]⟩
  rw [display?_eq, display?_eq, omitted, omitted?, if_pos few, Option.map_some,
    Option.map_some] at same
  have texts := congrArg String.toList (Option.some.inj same)
  rw [String.append_assoc, String.append_assoc, String.toList_append, String.toList_append,
    String.toList_append, String.toList_append] at texts
  exact (join_columnLine_inj alike (List.append_cancel_left texts).symm).symm

end Summary

end LinkedTables
