import LinkedTables.Proofs.CurrentRanges

/-! # What a refused operation leaves behind

A column refuses a value of another kind, a text that it does not read, cells asked for as another
kind, a row beyond its last one, and identities beyond the greatest that there is.  None of these
changes a header, a cell, a category or the greatest identity.  The computed range is another matter:
it is forgotten when the cells are opened, and a plain column opens them before it looks at what it
is given. -/

namespace LinkedTables

namespace Column

/-- A call that a column may refuse. -/
inductive Attempt where
  | push (value : Value)
  | pushText (text : String)
  | openCells (kind : Kind)
  | set (row : Nat) (text : String)
  | extend (count : Nat)

/-- Whether a call opens the cells before it is refused.  A text is read first. -/
def Attempt.opensCells : Attempt → Bool
  | .push _ | .openCells _ => true
  | .pushText _ | .set _ _ | .extend _ => false

/-- A call that is refused, with the column before it and after it.  The last three are calls of one
    kind of column each. -/
inductive Refused : Attempt → TableError → Column → Column → Prop where
  | push {value : Value} {cause : TableError} {column after : Column}
      (outcome : column.push value = (.error cause, after)) :
      Refused (.push value) cause column after
  | pushText {text : String} {cause : TableError} {column after : Column}
      (outcome : column.pushText text = (.error cause, after)) :
      Refused (.pushText text) cause column after
  | openCells {kind : Kind} {cause : TableError} {column after : PlainColumn}
      (outcome : column.openCells kind = (.error cause, after)) :
      Refused (.openCells kind) cause (.plain column) (.plain after)
  | set {row : Nat} {text : String} {cause : TableError} {column after : CategoricalColumn}
      (outcome : column.set row text = (.error cause, after)) :
      Refused (.set row text) cause (.categorical column) (.categorical after)
  | extend {count : Nat} {cause : TableError} {column after : IndexColumn}
      (outcome : column.extend count = (.error cause, after)) :
      Refused (.extend count) cause (.index column) (.index after)

/-- The column with its cells opened; only a plain column has a range to forget. -/
def touch : Column → Column
  | .plain column => .plain column.touch
  | column => column

/-- The range set by hand. -/
def customRange : Column → Option Range
  | .plain column => column.customRange
  | _ => none

variable {attempt : Attempt} {cause : TableError} {column after : Column}

/-! ## Opened cells -/

@[simp] theorem header_touch (column : Column) : column.touch.header = column.header := by
  cases column <;> rfl

@[simp] theorem contents?_touch (kind : Kind) (column : Column) :
    column.touch.contents? kind = column.contents? kind := by
  cases column <;> rfl

@[simp] theorem value_touch (shownAsText : Bool) (row : Nat) (column : Column) :
    column.touch.value shownAsText row = column.value shownAsText row := by
  cases column <;> rfl

@[simp] theorem categorical?_touch (column : Column) : column.touch.categorical? = column.categorical? := by
  cases column <;> rfl

@[simp] theorem index?_touch (column : Column) : column.touch.index? = column.index? := by
  cases column <;> rfl

@[simp] theorem customRange_touch (column : Column) : column.touch.customRange = column.customRange := by
  cases column <;> rfl

/-- Only a range set by hand outlasts the opening of the cells. -/
@[simp] theorem range_touch (column : Column) : column.touch.range = column.customRange := by
  cases column with
  | plain column => exact Option.or_none
  | categorical | index => rfl

/-! ## Refusals -/

/-- A value that is refused leaves the cells opened. -/
theorem push_refused {value : Value} (outcome : column.push value = (.error cause, after)) :
    after = column.touch := by
  cases column with
  | plain column =>
    simp only [push, PlainColumn.push, PlainColumn.tryModify] at outcome
    cases pushed : column.buffer.push? value with
    | some buffer => simp [pushed] at outcome
    | none =>
      simp only [pushed, Prod.mk.injEq] at outcome
      exact outcome.2.symm
  | categorical column =>
    cases value with
    | text text => simp [push] at outcome
    | cell kind content =>
      simp only [push, Prod.mk.injEq] at outcome
      exact outcome.2.symm
  | index column =>
    simp only [push] at outcome
    split at outcome
    next => simp at outcome
    next =>
      simp only [Prod.mk.injEq] at outcome
      exact outcome.2.symm

/-- A text is refused where it is read; what has been read is taken. -/
theorem pushText_refused {text : String}
    (outcome : column.pushText text = (.error cause, after)) : after = column := by
  simp only [pushText] at outcome
  split at outcome
  next value read =>
    obtain ⟨next, pushed, _⟩ := push_read read
    rw [pushed] at outcome
    simp at outcome
  next =>
    simp only [Prod.mk.injEq] at outcome
    exact outcome.2.symm

theorem openCells_refused {kind : Kind} {column after : PlainColumn}
    (outcome : column.openCells kind = (.error cause, after)) : after = column.touch := by
  simp only [PlainColumn.openCells] at outcome
  split at outcome
  next => simp at outcome
  next =>
    simp only [Prod.mk.injEq] at outcome
    exact outcome.2.symm

theorem set_refused {row : Nat} {text : String} {column after : CategoricalColumn}
    (outcome : column.set row text = (.error cause, after)) : after = column := by
  have refused : (column.set row text).1 = .error cause := by rw [outcome]
  have unchanged := (CategoricalColumn.set_error_iff.mp refused).2
  rw [outcome] at unchanged
  exact congrArg Prod.snd unchanged

theorem extend_refused {count : Nat} {column after : IndexColumn}
    (outcome : column.extend count = (.error cause, after)) : after = column := by
  have extended := IndexColumn.extend_extended count column
  rw [outcome] at extended
  cases extended with
  | refused => rfl

theorem Refused.after_eq (refused : Refused attempt cause column after) :
    after = if attempt.opensCells then column.touch else column := by
  cases refused with
  | push outcome => exact push_refused outcome
  | pushText outcome => exact pushText_refused outcome
  | openCells outcome => exact congrArg Column.plain (openCells_refused outcome)
  | set outcome => exact congrArg Column.categorical (set_refused outcome)
  | extend outcome => exact congrArg Column.index (extend_refused outcome)

/-- A refused operation changes nothing but the range: header, cells, category table, greatest
    identity and the range set by hand are what they were, and so is the range in force, unless the
    cells were opened; then it is the one set by hand. -/
theorem refused_keeps (refused : Refused attempt cause column after) :
    after.header = column.header ∧
    (∀ kind, after.contents? kind = column.contents? kind) ∧
    (∀ shownAsText row, after.value shownAsText row = column.value shownAsText row) ∧
    after.categorical? = column.categorical? ∧
    after.index? = column.index? ∧
    after.customRange = column.customRange ∧
    after.range = if attempt.opensCells then column.customRange else column.range := by
  rw [refused.after_eq]
  cases attempt.opensCells with
  | false => exact ⟨rfl, fun _ => rfl, fun _ _ => rfl, rfl, rfl, rfl, rfl⟩
  | true =>
    exact ⟨header_touch column, (contents?_touch · column), (value_touch · · column),
      categorical?_touch column, index?_touch column, customRange_touch column, range_touch column⟩

/-- Two cells whose range is computed. -/
def measured : PlainColumn :=
  (PlainColumn.ofBuffer "flag" ⟨.boolean, #[true, false]⟩).computeRange

/-- A text goes into a column of truth values neither as it is nor read; only the former costs the
    column its range. -/
theorem refused_keeps_measured :
    (∃ cause after, Refused (.push (.text "x")) cause (.plain measured) after ∧
      after.value true 1 = (Column.plain measured).value true 1 ∧ after.range = none) ∧
    ∃ cause after, Refused (.pushText "x") cause (.plain measured) after ∧
      after.range = some ⟨.ofNatural 0, .ofNatural 1⟩ := by
  constructor
  · have refused : Refused (.push (.text "x")) (.notConvertible "flag" "x" "BOOL")
        (.plain measured) (.plain measured.touch) := .push (by rfl)
    obtain ⟨_, _, values, _, _, _, range⟩ := refused_keeps refused
    exact ⟨_, _, refused, values true 1, range⟩
  · have refused : Refused (.pushText "x") (.notConvertible "flag" "x" "BOOL")
        (.plain measured) (.plain measured) := .pushText (by rfl)
    obtain ⟨_, _, _, _, _, _, range⟩ := refused_keeps refused
    exact ⟨_, _, refused, range.trans (by decide +kernel)⟩

/-- The range that was computed is not the range after a value was refused. -/
theorem refused_forgets_range :
    ¬ ∀ (attempt : Attempt) (cause : TableError) (column after : Column), column.Built →
      Refused attempt cause column after → after.range = column.range := by
  intro keeps
  have built : (Column.plain measured).Built :=
    (Column.Built.fresh (.plain _ _)).step (.plain .computeRange)
  have refused : Refused (.push (.text "x")) (.notConvertible "flag" "x" "BOOL")
      (.plain measured) (.plain measured.touch) := .push (by rfl)
  exact absurd (keeps _ _ _ _ built refused) (by decide +kernel)

end Column

end LinkedTables
