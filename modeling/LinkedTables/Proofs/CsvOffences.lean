import LinkedTables.Proofs.CsvRecords
import LinkedTables.Proofs.RowByRow
import Mathlib.Data.Nat.Find

/-! # The first record at fault

A reader stops at the first record at which something is wrong, and says what is wrong with this
record.  `Csv.Offends` states what can be wrong with a record by itself: given the width of the
file and the kinds of the sample, it needs no other record.  The two walks of the reader, over the
sample and over the rest, are then compared with it entry by entry. -/

namespace LinkedTables

namespace Csv

/-- The texts of the records that can be read. -/
@[simp] def cellsOf : List (Except Fault TextRecord) → List (List String)
  | [] => []
  | .ok record :: entries => record.cells :: cellsOf entries
  | .error _ :: entries => cellsOf entries

@[simp] theorem cellsOf_map_ok (records : List TextRecord) :
    cellsOf (records.map .ok) = records.map (·.cells) := by
  induction records with
  | nil => rfl
  | cons record records inductionHypothesis =>
    simp only [List.map_cons, cellsOf, inductionHypothesis]

/-- The width of a file: that of its first record, be it a header or not. -/
def widthOf : List (Except Fault TextRecord) → Nat
  | .ok record :: _ => record.cells.length
  | _ => 0

@[simp] theorem widthOf_nil : widthOf [] = 0 := rfl

@[simp] theorem widthOf_error (fault : Fault) (rest : List (Except Fault TextRecord)) :
    widthOf (.error fault :: rest) = 0 := rfl

@[simp] theorem widthOf_ok (record : TextRecord) (rest : List (Except Fault TextRecord)) :
    widthOf (.ok record :: rest) = record.cells.length := rfl

namespace ReadOptions

/-- How many records are not data. -/
def headerSize (options : ReadOptions) : Nat :=
  if options.hasHeader then 1 else 0

/-- The headers in a file. -/
def headersOf (options : ReadOptions) (file : List (Except Fault TextRecord)) : List String :=
  match options.hasHeader, file with
  | true, .ok header :: _ => header.cells
  | _, _ => []

/-- The kinds that the sample of a file suggests. -/
def kindOf (options : ReadOptions) (file : List (Except Fault TextRecord)) (position : Nat) :
    Option Kind :=
  kindAt options.inference.doublePrecision
    (cellsOf ((file.drop options.headerSize).take options.sampleSize)) position

variable {options : ReadOptions}

@[simp] theorem headerSize_of_header (given : options.hasHeader = true) : options.headerSize = 1 :=
  if_pos given

@[simp] theorem headerSize_of_data (given : options.hasHeader = false) : options.headerSize = 0 := by
  simp [headerSize, given]

@[simp] theorem headersOf_nil : options.headersOf [] = [] := by
  simp [headersOf]

@[simp] theorem headersOf_of_header {header : TextRecord} {rest : List (Except Fault TextRecord)}
    (given : options.hasHeader = true) : options.headersOf (.ok header :: rest) = header.cells := by
  simp [headersOf, given]

@[simp] theorem headersOf_of_data {file : List (Except Fault TextRecord)}
    (given : options.hasHeader = false) : options.headersOf file = [] := by
  simp [headersOf, given]

end ReadOptions

/-- What is wrong with a record of a file.  Its texts matter only behind the sample, where the
    kinds are settled. -/
inductive Offends (headers : List String) (kinds : Nat → Option Kind) (width : Nat)
    (settled : Prop) : Except Fault TextRecord → Error → Prop where
  | unreadable (fault : Fault) :
      Offends headers kinds width settled (.error fault) (.unreadable fault)
  | width {record : TextRecord} (wrong : record.cells.length ≠ width) :
      Offends headers kinds width settled (.ok record)
        (.record record.line (.columnCount width record.cells.length))
  | cell {record : TextRecord} {position : Nat} {text : String} {kind : Kind}
      (right : record.cells.length = width) (behind : settled)
      (there : record.cells[position]? = some text) (typed : kinds position = some kind)
      (unreadable : kind.read text = none)
      (leftmost : ∀ earlier < position, ∀ text', record.cells[earlier]? = some text' →
        Accepts (kinds earlier) text') :
      Offends headers kinds width settled (.ok record)
        (.record record.line (.notConvertible (headerAt headers position) text kind.name))

/-- What is wrong with the record at a place of a file. -/
def Offence (options : ReadOptions) (file : List (Except Fault TextRecord)) (place : Nat)
    (error : Error) : Prop :=
  ∃ entry, file[place]? = some entry ∧
    Offends (options.headersOf file) (options.kindOf file) (widthOf file)
      (options.headerSize + options.sampleSize ≤ place) entry error

/-- What is wrong with the first record of a file at which anything is. -/
def FirstOffence (options : ReadOptions) (file : List (Except Fault TextRecord)) (error : Error) :
    Prop :=
  ∃ place, Offence options file place error ∧
    ∀ earlier < place, ∀ other, ¬ Offence options file earlier other

section

variable {headers : List String} {kinds : Nat → Option Kind} {width : Nat} {settled : Prop}
  {record : TextRecord} {entry : Except Fault TextRecord} {error other : Error}

/-! ## One record -/

theorem not_accepts {kind? : Option Kind} {kind : Kind} {text : String} (typed : kind? = some kind)
    (unreadable : kind.read text = none) : ¬ Accepts kind? text := by
  intro accepted
  have reads := accepted kind typed
  simp [Kind.reads, unreadable] at reads

theorem Offends.unique (offends : Offends headers kinds width settled entry error)
    (offends' : Offends headers kinds width settled entry other) : error = other := by
  cases offends with
  | unreadable fault => cases offends'; rfl
  | width wrong =>
    cases offends' with
    | width _ => rfl
    | cell right => contradiction
  | @cell _ position _ _ right _ there typed unreadable leftmost =>
    cases offends' with
    | width wrong => contradiction
    | @cell _ position' _ _ _ _ there' typed' unreadable' leftmost' =>
      rcases Nat.lt_trichotomy position position' with before | rfl | behind
      · exact absurd (leftmost' position before _ there) (not_accepts typed unreadable)
      · rw [there, Option.some.injEq] at there'
        rw [typed, Option.some.injEq] at typed'
        rw [there', typed']
      · exact absurd (leftmost position' behind _ there') (not_accepts typed' unreadable')

theorem not_offends (right : record.cells.length = width)
    (accepted : settled → Frame.AcceptsRow kinds record.cells) :
    ¬ Offends headers kinds width settled (.ok record) error := by
  intro offends
  cases offends with
  | width wrong => exact wrong right
  | cell _ behind there typed unreadable _ =>
    exact not_accepts typed unreadable (accepted behind _ _ there)

/-- A row that is not accepted has a leftmost text that is not. -/
theorem exists_leftmost {row : List String} (refused : ¬ Frame.AcceptsRow kinds row) :
    ∃ position text kind, row[position]? = some text ∧ kinds position = some kind ∧
      kind.read text = none ∧ ∀ earlier < position, ∀ text', row[earlier]? = some text' →
        Accepts (kinds earlier) text' := by
  classical
  have somewhere : ∃ position, ¬ ∀ text, row[position]? = some text →
      Accepts (kinds position) text := not_forall.mp refused
  obtain ⟨text, bad⟩ := not_forall.mp (Nat.find_spec somewhere)
  obtain ⟨there, bad⟩ := Classical.not_imp.mp bad
  obtain ⟨kind, bad⟩ := not_forall.mp bad
  obtain ⟨typed, bad⟩ := Classical.not_imp.mp bad
  refine ⟨Nat.find somewhere, text, kind, there, typed, by simpa [Kind.reads] using bad, ?_⟩
  intro earlier before
  exact not_not.mp (Nat.find_min somewhere before)

/-! ## The walk over the sample -/

/-- The walk takes records of the right width until it has enough of them, there are no more, or
    one is at fault. -/
theorem takeSample_cases (width count : Nat) (entries : List (Except Fault TextRecord)) :
    ∃ sample : List TextRecord, (∀ record ∈ sample, record.cells.length = width) ∧
      sample.length ≤ count ∧
      ((∃ rest, entries = sample.map .ok ++ rest ∧ (rest = [] ∨ sample.length = count) ∧
          takeSample (some width) count entries = .ok (sample.map (·.cells), rest)) ∨
        ∃ entry rest error, entries = sample.map .ok ++ entry :: rest ∧ sample.length < count ∧
          (∀ headers kinds settled, Offends headers kinds width settled entry error) ∧
          takeSample (some width) count entries = .error error) := by
  -- The walk counts down how many records are still wanted.
  induction count generalizing entries with
  | zero => exact ⟨[], by simp, by simp, .inl ⟨entries, rfl, .inr rfl, by simp⟩⟩
  | succ count inductionHypothesis =>
    cases entries with
    | nil => exact ⟨[], by simp, by simp, .inl ⟨[], rfl, .inl rfl, by simp⟩⟩
    | cons entry entries =>
      cases entry with
      | error fault =>
        exact ⟨[], by simp, by simp, .inr ⟨.error fault, entries, .unreadable fault, rfl,
          by simp, fun _ _ _ => .unreadable fault, by simp⟩⟩
      | ok record =>
        by_cases right : record.cells.length = width
        case neg =>
          exact ⟨[], by simp, by simp, .inr ⟨.ok record, entries, _, rfl, by simp,
            fun _ _ _ => .width right, by simp [right]⟩⟩
        obtain ⟨sample, even, few, walk⟩ := inductionHypothesis entries
        refine ⟨record :: sample, by simpa using ⟨right, even⟩, by simpa using few, ?_⟩
        rcases walk with ⟨rest, split, enough, taken⟩ | ⟨entry, rest, error, split, fewer, bad, stopped⟩
        · exact .inl ⟨rest, by simp [split], by simpa using enough, by simp [right, taken]⟩
        · exact .inr ⟨entry, rest, error, by simp [split], by simpa using fewer, bad,
            by simp [right, stopped]⟩

/-! ## The walk over the rest -/

/-- The walk appends rows to the frame until there are no more records or one is at fault. -/
theorem appendRecords_cases {rows : List (List String)} {frame : Frame}
    (entries : List (Except Fault TextRecord))
    (holds : Frame.HoldsRows headers kinds width rows frame)
    (positive : entries ≠ [] → 0 < width) :
    ∃ appended : List TextRecord,
      (∀ record ∈ appended, record.cells.length = width ∧ Frame.AcceptsRow kinds record.cells) ∧
      ((∃ last, entries = appended.map .ok ∧
          Frame.HoldsRows headers kinds width (rows ++ appended.map (·.cells)) last ∧
          appendRecords frame entries = .ok last) ∨
        ∃ entry rest error, entries = appended.map .ok ++ entry :: rest ∧
          Offends headers kinds width True entry error ∧
          appendRecords frame entries = .error error) := by
  -- The rows that the frame holds are general, since it grows by each record on the way.
  induction entries generalizing rows frame with
  | nil => exact ⟨[], by simp, .inl ⟨frame, rfl, by simpa using holds, rfl⟩⟩
  | cons entry entries inductionHypothesis =>
    have wide : 0 < width := positive (by simp)
    cases entry with
    | error fault =>
      exact ⟨[], by simp, .inr ⟨.error fault, entries, .unreadable fault, rfl,
        .unreadable fault, rfl⟩⟩
    | ok record =>
      by_cases right : record.cells.length = width
      case neg =>
        have refused := holds.append_wrong_width wide right
        exact ⟨[], by simp, .inr ⟨.ok record, entries, _, rfl, .width right,
          by simp [refused]⟩⟩
      by_cases accepted : Frame.AcceptsRow kinds record.cells
      case neg =>
        obtain ⟨position, text, kind, there, typed, unreadable, leftmost⟩ :=
          exists_leftmost accepted
        have refused := holds.append_unreadable right there typed (by simp [Kind.reads, unreadable])
          leftmost
        exact ⟨[], by simp, .inr ⟨.ok record, entries, _, rfl,
          .cell right trivial there typed unreadable leftmost, by simp [refused]⟩⟩
      obtain ⟨next, grown, holdsNext⟩ := holds.append wide right accepted
      obtain ⟨appended, sound, walk⟩ := inductionHypothesis holdsNext fun _ => wide
      refine ⟨record :: appended, by simpa using ⟨⟨right, accepted⟩, sound⟩, ?_⟩
      rcases walk with ⟨last, split, holdsLast, done⟩ | ⟨entry, rest, error, split, bad, stopped⟩
      · exact .inl ⟨last, by simp [split], by simpa using holdsLast, by simp [grown, done]⟩
      · exact .inr ⟨entry, rest, error, by simp [split], bad, by simp [grown, stopped]⟩

end

/-! ## The whole file -/

variable {options : ReadOptions} {file : List (Except Fault TextRecord)} {error : Error}

theorem FirstOffence.unique {other : Error} (first : FirstOffence options file error)
    (first' : FirstOffence options file other) : error = other := by
  obtain ⟨place, offence, earlier⟩ := first
  obtain ⟨place', offence', earlier'⟩ := first'
  rcases Nat.lt_trichotomy place place' with before | rfl | behind
  · exact absurd offence (earlier' place before error)
  · obtain ⟨entry, there, offends⟩ := offence
    obtain ⟨entry', there', offends'⟩ := offence'
    rw [there, Option.some.injEq] at there'
    subst there'
    exact offends.unique offends'
  · exact absurd offence' (earlier place' behind other)

/-- The first record at fault is the one behind records that are not: some of the right width, not
    more than the header and the sample, and then rows that are accepted. -/
theorem firstOffence_behind {passed appended : List TextRecord}
    {rest : List (Except Fault TextRecord)} {entry : Except Fault TextRecord}
    (split : file = passed.map .ok ++ (appended.map .ok ++ entry :: rest))
    (few : passed.length ≤ options.headerSize + options.sampleSize)
    (even : ∀ record ∈ passed ++ appended, record.cells.length = widthOf file)
    (accepted : ∀ record ∈ appended, Frame.AcceptsRow (options.kindOf file) record.cells)
    (offends : Offends (options.headersOf file) (options.kindOf file) (widthOf file)
      (options.headerSize + options.sampleSize ≤ passed.length + appended.length) entry error) :
    FirstOffence options file error := by
  rw [← List.append_assoc, ← List.map_append] at split
  refine ⟨passed.length + appended.length, ⟨entry, by simp [split], offends⟩, ?_⟩
  -- An earlier record has the right width, and behind the sample its texts are accepted.
  rintro place inside other ⟨sound, there, blamed⟩
  rw [← List.length_append] at inside
  have entry := List.getElem?_eq_getElem inside
  rw [split, List.getElem?_append_left (by simpa using inside), List.getElem?_map, entry,
    Option.map_some, Option.some.injEq] at there
  subst there
  refine not_offends (even _ (List.getElem_mem inside)) (fun settled => ?_) blamed
  rw [List.getElem_append_right (by omega)]
  exact accepted _ (List.getElem_mem _)

/-- Either the header cannot be read, or it is taken off and the rest of the file is left. -/
theorem takeHeader_cases (options : ReadOptions) (file : List (Except Fault TextRecord)) :
    (options.hasHeader = true ∧ ∃ fault rest, file = .error fault :: rest) ∨
      ∃ header : List TextRecord, file = header.map .ok ++ file.drop options.headerSize ∧
        header.length ≤ options.headerSize ∧ (file ≠ [] → header.length = options.headerSize) ∧
        (∀ record ∈ header, record.cells.length = widthOf file) ∧
        (if options.hasHeader then takeHeader file else .ok ([], file)) =
          .ok (options.headersOf file, file.drop options.headerSize) := by
  cases given : options.hasHeader with
  | false => exact .inr ⟨[], by simp [given], by simp,
      by simp [given], by simp,
      by simp [given]⟩
  | true =>
    cases file with
    | nil => exact .inr ⟨[], by simp, by simp, by simp, by simp,
        by simp⟩
    | cons entry rest =>
      cases entry with
      | error fault => exact .inl ⟨rfl, fault, rest, rfl⟩
      | ok header => exact .inr ⟨[header], by simp [given],
          by simp [given], by simp [given],
          by simp,
          by simp [given]⟩

theorem sampleSize_pos (options : ReadOptions) : 0 < options.sampleSize :=
  Nat.le_max_right ..

theorem takeSample_headerWidth (nonempty : ∀ record, .ok record ∈ file → record.cells ≠ [])
    (readable : options.hasHeader = true → ∀ fault rest, file ≠ .error fault :: rest) :
    takeSample (headerWidth (options.headersOf file)) options.sampleSize
        (file.drop options.headerSize) =
      takeSample (some (widthOf file)) options.sampleSize (file.drop options.headerSize) := by
  obtain ⟨count, size⟩ := Nat.exists_eq_add_one.mpr (sampleSize_pos options)
  rw [size]
  cases file with
  | nil => simp
  | cons entry rest =>
    cases entry with
    | error fault =>
      cases given : options.hasHeader with
      | true => exact absurd rfl (readable given fault rest)
      | false => simp [given]
    | ok record =>
      cases given : options.hasHeader with
      | true =>
        have cells := nonempty record (by simp)
        simp [given, headerWidth, cells]
      | false =>
        simp [given, headerWidth]

theorem sample_ne_nil {sample : List TextRecord} {entries rest : List (Except Fault TextRecord)}
    (split : entries = sample.map .ok ++ rest)
    (enough : rest = [] ∨ sample.length = options.sampleSize) (more : entries ≠ []) :
    sample ≠ [] := by
  rintro rfl
  rcases enough with rfl | full
  · exact more (by simpa using split)
  · have positive := sampleSize_pos options
    rw [← full] at positive
    exact Nat.lt_irrefl 0 positive

theorem inferredWidth_sample {sample : List TextRecord}
    {rest : List (Except Fault TextRecord)}
    (nonempty : ∀ record, .ok record ∈ file → record.cells ≠ [])
    (split : file.drop options.headerSize = sample.map .ok ++ rest)
    (enough : rest = [] ∨ sample.length = options.sampleSize)
    (even : ∀ record ∈ sample, record.cells.length = widthOf file) :
    Frame.inferredWidth (sample.map (·.cells)) (options.headersOf file) = widthOf file := by
  by_cases headed : options.headersOf file = []
  case neg =>
    -- Only a header that can be read gives headers.
    simp only [ReadOptions.headersOf] at headed ⊢
    split at headed
    next header _ _ => simp [Frame.inferredWidth, headed]
    next => contradiction
  rw [headed]
  by_cases sampled : sample = []
  case neg =>
    refine Frame.inferredWidth_eq (by simpa using sampled) ?_ (.inl rfl)
    intro row member
    obtain ⟨record, inside, rfl⟩ := List.mem_map.mp member
    exact even record inside
  have ended : file.drop options.headerSize = [] :=
    Classical.byContradiction fun more => sample_ne_nil split enough more sampled
  rw [sampled]
  cases file with
  | nil => rfl
  | cons entry others =>
    cases entry with
    | error fault => rfl
    | ok record =>
      cases given : options.hasHeader with
      | false => simp [given] at ended
      | true =>
        have cells := nonempty record (by simp)
        simp only [ReadOptions.headersOf, given] at headed
        contradiction

end Csv

end LinkedTables
