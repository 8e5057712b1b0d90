import LinkedTables.Csv.Writer
import LinkedTables.Proofs.CsvRecords
import LinkedTables.Proofs.TextBytes

/-! # What is written is read back

The scan takes each written field for the field that it was, whatever bytes it has, and each
written record for one record.  -/

namespace LinkedTables

namespace Csv

/-- A delimiter that is a character of its own, and neither ends records nor quotes fields. -/
structure Separates (delimiter : UInt8) : Prop where
  ascii : delimiter < 0x80
  not_quote : delimiter ≠ quoteByte
  not_lineEnd : isLineEnd delimiter = false

variable {delimiter : UInt8}

/-! ## Fields -/

namespace Scan

theorem foldl_plain {bytes : List UInt8} (ordinary : needsQuotes delimiter bytes = false)
    (scan : Scan) (plain : scan.phase = .plain) :
    ∃ here, bytes.foldl (step delimiter) scan =
      { scan with field := bytes.reverse ++ scan.field, here } := by
  induction bytes generalizing scan with
  | nil => exact ⟨scan.here, rfl⟩
  | cons b bytes inductionHypothesis =>
    simp only [needsQuotes, List.any_cons, Bool.or_eq_false_iff] at ordinary
    obtain ⟨⟨⟨notDelimiter, notQuote⟩, notEnd⟩, rest⟩ := ordinary
    have stepped : step delimiter scan b =
        { scan with field := b :: scan.field, here := scan.here.after b } := by
      simp [step, plain, stepPlain, notDelimiter, notEnd, put]
    obtain ⟨here, read⟩ := inductionHypothesis rest (step delimiter scan b)
      (by rw [stepped]; exact plain)
    refine ⟨here, ?_⟩
    rw [List.foldl_cons, read, stepped]
    simp

/-- In quotes a doubled quote is read as one, and any other byte as itself. -/
theorem foldl_doubleQuotes (delimiter : UInt8) (bytes : List UInt8) (scan : Scan)
    (quoted : scan.phase = .quoted) :
    ∃ here, (doubleQuotes bytes).foldl (step delimiter) scan =
      { scan with field := bytes.reverse ++ scan.field, here } := by
  induction bytes generalizing scan with
  | nil => exact ⟨scan.here, rfl⟩
  | cons b bytes inductionHypothesis =>
    by_cases quote : b = quoteByte
    case pos =>
      subst quote
      -- The first of two quotes seems to end the field, and the second takes the scan back into it.
      have stepped : step delimiter (step delimiter scan quoteByte) quoteByte =
          { scan with
            field := quoteByte :: scan.field
            here := (scan.here.after quoteByte).after quoteByte } := by
        simp [step, quoted, put]
      obtain ⟨here, read⟩ := inductionHypothesis
        (step delimiter (step delimiter scan quoteByte) quoteByte)
        (by rw [stepped]; exact quoted)
      refine ⟨here, ?_⟩
      simp only [doubleQuotes, beq_self_eq_true, if_true, List.foldl_cons]
      rw [read, stepped]
      simp
    case neg =>
      have stepped : step delimiter scan b =
          { scan with field := b :: scan.field, here := scan.here.after b } := by
        simp [step, quoted, put, quote]
      obtain ⟨here, read⟩ := inductionHypothesis (step delimiter scan b)
        (by rw [stepped]; exact quoted)
      refine ⟨here, ?_⟩
      simp only [doubleQuotes, beq_iff_eq, quote, if_false, List.foldl_cons]
      rw [read, stepped]
      simp

theorem foldl_quotes (delimiter : UInt8) (field : List UInt8) {scan : Scan}
    (begins : scan.phase = .between ∨ scan.phase = .fieldStart) (fresh : scan.field = []) :
    ∃ here, (quoteByte :: (doubleQuotes field ++ [quoteByte])).foldl (step delimiter) scan =
      { scan with phase := .quoteSeen, field := field.reverse, here } := by
  have opened : step delimiter scan quoteByte =
      { scan with phase := .quoted, here := scan.here.after quoteByte } := by
    rcases begins with between | start
    · simp [step, between, stepFieldStart, isLineEnd, quoteByte, lineFeed, carriageReturn]
    · simp [step, start, stepFieldStart]
  obtain ⟨here, read⟩ := foldl_doubleQuotes delimiter field
    (step delimiter scan quoteByte) (by rw [opened])
  refine ⟨here.after quoteByte, ?_⟩
  rw [List.foldl_cons, List.foldl_append, read, opened]
  simp [step, fresh]

/-- Where a field begins, the bytes written for it are read as the field.  Only nothing leaves the
    scan between records. -/
theorem foldl_encodeField (delimiter : UInt8) (field : List UInt8) {scan : Scan}
    (begins : scan.phase = .between ∨ scan.phase = .fieldStart) (fresh : scan.field = []) :
    ∃ phase here, (encodeField delimiter field).foldl (step delimiter) scan =
        { scan with phase, field := field.reverse, here } ∧ phase ≠ .quoted ∧
      (phase = .between → scan.phase = .between ∧ encodeField delimiter field = []) := by
  cases quotes : needsQuotes delimiter field with
  | true =>
    obtain ⟨here, read⟩ := foldl_quotes delimiter field begins fresh
    exact ⟨.quoteSeen, here, by rw [encodeField, if_pos quotes, read], by simp, by simp⟩
  | false =>
    have written : encodeField delimiter field = field := by simp [encodeField, quotes]
    rw [written]
    cases field with
    | nil =>
      -- Nothing is written for an empty field, and the scan stays where it is.
      refine ⟨scan.phase, scan.here, ?_, ?_, fun between => ⟨between, rfl⟩⟩
      · rw [List.foldl_nil, List.reverse_nil, ← fresh]
      rcases begins with between | start
      · simp [between]
      · simp [start]
    | cons b bytes =>
      simp only [needsQuotes, List.any_cons, Bool.or_eq_false_iff] at quotes
      obtain ⟨⟨⟨notDelimiter, notQuote⟩, notEnd⟩, rest⟩ := quotes
      have stepped : step delimiter scan b =
          { scan with phase := .plain, field := [b], here := scan.here.after b } := by
        rcases begins with phase | phase <;>
          simp [step, phase, stepFieldStart, stepPlain, notDelimiter, notQuote, notEnd, put, fresh]
      obtain ⟨here, read⟩ := foldl_plain rest (step delimiter scan b) (by rw [stepped])
      refine ⟨.plain, here, ?_, by simp, by simp⟩
      rw [List.foldl_cons, read, stepped]
      simp

theorem step_delimiter (separates : Separates delimiter) (scan : Scan)
    (outside : scan.phase ≠ .quoted) :
    step delimiter scan delimiter =
      ({ scan with here := scan.here.after delimiter } : Scan).endField := by
  cases phase : scan.phase with
  | quoted => contradiction
  | between | fieldStart | plain | quoteSeen =>
    simp [step, phase, stepFieldStart, stepPlain, separates.not_quote, separates.not_lineEnd]

theorem step_lineFeed (separates : Separates delimiter) {scan : Scan}
    (outside : scan.phase ≠ .quoted) (begun : scan.phase ≠ .between) :
    step delimiter scan lineFeed =
      ({ scan with here := scan.here.after lineFeed } : Scan).endRecord := by
  have other : lineFeed ≠ delimiter := by
    rintro rfl
    exact absurd separates.not_lineEnd (by decide)
  have notQuote : lineFeed ≠ quoteByte := by decide
  have ends : isLineEnd lineFeed = true := by decide
  cases phase : scan.phase with
  | quoted | between => contradiction
  | fieldStart | plain | quoteSeen =>
    simp [step, phase, stepFieldStart, stepPlain, other, notQuote, ends]

/-! ## Records -/

/-- The fields of a record, and the line feed behind them.  At the beginning of a record there
    must be something to read. -/
theorem foldl_encodeFields (separates : Separates delimiter) {fields : List (List UInt8)}
    (nonempty : fields ≠ []) (scan : Scan) (fresh : scan.field = [])
    (begins : scan.phase = .fieldStart ∨
      scan.phase = .between ∧ encodeFields delimiter fields ≠ []) :
    ∃ here, (encodeFields delimiter fields ++ [lineFeed]).foldl (step delimiter) scan =
      { scan with
        phase := .between
        field := []
        fields := []
        records := ⟨scan.start, scan.fields.reverse ++ fields⟩ :: scan.records
        start := here
        here } := by
  induction fields generalizing scan with
  | nil => contradiction
  | cons field fields inductionHypothesis =>
    obtain ⟨phase, here, read, outside, between⟩ := foldl_encodeField delimiter field
      (begins.symm.imp_left And.left) fresh
    cases fields with
    | nil =>
      have begun : phase ≠ .between := by
        intro still
        obtain ⟨idle, nothing⟩ := between still
        rcases begins with start | ⟨_, written⟩
        · rw [idle] at start
          contradiction
        · exact written nothing
      refine ⟨here.after lineFeed, ?_⟩
      rw [encodeFields, List.foldl_append, read, List.foldl_cons, List.foldl_nil,
        step_lineFeed separates outside begun]
      simp [endRecord]
    | cons next fields =>
      -- The delimiter leaves the scan at the beginning of the next field.
      have ended := step_delimiter separates
        { scan with phase, field := field.reverse, here } outside
      obtain ⟨here', rest⟩ := inductionHypothesis (by simp)
        (step delimiter { scan with phase, field := field.reverse, here } delimiter)
        (by rw [ended]; rfl) (.inl (by rw [ended]; rfl))
      refine ⟨here', ?_⟩
      have split : encodeFields delimiter (field :: next :: fields) ++ [lineFeed] =
          encodeField delimiter field ++
            delimiter :: (encodeFields delimiter (next :: fields) ++ [lineFeed]) := by
        simp [encodeFields]
      rw [split, List.foldl_append, read, List.foldl_cons, rest, ended]
      simp [endField]

end Scan

@[simp] theorem encodeField_eq_nil_iff {field : List UInt8} :
    encodeField delimiter field = [] ↔ field = [] := by
  simp only [encodeField]
  split
  next quotes =>
    have there : field ≠ [] := by
      rintro rfl
      contradiction
    simp [there]
  next => rfl

/-- The only record without bytes is one empty field. -/
theorem encodeFields_eq_nil {fields : List (List UInt8)} (nonempty : fields ≠ [])
    (nothing : encodeFields delimiter fields = []) : fields = [[]] := by
  cases fields with
  | nil => contradiction
  | cons field fields =>
    cases fields with
    | nil => rw [encodeField_eq_nil_iff.mp nothing]
    | cons next fields => simp [encodeFields] at nothing

namespace Scan

theorem foldl_encodeRecord (separates : Separates delimiter) {fields : List (List UInt8)}
    (nonempty : fields ≠ []) {scan : Scan} (idle : scan.phase = .between) (fresh : scan.field = [])
    (done : scan.fields = []) :
    ∃ here, (encodeRecord delimiter fields).foldl (step delimiter) scan =
      { scan with records := ⟨scan.start, fields⟩ :: scan.records, start := here, here } := by
  by_cases nothing : encodeFields delimiter fields = []
  case pos =>
    -- A lone empty field is written as quotes, lest the line be skipped.
    obtain rfl := encodeFields_eq_nil nonempty nothing
    obtain ⟨here, read⟩ := foldl_quotes delimiter [] (.inl idle) fresh
    refine ⟨here.after lineFeed, ?_⟩
    rw [encodeRecord, if_pos nothing, List.foldl_append]
    rw [doubleQuotes, List.nil_append] at read
    rw [read, List.foldl_cons, List.foldl_nil, step_lineFeed separates (by simp) (by simp)]
    simp [endRecord, idle, fresh, done]
  case neg =>
    obtain ⟨here, read⟩ := foldl_encodeFields separates nonempty scan fresh (.inr ⟨idle, nothing⟩)
    refine ⟨here, ?_⟩
    rw [encodeRecord, if_neg nothing, read]
    simp [idle, fresh, done]

theorem foldl_encodeRecords (separates : Separates delimiter) {rows : List (List (List UInt8))}
    (nonempty : ∀ fields ∈ rows, fields ≠ []) (scan : Scan) (idle : scan.phase = .between)
    (fresh : scan.field = []) (done : scan.fields = []) :
    ∃ found start here, (rows.flatMap (encodeRecord delimiter)).foldl (step delimiter) scan =
        { scan with records := found ++ scan.records, start, here } ∧
      found.reverse.map Record.fields = rows := by
  induction rows generalizing scan with
  | nil => exact ⟨[], scan.start, scan.here, rfl, rfl⟩
  | cons fields rows inductionHypothesis =>
    obtain ⟨here, first⟩ := foldl_encodeRecord separates (nonempty fields (by simp)) idle fresh done
    obtain ⟨found, start, last, rest, same⟩ := inductionHypothesis
      (fun fields' member => nonempty fields' (List.mem_cons_of_mem _ member))
      ((encodeRecord delimiter fields).foldl (step delimiter) scan)
      (by rw [first]; exact idle) (by rw [first]; exact fresh) (by rw [first]; exact done)
    refine ⟨found ++ [⟨scan.start, fields⟩], start, last, ?_, ?_⟩
    · rw [List.flatMap_cons, List.foldl_append, rest, first]
      simp
    · simp [same]

end Scan

/-- Records that are written are read back, provided that the bytes do not begin like a byte order
    mark. -/
theorem records_encodeRecords (separates : Separates delimiter) {rows : List (List (List UInt8))}
    (nonempty : ∀ fields ∈ rows, fields ≠ [])
    (unmarked : (rows.flatMap (encodeRecord delimiter)).take 3 ≠ byteOrderMark) :
    (records delimiter (rows.flatMap (encodeRecord delimiter))).map Record.fields = rows := by
  obtain ⟨found, start, here, read, same⟩ := Scan.foldl_encodeRecords separates nonempty
    (.initial 0) rfl rfl rfl
  simp only [records, unmarked, if_false, read]
  simpa [Scan.finish, Scan.initial] using same

/-! ## Texts -/

@[simp] theorem decodeFields_bytesOfText (place : Nat) (texts : List String) :
    decodeFields place (texts.map bytesOfText) = .ok texts := by
  induction texts generalizing place with
  | nil => rfl
  | cons text texts inductionHypothesis =>
    simp only [List.map_cons, decodeFields, textOfBytes?_bytesOfText, inductionHypothesis]

theorem decodeRecords_bytesOfText (number : Nat) {found : List Record} {rows : List (List String)}
    (same : found.map Record.fields = rows.map (·.map bytesOfText)) :
    ∃ records : List TextRecord, decodeRecords number found = records.map .ok ∧
      records.map (·.cells) = rows := by
  induction rows generalizing number found with
  | nil =>
    obtain rfl := List.map_eq_nil_iff.mp same
    exact ⟨[], rfl, rfl⟩
  | cons row rows inductionHypothesis =>
    obtain ⟨record, found, rfl, fields, rest⟩ := List.map_eq_cons_iff.mp same
    obtain ⟨records, decoded, cells⟩ := inductionHypothesis (number + 1) rest
    refine ⟨⟨record.start.line, row⟩ :: records, ?_, by rw [List.map_cons, cells]⟩
    rw [decodeRecords, decodeRecord, fields, decodeFields_bytesOfText, decoded]
    rfl

@[simp] theorem doubleQuotes_append (bytes rest : List UInt8) :
    doubleQuotes (bytes ++ rest) = doubleQuotes bytes ++ doubleQuotes rest := by
  induction bytes with
  | nil => rfl
  | cons b bytes inductionHypothesis =>
    simp only [List.cons_append, doubleQuotes, inductionHypothesis]
    split <;> rfl

theorem doubleQuotes_of_not_mem {bytes : List UInt8} (absent : quoteByte ∉ bytes) :
    doubleQuotes bytes = bytes := by
  induction bytes with
  | nil => rfl
  | cons b bytes inductionHypothesis =>
    obtain ⟨other, rest⟩ := not_or.mp (mt List.mem_cons.mpr absent)
    rw [doubleQuotes, inductionHypothesis rest]
    simp [Ne.symm other]

/-- Doubling quotes keeps a text a text: a quote is never part of another character. -/
theorem isText_doubleQuotes {bytes : List UInt8} (isText : IsText bytes) :
    IsText (doubleQuotes bytes) := by
  obtain ⟨text, rfl⟩ := isText
  rw [← String.ofList_toList (s := text), bytesOfText_ofList]
  induction text.toList with
  | nil => exact .nil
  | cons c chars inductionHypothesis =>
    rw [List.flatMap_cons, doubleQuotes_append]
    refine .append ?_ inductionHypothesis
    by_cases quote : quoteByte ∈ String.utf8EncodeChar c
    case pos =>
      rw [utf8EncodeChar_of_mem quote (by decide)]
      exact (IsText.ascii (by decide)).append (IsText.ascii (by decide))
    case neg =>
      rw [doubleQuotes_of_not_mem quote]
      exact ⟨String.ofList [c], by rw [bytesOfText_ofList, List.flatMap_singleton]⟩

theorem isText_encodeField (delimiter : UInt8) (text : String) :
    IsText (encodeField delimiter (bytesOfText text)) := by
  rw [encodeField]
  split
  · have quote : IsText [quoteByte] := .ascii (by decide)
    exact quote.append ((isText_doubleQuotes ⟨text, rfl⟩).append quote)
  · exact ⟨text, rfl⟩

theorem isText_encodeFields (separates : Separates delimiter) (texts : List String) :
    IsText (encodeFields delimiter (texts.map bytesOfText)) := by
  induction texts with
  | nil => exact .nil
  | cons text texts inductionHypothesis =>
    have first := isText_encodeField delimiter text
    cases texts with
    | nil => exact first
    | cons next texts =>
      exact first.append ((IsText.ascii separates.ascii).append inductionHypothesis)

theorem isText_encodeRecord (separates : Separates delimiter) (texts : List String) :
    IsText (encodeRecord delimiter (texts.map bytesOfText)) := by
  have lineFeed : IsText [lineFeed] := .ascii (by decide)
  have quote : IsText [quoteByte] := .ascii (by decide)
  rw [encodeRecord]
  refine .append ?_ lineFeed
  split
  · exact quote.append quote
  · exact isText_encodeFields separates texts

def encodeTexts (delimiter : UInt8) (rows : List (List String)) : List UInt8 :=
  rows.flatMap fun row => encodeRecord delimiter (row.map bytesOfText)

theorem isText_encodeTexts (separates : Separates delimiter) (rows : List (List String)) :
    IsText (encodeTexts delimiter rows) := by
  induction rows with
  | nil => exact .nil
  | cons row rows inductionHypothesis =>
    exact (isText_encodeRecord separates row).append inductionHypothesis

theorem bytesOfText_writeText {options : WriteOptions} (separates : Separates options.delimiter)
    (frame : Frame) : bytesOfText (writeText options frame) = writeBytes options frame :=
  (isText_encodeTexts separates (writtenRecords options frame)).bytesOfText_textOfBytes

theorem encodeRecord_cons (separates : Separates delimiter) (text : String) (texts : List String) :
    ∃ b rest, b < 0x80 ∧ IsText rest ∧ encodeRecord delimiter ((text :: texts).map bytesOfText) =
      encodeField delimiter (bytesOfText text) ++ b :: rest := by
  have lineFeed : IsText [lineFeed] := .ascii (by decide)
  have quote : IsText [quoteByte] := .ascii (by decide)
  cases texts with
  | nil =>
    by_cases empty : encodeField delimiter (bytesOfText text) = []
    case pos =>
      refine ⟨quoteByte, [quoteByte, Csv.lineFeed], by decide, quote.append lineFeed, ?_⟩
      simp [encodeRecord, encodeFields, empty]
    case neg =>
      refine ⟨Csv.lineFeed, [], by decide, .nil, ?_⟩
      simp [encodeRecord, encodeFields, empty]
  | cons next texts =>
    refine ⟨delimiter, encodeFields delimiter ((next :: texts).map bytesOfText) ++ [Csv.lineFeed],
      separates.ascii, (isText_encodeFields separates _).append lineFeed, ?_⟩
    simp [encodeRecord, encodeFields]

/-! ## The byte order mark -/

theorem take_bytesOfText_iff {text : String} :
    (bytesOfText text).take 3 = byteOrderMark ↔ text.toList.head? = some '\uFEFF' := by
  have mark : byteOrderMark = bytesOfText (String.ofList ['\uFEFF']) := by
    rw [bytesOfText_ofList]
    decide
  constructor
  · intro begins
    have split : bytesOfText (String.ofList ['\uFEFF']) ++ (bytesOfText text).drop 3 =
        bytesOfText text := by
      rw [← mark, ← begins, List.take_append_drop]
    have bytes : ['\uFEFF'].utf8Encode ++ ((bytesOfText text).drop 3).toByteArray =
        text.toList.utf8Encode := by
      apply ByteArray.ext
      rw [← Array.toList_inj, ByteArray.toList_data_append, List.toList_data_toByteArray,
        String.utf8Encode_toList, ← bytesOfText_eq, ← String.toByteArray_ofList, ← bytesOfText_eq,
        split]
    have first := List.isPrefix_of_utf8Encode_append_eq_utf8Encode _ bytes
    obtain ⟨rest, whole⟩ := first
    rw [← whole]
    rfl
  · intro begins
    obtain ⟨rest, chars⟩ := List.head?_eq_some_iff.mp begins
    rw [← String.ofList_toList (s := text), chars, ← List.singleton_append, String.ofList_append,
      bytesOfText_append, ← mark]
    rfl

/-- Records do not begin like a byte order mark if their first text does not. -/
theorem take_encodeTexts_ne (separates : Separates delimiter) {text : String}
    (unmarked : text.toList.head? ≠ some '\uFEFF') (texts : List String)
    (rows : List (List String)) :
    (encodeTexts delimiter ((text :: texts) :: rows)).take 3 ≠ byteOrderMark := by
  obtain ⟨b, rest, ascii, isText, first⟩ := encodeRecord_cons separates text texts
  have above : ¬ (0xEF : UInt8) < 0x80 := by decide
  intro marked
  simp only [encodeTexts, List.flatMap_cons, first, List.append_assoc] at marked
  by_cases quotes : needsQuotes delimiter (bytesOfText text)
  case pos =>
    simp [encodeField, quotes, byteOrderMark, quoteByte] at marked
  case neg =>
    rw [encodeField, if_neg quotes] at marked
    by_cases empty : text.toList = []
    case pos =>
      obtain rfl := String.toList_eq_nil_iff.mp empty
      have nothing : bytesOfText "" = [] := bytesOfText_ofList []
      rw [nothing, List.nil_append, List.cons_append, List.take_succ_cons, byteOrderMark] at marked
      exact above (List.head_eq_of_cons_eq marked ▸ ascii)
    case neg =>
      -- The field stands as it is, and what follows it is a text as well.
      obtain ⟨tail, bytes⟩ := ((IsText.ascii ascii).append isText).append
        (isText_encodeTexts separates rows)
      have whole : bytesOfText (text ++ tail) =
          bytesOfText text ++ b :: (rest ++ encodeTexts delimiter rows) := by
        rw [bytesOfText_append, bytes, List.append_assoc]
        rfl
      have begins : (text ++ tail).toList.head? = some '\uFEFF' := by
        rw [← take_bytesOfText_iff, whole]
        exact marked
      rw [String.toList_append, List.head?_append, List.head?_eq_some_head empty,
        Option.some_or, ← List.head?_eq_some_head empty] at begins
      exact unmarked begins

/-- Records of texts that are written are read back, provided that the first of them does not begin
    like a byte order mark. -/
theorem textRecords_encodeTexts (separates : Separates delimiter) {rows : List (List String)}
    (nonempty : ∀ row ∈ rows, row ≠ [])
    (unmarked : (encodeTexts delimiter rows).take 3 ≠ byteOrderMark) :
    ∃ records : List TextRecord,
      textRecords delimiter (encodeTexts delimiter rows) = records.map .ok ∧
        records.map (·.cells) = rows := by
  have written : encodeTexts delimiter rows =
      (rows.map (·.map bytesOfText)).flatMap (encodeRecord delimiter) := by
    rw [encodeTexts, List.flatMap_map]
  rw [written] at unmarked ⊢
  apply decodeRecords_bytesOfText
  refine records_encodeRecords separates (fun fields member => ?_) unmarked
  obtain ⟨row, inside, rfl⟩ := List.mem_map.mp member
  exact mt List.map_eq_nil_iff.mp (nonempty row inside)

end Csv

end LinkedTables
