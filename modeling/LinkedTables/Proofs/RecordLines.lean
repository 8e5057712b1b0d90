import LinkedTables.Proofs.CsvOffences
import Mathlib.Data.List.Induction

/-! # The lines of records

Where a record stands is a matter of the bytes alone: `Csv.Begins` cuts them at the byte that ends
the record before, and at the first byte of the record itself.  Between the two cuts there are
only line ends.  The line that is reported of a record is the one reached at the first cut; the
line on which the record stands is the one reached at the second. -/

namespace LinkedTables

namespace Csv

/-- The bytes without a byte order mark in front. -/
def unmarked (bytes : List UInt8) : List UInt8 :=
  if bytes.take 3 = byteOrderMark then bytes.drop 3 else bytes

/-- The line that is reached behind bytes. -/
def lineBehind (bytes : List UInt8) : Nat :=
  1 + bytes.count lineFeed

/-- What is known of records behind bytes, the first of which has a place. -/
def scanned (delimiter : UInt8) (byte : Nat) (bytes : List UInt8) : Scan :=
  bytes.foldl (Scan.step delimiter) (.initial byte)

/-- How many records have ended behind bytes. -/
def ended (delimiter : UInt8) (bytes : List UInt8) : Nat :=
  (scanned delimiter 0 bytes).records.length

/-- How many records have begun behind bytes. -/
def begun (delimiter : UInt8) (bytes : List UInt8) : Nat :=
  (scanned delimiter 0 bytes).finish.records.length

/-- Behind the first bytes by which all records before a place have ended, others are skipped. -/
structure Follows (delimiter : UInt8) (place : Nat) (before gap : List UInt8) : Prop where
  ended : ended delimiter before = place
  shortest : ∀ shorter, shorter <+: before → Csv.ended delimiter shorter = place →
    shorter = before
  skipped : begun delimiter (before ++ gap) = place

/-- The record at a place begins with the byte behind a gap, which itself is behind the byte that
    ends the record before. -/
structure Begins (delimiter : UInt8) (bytes : List UInt8) (place : Nat)
    (before gap : List UInt8) : Prop extends Follows delimiter place before gap where
  first : ∃ byte rest, bytes = before ++ gap ++ byte :: rest ∧
    begun delimiter (before ++ gap ++ [byte]) = place + 1

/-- The line that an error names. -/
def Error.line? : Error → Option Nat
  | .record line _ => some line
  | .unreadable (.notText _ line _ _ _) => some line
  | _ => none

variable {delimiter : UInt8} {scan next : Scan} {b : UInt8} {bytes before gap : List UInt8}
  {place : Nat}

/-! ## One byte -/

/-- What a byte does to a scan: between records it may be skipped, it may belong to a record, or it
    may end one. -/
inductive Scan.Moves (scan : Scan) (b : UInt8) (next : Scan) : Prop where
  | skips (idle : scan.phase = .between) (lineEnd : isLineEnd b) (still : next.phase = .between)
      (records : next.records = scan.records) (start : next.start = scan.start)
  | goesOn (busy : next.phase ≠ .between) (records : next.records = scan.records)
      (start : next.start = scan.start)
  | ends (busy : scan.phase ≠ .between) (idle : next.phase = .between)
      (records : ∃ fields, next.records = ⟨scan.start, fields⟩ :: scan.records)
      (start : next.start = next.here)

namespace Scan

theorem moves_stepPlain (delimiter : UInt8)
    (taken : scan.phase = .between → isLineEnd b = false) :
    Moves scan b (scan.stepPlain delimiter b) := by
  simp only [stepPlain]
  split
  · exact .goesOn (by simp [endField]) rfl rfl
  split
  next lineEnd =>
    refine .ends (fun idle => ?_) rfl ⟨_, rfl⟩ rfl
    rw [taken idle] at lineEnd
    contradiction
  next => exact .goesOn (by simp [put]) rfl rfl

theorem moves_stepFieldStart (delimiter : UInt8)
    (taken : scan.phase = .between → isLineEnd b = false) :
    Moves scan b (scan.stepFieldStart delimiter b) := by
  simp only [stepFieldStart]
  split
  · exact .goesOn (by simp) rfl rfl
  · exact moves_stepPlain delimiter taken

/-- Nothing but the place depends on where a scan stands. -/
theorem Moves.of_here {here : Position} (moves : Moves { scan with here } b next) :
    Moves scan b next := by
  cases moves with
  | skips idle lineEnd still records start => exact .skips idle lineEnd still records start
  | goesOn busy records start => exact .goesOn busy records start
  | ends busy idle records start => exact .ends busy idle records start

theorem moves_step (delimiter : UInt8) (scan : Scan) (b : UInt8) :
    Moves scan b (scan.step delimiter b) := by
  simp only [step]
  split
  next idle =>
    split
    next lineEnd => exact .skips idle lineEnd idle rfl rfl
    next taken => exact (moves_stepFieldStart delimiter fun _ => by simpa using taken).of_here
  next busy => exact (moves_stepFieldStart delimiter (by simp [busy])).of_here
  next busy => exact (moves_stepPlain delimiter (by simp [busy])).of_here
  next busy =>
    split
    · exact .goesOn (by simp) rfl rfl
    · exact .goesOn (by simp [put]) rfl rfl
  next busy =>
    split
    · exact .goesOn (by simp [put]) rfl rfl
    · exact (moves_stepPlain delimiter (by simp [busy])).of_here

@[simp] theorem here_step (delimiter : UInt8) (scan : Scan) (b : UInt8) :
    (scan.step delimiter b).here = scan.here.after b := by
  simp only [step, stepFieldStart, stepPlain, put, endField, endRecord]
  repeat' split
  all_goals rfl

/-- Two scans that are in the middle of the same thing, as many records behind. -/
structure Alike (scan other : Scan) : Prop where
  phase : scan.phase = other.phase
  length : scan.records.length = other.records.length

theorem Alike.step {other : Scan} (alike : Alike scan other) (delimiter b : UInt8) :
    Alike (scan.step delimiter b) (other.step delimiter b) := by
  obtain ⟨phase, length⟩ := alike
  simp only [Scan.step, stepFieldStart, stepPlain, put, endField, endRecord, phase]
  repeat' split
  all_goals exact ⟨by simp, by simp [length]⟩

end Scan

/-! ## Many bytes -/

@[simp] theorem scanned_concat (byte : Nat) (bytes : List UInt8) :
    scanned delimiter byte (bytes ++ [b]) = (scanned delimiter byte bytes).step delimiter b := by
  simp [scanned]

/-- Where the first byte stands makes no difference to how many records there are. -/
theorem alike_scanned (delimiter : UInt8) (byte byte' : Nat) (bytes : List UInt8) :
    (scanned delimiter byte bytes).Alike (scanned delimiter byte' bytes) := by
  induction bytes using List.reverseRecOn with
  | nil => exact ⟨rfl, rfl⟩
  | append_singleton bytes b inductionHypothesis =>
    simpa using inductionHypothesis.step delimiter b

theorem ended_eq (delimiter : UInt8) (byte : Nat) (bytes : List UInt8) :
    ended delimiter bytes = (scanned delimiter byte bytes).records.length :=
  (alike_scanned delimiter 0 byte bytes).length

theorem begun_of_idle {byte : Nat} (idle : (scanned delimiter byte bytes).phase = .between) :
    begun delimiter bytes = ended delimiter bytes := by
  rw [← (alike_scanned delimiter 0 byte bytes).phase] at idle
  simp [begun, ended, Scan.finish, idle]

theorem begun_of_busy {byte : Nat} (busy : (scanned delimiter byte bytes).phase ≠ .between) :
    begun delimiter bytes = ended delimiter bytes + 1 := by
  rw [← (alike_scanned delimiter 0 byte bytes).phase] at busy
  simp [begun, ended, Scan.finish, busy, Scan.endRecord]

theorem ended_le_begun (delimiter : UInt8) (bytes : List UInt8) :
    ended delimiter bytes ≤ begun delimiter bytes := by
  by_cases idle : (scanned delimiter 0 bytes).phase = .between
  case pos => rw [begun_of_idle idle]
  case neg => exact (Nat.le_succ _).trans_eq (begun_of_busy idle).symm

theorem moves_scanned (delimiter : UInt8) (byte : Nat) (bytes : List UInt8) (b : UInt8) :
    (scanned delimiter byte bytes).Moves b (scanned delimiter byte (bytes ++ [b])) := by
  simpa using Scan.moves_step delimiter (scanned delimiter byte bytes) b

/-- A byte ends no record that has not begun, and what has ended or begun remains so. -/
theorem ended_begun_concat (delimiter : UInt8) (bytes : List UInt8) (b : UInt8) :
    ended delimiter bytes ≤ ended delimiter (bytes ++ [b]) ∧
      begun delimiter bytes ≤ begun delimiter (bytes ++ [b]) := by
  have before := ended_eq delimiter 0 bytes
  have after := ended_eq delimiter 0 (bytes ++ [b])
  -- A record has begun but not ended exactly while the scan is not between records.
  cases moves_scanned delimiter 0 bytes b with
  | skips idle _ still records _ =>
    rw [begun_of_idle idle, begun_of_idle still, before, after, records]
    exact ⟨Nat.le_refl _, Nat.le_refl _⟩
  | goesOn busy records _ =>
    rw [begun_of_busy busy, before, after, records, ← before]
    refine ⟨Nat.le_refl _, ?_⟩
    by_cases idle : (scanned delimiter 0 bytes).phase = .between
    case pos => exact (begun_of_idle idle).trans_le (Nat.le_succ _)
    case neg => exact (begun_of_busy idle).le
  | ends busy idle records _ =>
    obtain ⟨fields, records⟩ := records
    rw [begun_of_busy busy, begun_of_idle idle, before, after, records, List.length_cons]
    exact ⟨Nat.le_succ _, Nat.le_refl _⟩

theorem ended_le_append (delimiter : UInt8) (bytes more : List UInt8) :
    ended delimiter bytes ≤ ended delimiter (bytes ++ more) := by
  induction more using List.reverseRecOn with
  | nil => rw [List.append_nil]
  | append_singleton more b inductionHypothesis =>
    rw [← List.append_assoc]
    exact inductionHypothesis.trans (ended_begun_concat delimiter _ b).1

theorem begun_le_append (delimiter : UInt8) (bytes more : List UInt8) :
    begun delimiter bytes ≤ begun delimiter (bytes ++ more) := by
  induction more using List.reverseRecOn with
  | nil => rw [List.append_nil]
  | append_singleton more b inductionHypothesis =>
    rw [← List.append_assoc]
    exact inductionHypothesis.trans (ended_begun_concat delimiter _ b).2

/-! ## The cuts -/

/-- The byte with which a record begins is not skipped. -/
theorem not_follows_of_begun {rest : List UInt8}
    (opened : begun delimiter (before ++ gap ++ [b]) = place + 1) :
    ¬ Follows delimiter place before (gap ++ b :: rest) := by
  intro follows
  have whole := begun_le_append delimiter (before ++ gap ++ [b]) rest
  rw [opened] at whole
  have skipped := follows.skipped
  simp only [List.append_assoc, List.singleton_append] at whole skipped
  omega

/-- There is only one way to cut the bytes at a record. -/
theorem Begins.unique {before' gap' : List UInt8} (begins : Begins delimiter bytes place before gap)
    (begins' : Begins delimiter bytes place before' gap') : before' = before ∧ gap' = gap := by
  obtain ⟨byte, rest, cut, opened⟩ := begins.first
  obtain ⟨byte', rest', cut', opened'⟩ := begins'.first
  have within : before <+: bytes := ⟨gap ++ byte :: rest, by rw [cut, List.append_assoc]⟩
  have within' : before' <+: bytes := ⟨gap' ++ byte' :: rest', by rw [cut', List.append_assoc]⟩
  have same : before' = before := by
    rcases List.prefix_or_prefix_of_prefix within within' with shorter | shorter
    · exact (begins'.shortest before shorter begins.ended).symm
    · exact begins.shortest before' shorter begins'.ended
  subst same
  refine ⟨rfl, ?_⟩
  rw [List.append_assoc] at cut cut'
  have gaps : gap' ++ byte' :: rest' = gap ++ byte :: rest :=
    List.append_cancel_left (cut'.symm.trans cut)
  -- The longer of two gaps would contain the byte with which the record begins.
  rcases List.append_eq_append_iff.mp gaps with ⟨more, longer, tail⟩ | ⟨more, longer, tail⟩
  · cases more with
    | nil => rw [longer, List.append_nil]
    | cons first more =>
      obtain ⟨rfl, -⟩ := List.cons_eq_cons.mp tail
      exact absurd (longer ▸ begins.toFollows) (not_follows_of_begun opened')
  · cases more with
    | nil => rw [longer, List.append_nil]
    | cons first more =>
      obtain ⟨rfl, -⟩ := List.cons_eq_cons.mp tail
      exact absurd (longer ▸ begins'.toFollows) (not_follows_of_begun opened)

/-- What is skipped between records are line ends. -/
theorem Follows.isLineEnd (follows : Follows delimiter place before gap) :
    ∀ byte ∈ gap, isLineEnd byte := by
  intro byte member
  obtain ⟨passed, rest, rfl⟩ := List.append_of_mem member
  have skipped := follows.skipped
  have ended := ended_le_append delimiter before passed
  have begun := begun_le_append delimiter (before ++ passed ++ [byte]) rest
  have among := ended_le_begun delimiter (before ++ passed)
  have least := (ended_begun_concat delimiter (before ++ passed) byte).2
  simp only [List.append_assoc, List.singleton_append] at skipped ended begun among least
  rw [skipped] at begun
  rw [follows.ended] at ended
  -- Any other byte would have begun a record more, and none is begun in the gap.
  cases moves_scanned delimiter 0 (before ++ passed) byte with
  | skips _ lineEnd _ _ _ => exact lineEnd
  | goesOn busy records _ =>
    have opened := begun_of_busy busy
    rw [ended_eq delimiter 0, records, ← ended_eq delimiter 0] at opened
    simp only [List.append_assoc] at opened
    omega
  | ends busy _ _ _ =>
    have opened := begun_of_busy busy
    omega

theorem follows_concat (now : ended delimiter (bytes ++ [b]) = place)
    (fewer : ended delimiter bytes < place) (skipped : begun delimiter (bytes ++ [b] ++ gap) = place) :
    Follows delimiter place (bytes ++ [b]) gap := by
  refine ⟨now, fun shorter within sameCount => ?_, skipped⟩
  rcases List.prefix_concat_iff.mp within with same | ⟨more, rfl⟩
  · exact same
  have atMost := ended_le_append delimiter shorter more
  omega

theorem Begins.append (begins : Begins delimiter bytes place before gap) (more : List UInt8) :
    Begins delimiter (bytes ++ more) place before gap := by
  obtain ⟨byte, rest, cut, opened⟩ := begins.first
  exact ⟨begins.toFollows, byte, rest ++ more, by simp [cut], opened⟩

/-! ## What a scan knows of the cuts -/

/-- A place in the bytes is on the line that is reached where the record before ends. -/
def StartsBehind (delimiter : UInt8) (bytes : List UInt8) (place : Nat) (start : Position) : Prop :=
  ∃ before gap, Begins delimiter bytes place before gap ∧ start.line = lineBehind before

theorem StartsBehind.append {start : Position} (behind : StartsBehind delimiter bytes place start)
    (more : List UInt8) : StartsBehind delimiter (bytes ++ more) place start := by
  obtain ⟨before, gap, begins, line⟩ := behind
  exact ⟨before, gap, begins.append more, line⟩

/-- What the place and the records of a scan say of the bytes so far. -/
structure Placed (delimiter : UInt8) (bytes : List UInt8) (scan : Scan) : Prop where
  here : scan.here.line = lineBehind bytes
  idle : scan.phase = .between → ∃ before gap, bytes = before ++ gap ∧
    Follows delimiter scan.records.length before gap ∧ scan.start.line = lineBehind before
  busy : scan.phase ≠ .between → StartsBehind delimiter bytes scan.records.length scan.start
  recorded : ∀ (place : Nat) (record : Record), scan.records.reverse[place]? = some record →
    StartsBehind delimiter bytes place record.start

theorem Placed.recorded_cons (placed : Placed delimiter bytes scan)
    (busy : scan.phase ≠ .between) (fields : List (List UInt8)) (record : Record)
    (there : (⟨scan.start, fields⟩ :: scan.records).reverse[place]? = some record) :
    StartsBehind delimiter bytes place record.start := by
  rw [List.reverse_cons, List.getElem?_append, List.length_reverse] at there
  split at there
  · exact placed.recorded place record there
  · rw [List.getElem?_singleton] at there
    split at there
    next last =>
      cases there
      have same : place = scan.records.length := by omega
      rw [same]
      exact placed.busy busy
    next => contradiction

theorem lineBehind_concat (bytes : List UInt8) (position : Position)
    (line : position.line = lineBehind bytes) : (position.after b).line = lineBehind (bytes ++ [b]) := by
  simp only [Position.after, lineBehind, List.count_append, List.count_singleton] at line ⊢
  split <;> omega

theorem placed_scanned (delimiter : UInt8) (byte : Nat) (bytes : List UInt8) :
    Placed delimiter bytes (scanned delimiter byte bytes) := by
  induction bytes using List.reverseRecOn with
  | nil =>
    have follows : Follows delimiter 0 [] [] := ⟨rfl, fun _ within _ => List.prefix_nil.mp within, rfl⟩
    exact ⟨rfl, fun _ => ⟨[], [], rfl, follows, rfl⟩, fun busy => absurd rfl busy, nofun⟩
  | append_singleton bytes b inductionHypothesis =>
    have here : (scanned delimiter byte (bytes ++ [b])).here.line = lineBehind (bytes ++ [b]) := by
      rw [scanned_concat, Scan.here_step]
      exact lineBehind_concat bytes _ inductionHypothesis.here
    have before := ended_eq delimiter byte bytes
    have after := ended_eq delimiter byte (bytes ++ [b])
    -- The first cut moves only where a record ends, and the second is made only where one begins.
    cases moves_scanned delimiter byte bytes b with
    | skips idle _ still records start =>
      obtain ⟨first, gap, cut, follows, line⟩ := inductionHypothesis.idle idle
      refine ⟨here, fun _ => ⟨first, gap ++ [b], by rw [cut, List.append_assoc], ?_, by rw [start, line]⟩,
        fun busy => absurd still busy, fun place record there => ?_⟩
      · rw [records]
        refine ⟨follows.ended, follows.shortest, ?_⟩
        rw [← List.append_assoc, ← cut, begun_of_idle still, after, records]
      · rw [records] at there
        exact (inductionHypothesis.recorded place record there).append [b]
    | goesOn busy records start =>
      refine ⟨here, fun idle => absurd idle busy, fun _ => ?_, fun place record there => ?_⟩
      · rw [records, start]
        by_cases idle : (scanned delimiter byte bytes).phase = .between
        case neg => exact (inductionHypothesis.busy idle).append [b]
        obtain ⟨first, gap, cut, follows, line⟩ := inductionHypothesis.idle idle
        refine ⟨first, gap, ⟨follows, b, [], by rw [cut], ?_⟩, line⟩
        rw [← cut, begun_of_busy busy, after, records]
      · rw [records] at there
        exact (inductionHypothesis.recorded place record there).append [b]
    | ends busy idle records start =>
      obtain ⟨fields, records⟩ := records
      refine ⟨here, fun _ => ⟨bytes ++ [b], [], by rw [List.append_nil], ?_, by rw [start, here]⟩,
        fun busy => absurd idle busy, fun place record there => ?_⟩
      · apply follows_concat after
        · rw [before, records]
          exact Nat.lt_succ_self _
        · rw [List.append_nil, begun_of_idle idle, after]
      · rw [records] at there
        exact (inductionHypothesis.recorded_cons busy fields record there).append [b]

/-! ## The records of bytes -/

theorem exists_records_eq (delimiter : UInt8) (bytes : List UInt8) :
    ∃ byte, records delimiter bytes =
      (scanned delimiter byte (unmarked bytes)).finish.records.reverse := by
  by_cases marked : bytes.take 3 = byteOrderMark
  · exact ⟨3, by simp [records, unmarked, scanned, marked]⟩
  · exact ⟨0, by simp [records, unmarked, scanned, marked]⟩

theorem startsBehind_of_records {record : Record}
    (there : (records delimiter bytes)[place]? = some record) :
    StartsBehind delimiter (unmarked bytes) place record.start := by
  obtain ⟨byte, found⟩ := exists_records_eq delimiter bytes
  have placed := placed_scanned delimiter byte (unmarked bytes)
  rw [found, Scan.finish] at there
  split at there
  · exact placed.recorded place record there
  next busy => exact placed.recorded_cons busy _ record there

theorem getElem?_decodeRecords (number place : Nat) (found : List Record) :
    (decodeRecords number found)[place]? =
      found[place]?.map (decodeRecord (number + place)) := by
  induction found generalizing number place with
  | nil => rfl
  | cons record found inductionHypothesis =>
    cases place with
    | zero => rfl
    | succ place =>
      rw [decodeRecords, List.getElem?_cons_succ, List.getElem?_cons_succ, inductionHypothesis,
        Nat.add_right_comm, Nat.add_assoc]

/-- The line on which a record stands is the one reached where the record before ends exactly if
    no line feed is skipped. -/
theorem lineBehind_append_eq_iff (before gap : List UInt8) :
    lineBehind before = lineBehind (before ++ gap) ↔ lineFeed ∉ gap := by
  rw [← List.count_eq_zero, lineBehind, lineBehind, List.count_append]
  omega

/-- Whatever is wrong with the record at a place, the line reached where the record before ends is
    named. -/
theorem Offence.names_line {options : ReadOptions} {error : Error}
    (offence : Offence options (textRecords options.delimiter bytes) place error) :
    ∃ before gap,
      (∀ before' gap', Begins options.delimiter (unmarked bytes) place before' gap' ↔
        before' = before ∧ gap' = gap) ∧
      (∀ byte ∈ gap, isLineEnd byte) ∧
      error.line? = some (lineBehind before) ∧
      (error.line? = some (lineBehind (before ++ gap)) ↔ lineFeed ∉ gap) := by
  obtain ⟨entry, there, offends⟩ := offence
  rw [textRecords, getElem?_decodeRecords, Option.map_eq_some_iff] at there
  obtain ⟨record, there, decoded⟩ := there
  obtain ⟨before, gap, begins, line⟩ := startsBehind_of_records there
  -- Every error of a record carries the place where the scan put the start of the record.
  have named : error.line? = some (lineBehind before) := by
    rw [← line]
    simp only [decodeRecord] at decoded
    split at decoded
    · cases decoded
      cases offends <;> rfl
    · cases decoded
      cases offends
      rfl
  refine ⟨before, gap, fun before' gap' => ⟨begins.unique, ?_⟩, begins.isLineEnd, named, ?_⟩
  · rintro ⟨rfl, rfl⟩
    exact begins
  · rw [named, Option.some.injEq]
    exact lineBehind_append_eq_iff before gap

end Csv

end LinkedTables
