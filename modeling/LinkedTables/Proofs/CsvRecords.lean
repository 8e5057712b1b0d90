import LinkedTables.Csv.Reader

/-! # Records have fields

However bytes are split, every record has at least one field, so a table with a record has at
least one column. -/

namespace LinkedTables

namespace Csv

/-- No record found so far is without fields. -/
def Scan.Filled (scan : Scan) : Prop :=
  ∀ record ∈ scan.records, record.fields ≠ []

namespace Scan

variable {scan : Scan} {delimiter : UInt8}

theorem Filled.endRecord (filled : scan.Filled) : scan.endRecord.Filled := by
  intro record member
  rcases List.mem_cons.mp member with rfl | old
  · simp
  · exact filled record old

theorem Filled.stepPlain (filled : scan.Filled) (b : UInt8) :
    (scan.stepPlain delimiter b).Filled := by
  simp only [Scan.stepPlain]
  split
  · exact filled
  split
  · exact filled.endRecord
  · exact filled

theorem Filled.stepFieldStart (filled : scan.Filled) (b : UInt8) :
    (scan.stepFieldStart delimiter b).Filled := by
  simp only [Scan.stepFieldStart]
  split
  · exact filled
  · exact filled.stepPlain b

theorem Filled.step (filled : scan.Filled) (b : UInt8) : (scan.step delimiter b).Filled := by
  -- The place moves before the byte is looked at; no record depends on it.
  have moved : Filled { scan with here := scan.here.after b } := filled
  simp only [Scan.step]
  split
  · split
    · exact filled
    · exact moved.stepFieldStart b
  · exact moved.stepFieldStart b
  · exact moved.stepPlain b
  · split <;> exact filled
  · split
    · exact filled
    · exact moved.stepPlain b

theorem Filled.foldl (filled : scan.Filled) (bytes : List UInt8) :
    (bytes.foldl (Scan.step delimiter) scan).Filled := by
  induction bytes generalizing scan with
  | nil => exact filled
  | cons b bytes inductionHypothesis => exact inductionHypothesis (filled.step b)

theorem Filled.finish (filled : scan.Filled) : scan.finish.Filled := by
  simp only [Scan.finish]
  split
  · exact filled
  · exact filled.endRecord

end Scan

theorem fields_ne_nil {delimiter : UInt8} {bytes : List UInt8} {record : Record}
    (member : record ∈ records delimiter bytes) : record.fields ≠ [] := by
  have start : ∀ byte, (Scan.initial byte).Filled := fun _ _ none => nomatch none
  simp only [records, List.mem_reverse] at member
  exact ((start _).foldl _).finish record member

theorem length_decodeFields {place : Nat} {fields : List (List UInt8)} {texts : List String}
    (decoded : decodeFields place fields = .ok texts) : texts.length = fields.length := by
  induction fields generalizing place texts with
  | nil =>
    cases decoded
    rfl
  | cons field fields inductionHypothesis =>
    simp only [decodeFields] at decoded
    split at decoded
    · split at decoded
      next rest =>
        cases decoded
        simp [inductionHypothesis rest]
      · contradiction
    · contradiction

theorem cells_ne_nil_of_decodeRecord {number : Nat} {record : Record} {decoded : TextRecord}
    (fields : record.fields ≠ []) (accepted : decodeRecord number record = .ok decoded) :
    decoded.cells ≠ [] := by
  simp only [decodeRecord] at accepted
  split at accepted
  next cells texts =>
    cases accepted
    have length := length_decodeFields texts
    intro bare
    simp only at bare
    rw [bare] at length
    exact fields (List.length_eq_zero_iff.mp length.symm)
  next => contradiction

theorem exists_of_mem_decodeRecords {number : Nat} {found : List Record}
    {entry : Except Fault TextRecord} (member : entry ∈ decodeRecords number found) :
    ∃ number record, record ∈ found ∧ decodeRecord number record = entry := by
  induction found generalizing number with
  | nil => cases member
  | cons record found inductionHypothesis =>
    rcases List.mem_cons.mp member with rfl | later
    · exact ⟨number, record, by simp, rfl⟩
    · obtain ⟨number', record', member', decoded⟩ := inductionHypothesis later
      exact ⟨number', record', List.mem_cons_of_mem _ member', decoded⟩

theorem cells_ne_nil {delimiter : UInt8} {bytes : List UInt8} {record : TextRecord}
    (member : .ok record ∈ textRecords delimiter bytes) : record.cells ≠ [] := by
  obtain ⟨_, source, found, decoded⟩ := exists_of_mem_decodeRecords member
  exact cells_ne_nil_of_decodeRecord (fields_ne_nil found) decoded

end Csv

end LinkedTables
