import Mathlib.Data.List.Basic
import LinkedTables.Proofs.ColumnGrowth
import LinkedTables.Proofs.KindInference

/-! # What a column holds

`Column.Holds header kind? texts column` is the view of a column as the texts it was made of.  It
leaves nothing of the column open, so two columns that hold the same texts under the same header
and kind are equal, however they came about. -/

namespace LinkedTables

/-! ## Categories in first-seen order -/

section

variable {texts : List String} {text : String}

theorem eraseDups_concat_of_mem (known : text ∈ texts) :
    (texts ++ [text]).eraseDups = texts.eraseDups := by
  simp [List.eraseDups_append, List.removeAll, known]

theorem eraseDups_concat_of_not_mem (unknown : text ∉ texts) :
    (texts ++ [text]).eraseDups = texts.eraseDups ++ [text] := by
  simp [List.eraseDups_append, List.removeAll, unknown, List.eraseDups_cons]

theorem idxOf_eraseDups_concat {category : String} (known : category ∈ texts) :
    (texts ++ [text]).eraseDups.idxOf category = texts.eraseDups.idxOf category := by
  rw [List.eraseDups_append, List.idxOf_append, if_pos (List.mem_eraseDups.mpr known)]

end

/-- The places of texts among their categories, as codes. -/
def codesOf (texts : List String) : List Code :=
  texts.map fun text => Code.ofPlace (texts.eraseDups.idxOf text)

theorem codesOf_concat (texts : List String) (text : String) :
    codesOf (texts ++ [text]) =
      codesOf texts ++ [Code.ofPlace ((texts ++ [text]).eraseDups.idxOf text)] := by
  simp only [codesOf, List.map_append, List.map_cons, List.map_nil, List.append_cancel_right_eq]
  refine List.map_congr_left fun category known => ?_
  rw [idxOf_eraseDups_concat known]

/-- Whether a column of a kind reads a text; a categorical column reads every text. -/
def Accepts (kind? : Option Kind) (text : String) : Prop :=
  ∀ kind, kind? = some kind → kind.reads text

namespace Column

/-- A column without ranges that holds texts: what they read as under a kind, or else their
    categories in the order in which they are first seen and the place of each text among them. -/
inductive Holds (header : String) : Option Kind → List String → Column → Prop where
  | plain {kind : Kind} {texts : List String} (contents : List kind.Content)
      (read : texts.map kind.read = contents.map some) :
      Holds header (some kind) texts (.plain ⟨header, ⟨kind, contents.toArray⟩, none, none⟩)
  | categorical (texts : List String) :
      Holds header none texts
        (.categorical ⟨header, (codesOf texts).toArray, texts.eraseDups.toArray⟩)

namespace Holds

variable {header : String} {kind? : Option Kind} {texts : List String} {text : String}
  {column other : Column}

theorem unique (holds : Holds header kind? texts column) (holds' : Holds header kind? texts other) :
    column = other := by
  cases holds with
  | plain contents read =>
    cases holds' with
    | plain contents' read' =>
      have same : contents = contents' :=
        List.map_injective_iff.mpr (fun _ _ => Option.some.inj) (read.symm.trans read')
      rw [same]
  | categorical => cases holds'; rfl

theorem header_eq (holds : Holds header kind? texts column) : column.header = header := by
  cases holds <;> rfl

theorem isIndex_eq (holds : Holds header kind? texts column) : column.isIndex = false := by
  cases holds <;> rfl

theorem size_eq (holds : Holds header kind? texts column) : column.size = texts.length := by
  cases holds with
  | plain contents read =>
    have same := congrArg List.length read
    simpa [PlainColumn.size, Buffer.size] using same.symm
  | categorical => simp [CategoricalColumn.size, codesOf]

theorem kind_eq {kind : Kind} (holds : Holds header (some kind) texts column) :
    column.kind = kind := by
  cases holds; rfl

theorem read_iff (holds : Holds header kind? texts column) :
    (∃ value, column.read text = .ok value) ↔ Accepts kind? text := by
  cases holds with
  | plain contents read =>
    rename_i kind
    simp only [Column.read, PlainColumn.read, Buffer.read, Accepts, Kind.reads, Option.some.injEq,
      forall_eq']
    cases kind.read text <;> simp
  | categorical => simp [Column.read, Accepts]

theorem accepts (holds : Holds header kind? texts column) (member : text ∈ texts) :
    Accepts kind? text := by
  cases holds with
  | plain contents read =>
    intro kind typed
    cases typed
    obtain ⟨content, _, reads⟩ := List.mem_map.mp (read ▸ List.mem_map_of_mem member)
    simp [Kind.reads, ← reads]
  | categorical =>
    intro kind typed
    contradiction

/-- A row shows what the column reads from its text, provided that there are codes for all
    categories. -/
theorem value_eq {row : Nat} (holds : Holds header kind? texts column)
    (there : texts[row]? = some text)
    (coded : kind? = none → texts.eraseDups.length ≤ Width.count .w32) :
    ∃ value, column.read text = .ok value ∧ column.value true row = .ok value := by
  cases holds with
  | @plain kind _ contents read =>
    have cell : (texts.map kind.read)[row]? = some (kind.read text) := by simp [there]
    rw [read, List.getElem?_map, Option.map_eq_some_iff] at cell
    obtain ⟨content, present, reads⟩ := cell
    refine ⟨.cell kind content, ?_, value_plain.mpr ⟨content, by simpa using present, rfl⟩⟩
    simp [Column.read, PlainColumn.read, Buffer.read, ← reads]
  | categorical =>
    have member : text ∈ texts.eraseDups :=
      List.mem_eraseDups.mpr (List.mem_of_getElem? there)
    have bound := List.idxOf_lt_length_of_mem member
    have place := List.getElem?_idxOf member
    refine ⟨.text text, rfl, value_text.mpr
      ⟨Code.ofPlace (texts.eraseDups.idxOf text), text, ?_, ?_, rfl⟩⟩
    · simp [codesOf, there]
    · have small := Nat.mod_eq_of_lt (Nat.lt_of_lt_of_le bound (coded rfl))
      simpa [Code.ofPlace, small] using place

theorem grow {next : Column} {value : Value} (holds : Holds header kind? texts column)
    (read : column.read text = .ok value) (grown : column.Grown value next) :
    Holds header kind? (texts ++ [text]) next := by
  cases holds with
  | @plain kind _ contents before =>
    cases grown with
    | plain _ _ _ _ _ content =>
      have last : kind.read text = some content := by
        simp only [Column.read, PlainColumn.read, Buffer.read] at read
        cases content' : kind.read text with
        | none => simp [content'] at read
        | some content' => simpa [content'] using read
      rw [List.push_toArray]
      exact .plain (contents ++ [content]) (by simp [before, last])
  | categorical =>
    simp only [Column.read, Except.ok.injEq] at read
    subst read
    cases grown with
    | @category _ _ _ _ place known =>
      rw [List.idxOf?_toArray] at known
      -- The categories stay, and the place that was found is the first one.
      have there : text ∈ texts := by
        rw [← List.mem_eraseDups, ← List.isSome_idxOf?, known]
        rfl
      have first : texts.eraseDups.idxOf text = place := by
        rw [List.idxOf_eq_getD_idxOf?, known]
        rfl
      have codes := codesOf_concat texts text
      rw [eraseDups_concat_of_mem there, first] at codes
      rw [List.push_toArray, ← codes, ← eraseDups_concat_of_mem there]
      exact .categorical (texts ++ [text])
    | newCategory _ _ unknown =>
      -- A new category comes last, behind those of the texts so far.
      have absent : text ∉ texts := by simpa using unknown
      have codes := codesOf_concat texts text
      rw [eraseDups_concat_of_not_mem absent, List.idxOf_append,
        if_neg (by simpa using absent)] at codes
      simp only [List.idxOf_cons_self, Nat.zero_add] at codes
      rw [List.push_toArray, List.push_toArray, List.size_toArray, ← codes,
        ← eraseDups_concat_of_not_mem absent]
      exact .categorical (texts ++ [text])

end Holds

theorem holds_emptyColumn (header : String) (kind? : Option Kind) :
    Holds header kind? [] (emptyColumn header kind?) := by
  cases kind? with
  | some kind => exact .plain [] rfl
  | none => exact .categorical []

theorem Holds.pushText {header : String} {kind? : Option Kind} {texts : List String}
    {column : Column} {text : String} (holds : Holds header kind? texts column)
    (accepted : Accepts kind? text) :
    ∃ next, Column.pushText text column = (.ok (), next) ∧
      Holds header kind? (texts ++ [text]) next := by
  obtain ⟨value, read⟩ := holds.read_iff.mpr accepted
  obtain ⟨next, pushed, grown⟩ := push_read read
  exact ⟨next, by simp [Column.pushText, read, pushed], holds.grow read grown⟩

theorem Holds.pushTexts {header : String} {kind? : Option Kind} {texts more : List String}
    {column : Column} (holds : Holds header kind? texts column)
    (accepted : ∀ text ∈ more, Accepts kind? text) :
    ∃ next, LinkedTables.pushTexts column more = .ok next ∧
      Holds header kind? (texts ++ more) next := by
  induction more generalizing texts column with
  | nil => exact ⟨column, rfl, by simpa using holds⟩
  | cons text more inductionHypothesis =>
    obtain ⟨middle, pushed, holdsMiddle⟩ := holds.pushText (accepted text (by simp))
    obtain ⟨next, rest, holdsNext⟩ := inductionHypothesis holdsMiddle
      fun text' member => accepted text' (List.mem_cons_of_mem _ member)
    refine ⟨next, by simp [LinkedTables.pushTexts, pushed, rest], ?_⟩
    simpa using holdsNext

/-- No text is refused by the column that is made of it. -/
theorem holds_inferColumn (doublePrecision : Bool) (header : String) (texts : List String) :
    ∃ column, inferColumn doublePrecision header texts = .ok column ∧
      Holds header (inferKind texts doublePrecision) texts column := by
  have accepted : ∀ text ∈ texts, Accepts (inferKind texts doublePrecision) text :=
    fun text member kind guessed => inferKind_reads guessed member
  simpa [inferColumn] using (holds_emptyColumn header _).pushTexts accepted

end Column

end LinkedTables
