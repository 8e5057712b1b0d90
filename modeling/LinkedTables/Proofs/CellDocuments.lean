import LinkedTables.Exchange.Cells
import LinkedTables.Proofs.RealReading

/-! # Cells as documents come back

Truth values, whole numbers and texts are read from a document as they were written.  A real number is
written as `null` if it is no finite one, and `null` is not read as a number, so a value with such a
component is lost as a whole.  Finite components are read again, but not always as the same numbers. -/

namespace LinkedTables

/-! ## Contents -/

namespace Kind

/-- What holds of every real number of a content. -/
def EveryReal (P : {p : Precision} → Floating p → Prop) : (kind : Kind) → kind.Content → Prop
  | .boolean, _ => True
  | .signed _, _ => True
  | .unsigned _, _ => True
  | .floating _, x => P x
  | .vector _ _, components => ∀ x ∈ components.toList, P x

variable {kind : Kind}

theorem spellable_contentToJson (content : kind.Content) : (kind.contentToJson content).Spellable := by
  cases kind with
  | boolean => cases content <;> trivial
  | signed | unsigned => exact Json.spellable_ofInteger _
  | floating => exact Floating.spellable_ofReal content
  | vector =>
    refine Json.spellable_array fun element member => ?_
    obtain ⟨x, _, rfl⟩ := List.mem_map.mp member
    exact Floating.spellable_ofReal x

@[simp] theorem asUnsigned?_ofInteger {width : Width} (n : Unsigned width) :
    (Json.ofInteger n.val).asBelow? width.count = some n :=
  Json.asBelow?_ofInteger n (by cases width <;> decide)

@[simp] theorem asSigned?_ofInteger {width : Width} (i : Signed width) :
    (Json.ofInteger i.val).asBounded? (-width.half) width.half = some i :=
  Json.asBounded?_ofInteger i (by cases width <;> decide)

/-- A content is read if all its real numbers are finite. -/
theorem contentOfJson?_isSome_iff (content : kind.Content) :
    (kind.contentOfJson? (kind.contentToJson content)).isSome = true ↔
      kind.EveryReal (fun x => x.isFinite = true) content := by
  cases kind with
  | boolean => exact iff_of_true rfl trivial
  | signed => exact iff_of_true (by rw [contentOfJson?, contentToJson, asSigned?_ofInteger]; rfl) trivial
  | unsigned =>
    exact iff_of_true (by rw [contentOfJson?, contentToJson, asUnsigned?_ofInteger]; rfl) trivial
  | floating p => exact Bool.eq_iff_iff.mp (Floating.asReal?_ofReal_isSome p content)
  | vector dimension p =>
    refine (Json.asVector?_isSome_iff content).trans (forall₂_congr fun x _ => ?_)
    rw [Floating.asReal?_ofReal_isSome]

/-- A content is read as it was written if all its real numbers are. -/
theorem contentOfJson?_eq_some_iff (content : kind.Content) :
    kind.contentOfJson? (kind.contentToJson content) = some content ↔
      kind.EveryReal Floating.Restored content := by
  cases kind with
  | boolean => exact iff_of_true rfl trivial
  | signed => exact iff_of_true (asSigned?_ofInteger content) trivial
  | unsigned => exact iff_of_true (asUnsigned?_ofInteger content) trivial
  | floating p => rfl
  | vector dimension p => exact Json.asVector?_eq_some_iff content

@[simp] theorem ofTag?_tag (kind : Kind) : ofTag? kind.tag = some kind := by
  cases kind with
  | boolean => decide
  | signed width => cases width <;> decide
  | unsigned width => cases width <;> decide
  | floating p => cases p <;> decide
  | vector dimension p => cases dimension <;> cases p <;> decide

theorem tag_ne_textTag (kind : Kind) : kind.tag ≠ Value.textTag := by
  have unknown : ofTag? Value.textTag = none := by decide
  intro same
  rw [← same, ofTag?_tag] at unknown
  contradiction

end Kind

/-! ## Values -/

namespace Value

/-- What holds of every real number of a value. -/
def EveryReal (P : {p : Precision} → Floating p → Prop) : Value → Prop
  | .cell kind content => kind.EveryReal P content
  | .text _ => True

/-- The value that is read from the document of a value. -/
def readBack (value : Value) : Option Value :=
  (Json.parse value.toJson.compact).bind ofJson?

theorem readBack_cell (kind : Kind) (content : kind.Content) : (Value.cell kind content).readBack =
    (kind.contentOfJson? (kind.contentToJson content)).map (.cell kind) := by
  have spellable : (Value.cell kind content).toJson.Spellable :=
    Json.spellable_ofMembers (by simpa using Kind.spellable_contentToJson content)
  rw [readBack, Json.parse_compact spellable, Option.bind_some, toJson, ofJson?,
    Json.asVariant?_ofMembers]
  simp only [if_neg kind.tag_ne_textTag, kind.ofTag?_tag]

@[simp] theorem readBack_text (content : String) : (Value.text content).readBack = some (.text content) := by
  have spellable : (Value.text content).toJson.Spellable :=
    Json.spellable_ofMembers (by simpa using Json.spellable_ofText content)
  rw [readBack, Json.parse_compact spellable, Option.bind_some, toJson, ofJson?,
    Json.asVariant?_ofMembers]
  simp only [if_true, Json.asText?_ofText, Option.map_some]

theorem EveryReal.imp {P Q : {p : Precision} → Floating p → Prop}
    (imp : ∀ {p : Precision} {x : Floating p}, P x → Q x) {value : Value} (every : value.EveryReal P) :
    value.EveryReal Q := by
  cases value with
  | text => trivial
  | cell kind content =>
    cases kind with
    | boolean | signed | unsigned => trivial
    | floating => exact imp every
    | vector => exact fun x member => imp (every x member)

/-- A value is read back just if all its real numbers are finite, then as a value of its kind, and as
    the value itself just if each of them is read as it was written; which they are if they are
    short. -/
theorem readBack_reals (value : Value) :
    (value.readBack.isSome = true ↔ value.EveryReal fun x => x.isFinite = true) ∧
      (∀ back, value.readBack = some back → back.kind? = value.kind?) ∧
      (value.readBack = some value ↔ value.EveryReal Floating.Restored) ∧
      (value.EveryReal Floating.Short → value.readBack = some value) := by
  have restored : value.readBack = some value ↔ value.EveryReal Floating.Restored := by
    cases value with
    | text content => exact iff_of_true (readBack_text content) trivial
    | cell kind content =>
      rw [readBack_cell, EveryReal, ← Kind.contentOfJson?_eq_some_iff, Option.map_eq_some_iff]
      constructor
      · rintro ⟨_, read, same⟩
        cases same
        exact read
      · exact fun read => ⟨content, read, rfl⟩
  refine ⟨?_, ?_, restored, fun short => restored.mpr (short.imp Floating.Short.restored)⟩
  · cases value with
    | text content => exact iff_of_true (by rw [readBack_text]; rfl) trivial
    | cell kind content =>
      rw [readBack_cell, Option.isSome_map]
      exact Kind.contentOfJson?_isSome_iff content
  · intro back read
    cases value with
    | text content =>
      rw [readBack_text] at read
      cases read
      rfl
    | cell kind content =>
      rw [readBack_cell] at read
      obtain ⟨_, _, rfl⟩ := Option.map_eq_some_iff.mp read
      rfl

/-- A tenth in the narrower format comes back. -/
theorem readBack_reals_tenth :
    (Kind.floating .single).read "0.1" = some (.number false ⟨1036831949, by decide⟩) ∧
      (Value.cell (.floating .single) (.number false ⟨1036831949, by decide⟩)).readBack =
        some (.cell (.floating .single) (.number false ⟨1036831949, by decide⟩)) := by
  refine ⟨by decide +kernel, (readBack_reals _).2.2.2 ?_⟩
  refine ⟨⟨false, ['0'], ['1'], none⟩, by decide +kernel, by decide, by decide, fun _ => ?_⟩
  exact ⟨by decide, by decide⟩

/-- A missing cell is NaN, and its document is not read back.  A finite number may come back as the
    one before it. -/
theorem readBack_differs :
    ((Kind.floating .single).read "" = some .nan ∧
      (Value.cell (.floating .single) .nan).readBack = none) ∧
    ((Kind.floating .double).read "1.0000137064569705" =
        some (.number false ⟨4607182480528411913, by decide⟩) ∧
      (Value.cell (.floating .double) (.number false ⟨4607182480528411913, by decide⟩)).readBack =
        some (.cell (.floating .double) (.number false ⟨4607182480528411912, by decide⟩))) := by
  refine ⟨⟨by decide +kernel, ?_⟩, by decide +kernel, ?_⟩
  · rw [readBack_cell]
    rfl
  · -- The significand has more than 53 bits, so it is rounded before it is divided.
    have numeral : (Floating.number false ⟨4607182480528411913, by decide⟩ : Double).numeral? =
        some ⟨false, ['1'], "0000137064569705".toList, none⟩ := by decide +kernel
    have applied : Json.quantity? ⟨false, ['1'], "0000137064569705".toList, none⟩ =
        (Json.scale (.ofNatural 10000137064569705) (-16)).map Json.Quantity.real := by
      show ((Json.scale _ _).map (Json.withSign false)).map _ = _
      rw [Option.map_map]
      rfl
    have quotient : (Floating.ofNatural 10000137064569705).dividedBy (Json.powerOfTen 16) =
        (.number false ⟨4607182480528411912, by decide⟩ : Double) := by decide +kernel
    have scaled : Json.scale (.ofNatural 10000137064569705) (-16) =
        some (.number false ⟨4607182480528411912, by decide⟩) := by
      rw [Json.scale, if_pos (by decide), if_neg (by decide), ← quotient]
      rfl
    rw [readBack_cell]
    simp only [Kind.contentToJson, Kind.contentOfJson?, Json.ofReal, numeral, Json.asReal?,
      Json.asQuantity?, applied, scaled, Option.map_some, Floating.convert_self]

end Value

end LinkedTables
