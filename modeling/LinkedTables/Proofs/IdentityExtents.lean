import LinkedTables.Column.Basic
import LinkedTables.Proofs.Extents

/-! # The extent of identities

The extent of an index column is that of its identities as whole numbers, rounded at the end; a plain
column of the same numbers rounds each of them and compares the results.  Many identities are rounded
to one number.  The ends are the same all the same: rounding keeps the order, so of two identities the
lesser one is never rounded above the other. -/

namespace LinkedTables

namespace Floating

variable {p : Precision} {m n : Nat}

theorem ofNatural_eq_of_atMost (below : (ofNatural m : Floating p).AtMost (ofNatural n))
    (above : (ofNatural n : Floating p).AtMost (ofNatural m)) :
    (ofNatural m : Floating p) = ofNatural n := by
  have low := Int.ofNat_le.mp (atMost_number.mp below)
  have high := Int.ofNat_le.mp (atMost_number.mp above)
  exact congrArg (number false) (Fin.ext (Nat.le_antisymm low high))

theorem ofNatural_lesser (m n : Nat) :
    (ofNatural m : Floating p).lesser (ofNatural n) = ofNatural (if n < m then n else m) := by
  rcases lesser_cases (a := (ofNatural m : Floating p)) (b := ofNatural n) rfl rfl with
    ⟨chosen, below⟩ | ⟨chosen, below⟩
  · rw [chosen]
    split
    next less => exact ofNatural_eq_of_atMost below (atMost_ofNatural (Nat.le_of_lt less))
    next => rfl
  · rw [chosen]
    split
    next => rfl
    next more => exact ofNatural_eq_of_atMost below (atMost_ofNatural (Nat.not_lt.mp more))

theorem ofNatural_greater (m n : Nat) :
    (ofNatural m : Floating p).greater (ofNatural n) = ofNatural (if m < n then n else m) := by
  rcases greater_cases (a := (ofNatural m : Floating p)) (b := ofNatural n) rfl rfl with
    ⟨chosen, above⟩ | ⟨chosen, above⟩
  · rw [chosen]
    split
    next less => exact ofNatural_eq_of_atMost (atMost_ofNatural (Nat.le_of_lt less)) above
    next => rfl
  · rw [chosen]
    split
    next => rfl
    next more => exact ofNatural_eq_of_atMost (atMost_ofNatural (Nat.not_lt.mp more)) above

end Floating

namespace Identity

variable {least greatest : Option Identity} {extent : Option (Double × Double)}

/-- An extent whose ends are two identities, rounded. -/
inductive Rounded : Option Identity → Option Identity → Option (Double × Double) → Prop where
  | bare : Rounded none none none
  | ends (least greatest : Identity) : Rounded (some least) (some greatest)
      (some (.ofNatural least.val, .ofNatural greatest.val))

theorem Rounded.widen (rounded : Rounded least greatest extent) (id : Identity) :
    Rounded (lower least id) (raise greatest id) (Buffer.widen extent (.ofNatural id.val)) := by
  cases rounded with
  | bare => exact .ends id id
  | ends least greatest =>
    have step : Buffer.widen (some (.ofNatural least.val, .ofNatural greatest.val))
        (.ofNatural id.val) =
        some (.ofNatural (if id.val < least.val then id else least).val,
          .ofNatural (if greatest.val < id.val then id else greatest).val) := by
      show some (Floating.lesser _ _, Floating.greater _ _) = _
      rw [Floating.ofNatural_lesser, Floating.ofNatural_greater, apply_ite Fin.val,
        apply_ite Fin.val]
    rw [step]
    exact .ends _ _

theorem Rounded.foldl (rounded : Rounded least greatest extent) (ids : List Identity) :
    Rounded (ids.foldl lower least) (ids.foldl raise greatest)
      ((ids.map fun id => Floating.ofNatural id.val).foldl Buffer.widen extent) := by
  induction ids generalizing least greatest extent with
  | nil => exact rounded
  | cons id ids inductionHypothesis => exact inductionHypothesis (rounded.widen id)

end Identity

/-- The cells of an index column as those of a plain one. -/
def IndexColumn.toBuffer (index : IndexColumn) : Buffer :=
  ⟨.unsigned .w64, index.ids⟩

namespace IndexColumn

@[simp] theorem components_toBuffer (index : IndexColumn) :
    index.toBuffer.components = index.ids.toList.map fun id => Floating.ofNatural id.val :=
  List.flatMap_pure_eq_map _ _

@[simp] theorem extent_toBuffer (index : IndexColumn) : index.toBuffer.extent = index.extent := by
  have rounded := Identity.Rounded.bare.foldl index.ids.toList
  rw [← components_toBuffer] at rounded
  change Identity.Rounded (Identity.least? _) (Identity.greatest? _) index.toBuffer.extent at rounded
  rw [IndexColumn.extent]
  generalize Identity.least? index.ids.toList = least? at rounded ⊢
  generalize Identity.greatest? index.ids.toList = greatest? at rounded ⊢
  generalize index.toBuffer.extent = extent at rounded ⊢
  cases rounded <;> rfl

end IndexColumn

/-- Every identity is a number, so only a column without rows has no extent. -/
theorem IndexColumn.extent_eq_none_iff (index : IndexColumn) :
    index.extent = none ↔ index.ids = #[] := by
  rw [← index.extent_toBuffer, index.toBuffer.tight_extent.eq_none_iff, Buffer.bare_components_iff,
    Array.eq_empty_iff_forall_not_mem]
  refine forall_congr' fun id => ?_
  have holds : index.toBuffer.kind.holdsNumber id = true := rfl
  rw [holds]
  exact ⟨fun gap member => absurd (gap member) (by decide), fun absent member =>
    absurd member absent⟩

/-- An index column has the same extent as a plain column of the same numbers, none if it has no rows,
    for all identities: each is rounded to the nearest number, to the even one of two, and of two
    identities the lesser is not rounded above the greater. -/
theorem Column.extent_identities (index : IndexColumn) (header : String)
    (computed custom : Option Range) :
    (Column.index index).extent =
      (Column.plain ⟨header, ⟨.unsigned .w64, index.ids⟩, computed, custom⟩).extent ∧
    ((Column.index index).extent = none ↔ index.ids = #[]) ∧
    (∀ id : Identity, ∃ code : Fin (Precision.double.infinity + 1),
      (.ofNatural id.val : Double) = .number false code ∧ code.val < Precision.double.infinity ∧
        Precision.double.Nearest (id.val * Precision.double.unitsPerOne) 1 code.val) ∧
    ∀ id other : Identity, id ≤ other →
      (.ofNatural id.val : Double).AtMost (.ofNatural other.val) := by
  refine ⟨index.extent_toBuffer.symm, index.extent_eq_none_iff, fun id => ?_,
    fun id other le => Floating.atMost_ofNatural le⟩
  have finite := Precision.codeOf_natural_lt (p := .double) id.isLt
  rw [Precision.codeOf_natural] at finite
  exact ⟨_, rfl, finite, Precision.nearest_nearestCode Nat.one_pos finite⟩

/-- Two identities that are rounded to one number. -/
example : (Column.index (.ofIds "index" (IndexColumn.consecutive 9007199254740992 2))).extent =
    some (.ofNatural 9007199254740992, .ofNatural 9007199254740992) := by
  decide +kernel

end LinkedTables
