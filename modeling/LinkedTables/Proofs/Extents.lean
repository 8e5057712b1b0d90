import LinkedTables.Buffer
import LinkedTables.Proofs.NumberOrder
import Mathlib.Data.List.Induction
import Mathlib.Data.List.Perm.Basic

/-! # Extents

The extent of a buffer is found by widening one step for each component.  What it comes to is said of
the components as they are, in whatever order: two of the numbers among them, between which all the
others lie.  That leaves nothing open but the sign of a zero, so as numbers the ends depend neither on
the order of the rows nor on that of the components of a vector, the extent of two lots of cells is that
of their extents, and NaN counts nowhere. -/

namespace LinkedTables

namespace Extent

variable {xs ys : List Double} {a b c x : Double} {extent other : Option (Double × Double)}
  {before : Double → Double → Prop}

/-! ## Ends -/

/-- One of the numbers of a list that stands before all of them.  NaN is no number. -/
structure End (before : Double → Double → Prop) (xs : List Double) (x : Double) : Prop where
  mem : x ∈ xs
  number : x.isNaN = false
  first : ∀ y ∈ xs, y.isNaN = false → before x y

/-- Whether there is no number in a list. -/
def Bare (xs : List Double) : Prop :=
  ∀ x ∈ xs, x.isNaN = true

theorem End.not_bare (first : End before xs x) : ¬ Bare xs := by
  intro bare
  have number := first.number
  rw [bare x first.mem] at number
  contradiction

theorem End.append_bare (first : End before xs x) (bare : Bare ys) : End before (xs ++ ys) x := by
  refine ⟨List.mem_append_left _ first.mem, first.number, fun y member number => ?_⟩
  rcases List.mem_append.mp member with left | right
  · exact first.first y left number
  · rw [bare y right] at number
    contradiction

theorem Bare.append_end (bare : Bare xs) (first : End before ys x) : End before (xs ++ ys) x := by
  refine ⟨List.mem_append_right _ first.mem, first.number, fun y member number => ?_⟩
  rcases List.mem_append.mp member with left | right
  · rw [bare y left] at number
    contradiction
  · exact first.first y right number

theorem End.append (trans : ∀ {a b c}, before a b → before b c → before a c)
    (left : End before xs a) (right : End before ys b)
    (pick : (c = a ∧ before a b) ∨ (c = b ∧ before b a)) : End before (xs ++ ys) c := by
  rcases pick with ⟨rfl, less⟩ | ⟨rfl, less⟩
  · refine ⟨List.mem_append_left _ left.mem, left.number, fun y member number => ?_⟩
    rcases List.mem_append.mp member with there | there
    · exact left.first y there number
    · exact trans less (right.first y there number)
  · refine ⟨List.mem_append_right _ right.mem, right.number, fun y member number => ?_⟩
    rcases List.mem_append.mp member with there | there
    · exact trans less (left.first y there number)
    · exact right.first y there number

/-! ## Extents -/

/-- No extent where there is no number, else the least and the greatest one. -/
inductive Tight (xs : List Double) : Option (Double × Double) → Prop where
  | bare (bare : Bare xs) : Tight xs none
  | ends {least greatest : Double} (lower : End (fun x y => x.AtMost y) xs least)
      (upper : End (fun x y => y.AtMost x) xs greatest) : Tight xs (some (least, greatest))

/-- Extents with the same ends, as numbers. -/
inductive Same : Option (Double × Double) → Option (Double × Double) → Prop where
  | bare : Same none none
  | ends {least least' greatest greatest' : Double} (least_same : least.sameNumber least' = true)
      (greatest_same : greatest.sameNumber greatest' = true) :
      Same (some (least, greatest)) (some (least', greatest'))

/-- The lesser of the least ends and the greater of the greatest ones. -/
def join : Option (Double × Double) → Option (Double × Double) → Option (Double × Double)
  | none, extent => extent
  | extent, none => extent
  | some (least, greatest), some (least', greatest') =>
    some (least.lesser least', greatest.greater greatest')

theorem Tight.eq_none_iff (tight : Tight xs extent) : extent = none ↔ Bare xs := by
  cases tight with
  | bare bare => exact ⟨fun _ => bare, fun _ => rfl⟩
  | ends lower _ => exact ⟨nofun, fun bare => absurd bare lower.not_bare⟩

theorem Tight.same (tight : Tight xs extent) (tight' : Tight ys other)
    (numbers : ∀ x, x.isNaN = false → (x ∈ xs ↔ x ∈ ys)) : Same extent other := by
  cases tight with
  | bare bare =>
    cases tight' with
    | bare => exact .bare
    | ends lower' _ =>
      have member := (numbers _ lower'.number).mpr lower'.mem
      exact absurd ((bare _ member).symm.trans lower'.number) (by decide)
  | ends lower upper =>
    cases tight' with
    | bare bare' =>
      have member := (numbers _ lower.number).mp lower.mem
      exact absurd ((bare' _ member).symm.trans lower.number) (by decide)
    | ends lower' upper' =>
      refine .ends ?_ ?_
      · refine Floating.sameNumber_iff.mpr ⟨lower.first _ ?_ lower'.number,
          lower'.first _ ?_ lower.number⟩
        · exact (numbers _ lower'.number).mpr lower'.mem
        · exact (numbers _ lower.number).mp lower.mem
      · refine Floating.sameNumber_iff.mpr ⟨upper'.first _ ?_ upper.number,
          upper.first _ ?_ upper'.number⟩
        · exact (numbers _ upper.number).mp upper.mem
        · exact (numbers _ upper'.number).mpr upper'.mem

theorem Tight.append (tight : Tight xs extent) (tight' : Tight ys other) :
    Tight (xs ++ ys) (join extent other) := by
  cases tight with
  | bare bare =>
    cases tight' with
    | bare bare' => exact .bare fun x member => (List.mem_append.mp member).elim (bare x) (bare' x)
    | ends lower' upper' => exact .ends (bare.append_end lower') (bare.append_end upper')
  | ends lower upper =>
    cases tight' with
    | bare bare' => exact .ends (lower.append_bare bare') (upper.append_bare bare')
    | ends lower' upper' =>
      refine .ends (lower.append (fun low high => low.trans high) lower' ?_)
        (upper.append (fun high low => low.trans high) upper' ?_)
      · exact Floating.lesser_cases lower.number lower'.number
      · exact Floating.greater_cases upper.number upper'.number

/-! ## Widening -/

theorem widen_eq (extent : Option (Double × Double)) (x : Double) :
    Buffer.widen extent x = join extent (Buffer.widen none x) := by
  cases x with
  | nan => cases extent <;> rfl
  | number s i => cases extent <;> rfl

theorem tight_single (x : Double) : Tight [x] (Buffer.widen none x) := by
  cases number : x.isNaN with
  | true =>
    rw [Buffer.widen, if_pos number]
    exact .bare (List.forall_mem_singleton.mpr number)
  | false =>
    rw [Buffer.widen, number]
    have itself : ∀ y ∈ [x], y.isNaN = false → x.AtMost y ∧ y.AtMost x :=
      List.forall_mem_singleton.mpr fun _ =>
        ⟨Floating.atMost_refl number, Floating.atMost_refl number⟩
    exact .ends ⟨List.mem_singleton_self x, number, fun y member there => (itself y member there).1⟩
      ⟨List.mem_singleton_self x, number, fun y member there => (itself y member there).2⟩

theorem tight_foldl (xs : List Double) : Tight xs (xs.foldl Buffer.widen none) := by
  -- The components are taken from the left, so the last one widens the extent of those before it.
  induction xs using List.reverseRecOn with
  | nil => exact .bare (List.forall_mem_nil _)
  | append_singleton xs last inductionHypothesis =>
    rw [List.foldl_append, List.foldl_cons, List.foldl_nil, widen_eq]
    exact inductionHypothesis.append (tight_single last)

end Extent

/-! ## Cells -/

/-- Whether there is a number in a cell: not in NaN, nor in a vector of nothing else. -/
def Kind.holdsNumber : (kind : Kind) → kind.Content → Bool
  | .floating _, x => !x.isNaN
  | .vector _ _, xs => xs.toList.any (!·.isNaN)
  | _, _ => true

theorem Kind.holdsNumber_iff (kind : Kind) (content : kind.Content) :
    kind.holdsNumber content = true ↔ ∃ x ∈ kind.components content, x.isNaN = false := by
  cases kind with
  | floating p => simp [holdsNumber, components]
  | vector dimension p =>
    rw [holdsNumber, List.any_eq_true]
    simp [components]
  | boolean | signed _ | unsigned _ =>
    simp [holdsNumber, components, Floating.ofNatural, Floating.ofInteger, Floating.ofQuotient,
      Floating.isNaN]

namespace Buffer

/-- Whether a buffer comes about from another one by a change of the order of the rows, and of the
    components in each row. -/
def Rearranged (buffer other : Buffer) : Prop :=
  ∃ rows : List buffer.kind.Content, buffer.cells.toList.Perm rows ∧
    List.Forall₂ (fun content content' =>
      (buffer.kind.components content).Perm (other.kind.components content'))
      rows other.cells.toList

theorem Rearranged.perm {buffer other : Buffer} (rearranged : buffer.Rearranged other) :
    buffer.components.Perm other.components := by
  obtain ⟨rows, perm, alike⟩ := rearranged
  refine (perm.flatMap_right _).trans ?_
  rw [components]
  generalize other.cells.toList = rows' at alike ⊢
  clear perm
  induction alike with
  | nil => exact .nil
  | cons same _ inductionHypothesis =>
    rw [List.flatMap_cons, List.flatMap_cons]
    exact same.append inductionHypothesis

theorem mem_components_iff {buffer : Buffer} {x : Double} :
    x ∈ buffer.components ↔ ∃ content ∈ buffer.cells, x ∈ buffer.kind.components content := by
  simp [components]

theorem tight_extent (buffer : Buffer) : Extent.Tight buffer.components buffer.extent :=
  Extent.tight_foldl buffer.components

theorem bare_components_iff {buffer : Buffer} : Extent.Bare buffer.components ↔
    ∀ content ∈ buffer.cells, buffer.kind.holdsNumber content = false := by
  constructor
  · intro bare content member
    refine Bool.eq_false_iff.mpr fun holds => ?_
    obtain ⟨x, inside, number⟩ := (buffer.kind.holdsNumber_iff content).mp holds
    rw [bare x (mem_components_iff.mpr ⟨content, member, inside⟩)] at number
    contradiction
  · intro none x member
    obtain ⟨content, there, inside⟩ := mem_components_iff.mp member
    by_contra number
    have holds := (buffer.kind.holdsNumber_iff content).mpr ⟨x, inside, by simpa using number⟩
    rw [none content there] at holds
    contradiction

/-- The extent of a buffer is that of the numbers in it: there is none where no cell holds a number,
    else its ends are two of the numbers and all of them lie between these, the infinities included.
    As numbers the ends depend neither on the order of the rows nor on that of the components in a row,
    the extent of more cells is the lesser and the greater of the ends of both lots, and it is the same
    without the cells that hold no number. -/
theorem extent_spans_numbers (buffer : Buffer) :
    (buffer.extent = none ↔
      ∀ content ∈ buffer.cells, buffer.kind.holdsNumber content = false) ∧
    (∀ least greatest, buffer.extent = some (least, greatest) →
      least ∈ buffer.components ∧ greatest ∈ buffer.components ∧
        least.isNaN = false ∧ greatest.isNaN = false ∧
        ∀ x ∈ buffer.components, x.isNaN = false → least.AtMost x ∧ x.AtMost greatest) ∧
    (∀ other, buffer.Rearranged other → Extent.Same buffer.extent other.extent) ∧
    (∀ cells : Array buffer.kind.Content,
      Extent.Same (extent ⟨buffer.kind, buffer.cells ++ cells⟩)
        (Extent.join buffer.extent (extent ⟨buffer.kind, cells⟩))) ∧
    Extent.Same (extent ⟨buffer.kind, buffer.cells.filter buffer.kind.holdsNumber⟩)
      buffer.extent := by
  -- Which numbers there are decides tight ends, and not their order.
  have tight := buffer.tight_extent
  refine ⟨tight.eq_none_iff.trans bare_components_iff, fun least greatest spanned => ?_,
    fun other rearranged => ?_, fun cells => ?_, ?_⟩
  · rw [spanned] at tight
    cases tight with
    | ends lower upper =>
      exact ⟨lower.mem, upper.mem, lower.number, upper.number, fun x member number =>
        ⟨lower.first x member number, upper.first x member number⟩⟩
  · exact tight.same other.tight_extent fun x _ => rearranged.perm.mem_iff
  · refine (tight_extent ⟨buffer.kind, buffer.cells ++ cells⟩).same
      (tight.append (tight_extent ⟨buffer.kind, cells⟩)) fun x _ => ?_
    simp [components]
  · refine (tight_extent _).same tight fun x number => ?_
    rw [mem_components_iff, mem_components_iff]
    constructor
    · rintro ⟨content, member, inside⟩
      exact ⟨content, (Array.mem_filter.mp member).1, inside⟩
    · rintro ⟨content, member, inside⟩
      have holds := (buffer.kind.holdsNumber_iff content).mpr ⟨x, inside, number⟩
      exact ⟨content, Array.mem_filter.mpr ⟨member, holds⟩, inside⟩

/-- Pairs of which one has NaN in front, and one nothing else. -/
def pairs : Buffer :=
  ⟨.vector .two .double, #[#v[.nan, .ofInteger 5], #v[.nan, .nan], #v[.ofInteger (-2), .infinite false]]⟩

def turned : Buffer :=
  ⟨.vector .two .double, #[#v[.infinite false, .ofInteger (-2)], #v[.nan, .nan], #v[.ofInteger 5, .nan]]⟩

/-- The pairs are turned round, and so is their order. -/
theorem extent_spans_numbers_turned :
    pairs.Rearranged turned ∧ pairs.extent = some (.ofInteger (-2), .infinite false) ∧
      Extent.Same pairs.extent turned.extent := by
  have rearranged : pairs.Rearranged turned :=
    ⟨pairs.cells.toList.reverse, (List.reverse_perm _).symm,
      .cons (List.reverse_perm _).symm (.cons (List.reverse_perm _).symm
        (.cons (List.reverse_perm _).symm .nil))⟩
  obtain ⟨_, _, same, _⟩ := extent_spans_numbers pairs
  exact ⟨rearranged, by decide +kernel, same turned rearranged⟩

end Buffer

end LinkedTables
