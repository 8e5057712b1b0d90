import LinkedTables.Summary
import Mathlib.Data.List.TakeWhile

/-! # Previews of categories

A preview is the join of the first categories, up to the one that takes it beyond the budget, and says
whether more follow and how many there are.  A separator is put where text has been written before, not
where a category has: so empty categories at the start are counted but not shown, while each one behind
a visible category keeps its separator. -/

namespace LinkedTables

namespace CategoryPreview

variable {budget count : Nat} {categories front rest : List String} {category : String}

/-- Whether the first categories of a number are more than there is room for. -/
def Exceeds (budget : Nat) (categories : List String) (count : Nat) : Prop :=
  0 < count ∧ budget < (", ".intercalate (categories.take count)).length

/-- How many categories are shown: the least number that exceeds the budget, or else all. -/
inductive Shows (budget : Nat) (categories : List String) : Nat → Prop where
  | cut {count : Nat} (exceeds : Exceeds budget categories count)
      (first : ∀ fewer < count, ¬ Exceeds budget categories fewer) :
      Shows budget categories count
  | all (never : ∀ count, ¬ Exceeds budget categories count) :
      Shows budget categories categories.length

/-- The first categories with separators between them, and what is said of the others. -/
def text (categories : List String) (count total : Nat) : String :=
  ", ".intercalate (categories.take count) ++ (if count < categories.length then ", ..." else "")
    ++ " [" ++ toString total ++ "]"

theorem Shows.unique {other : Nat} (shows : Shows budget categories count)
    (shows' : Shows budget categories other) : count = other := by
  cases shows with
  | cut exceeds first =>
    cases shows' with
    | cut exceeds' first' =>
      rcases Nat.lt_trichotomy count other with less | same | greater
      · exact absurd exceeds (first' count less)
      · exact same
      · exact absurd exceeds' (first other greater)
    | all never => exact absurd exceeds (never count)
  | all never =>
    cases shows' with
    | cut exceeds' _ => exact absurd exceeds' (never other)
    | all _ => rfl

/-- More than all categories are all of them, so only fewer need be within the budget. -/
theorem shows_all (within : ∀ count ≤ categories.length, ¬ Exceeds budget categories count) :
    Shows budget categories categories.length := by
  refine .all fun count exceeds => ?_
  rcases Nat.le_total count categories.length with fewer | more
  · exact within count fewer exceeds
  · have beyond := exceeds.2
    rw [List.take_of_length_le more] at beyond
    refine within categories.length (Nat.le_refl _) ⟨?_, by rwa [List.take_length]⟩
    by_contra none
    obtain rfl : categories = [] := List.length_eq_zero_iff.mp (Nat.eq_zero_of_not_pos none)
    exact Nat.not_lt_zero budget beyond

/-! ## The join so far -/

theorem intercalate_eq_empty_iff (visible : (front ++ rest).head? ≠ some "") :
    ", ".intercalate front = "" ↔ front = [] := by
  constructor
  · intro nothing
    match front with
    | [] => rfl
    | [first] =>
      refine absurd ?_ visible
      simpa using nothing
    | first :: second :: others =>
      have join := String.intercalate_append_of_ne_nil (s := ", ") (List.cons_ne_nil first [])
        (List.cons_ne_nil second others)
      rw [List.singleton_append, nothing] at join
      have length := congrArg String.length join
      have separator : ", ".length = 2 := rfl
      rw [String.length_append, String.length_append, separator, String.length_empty] at length
      omega
  · rintro rfl
    rfl

/-- Whether text has been written says whether a category has, unless the first one is empty. -/
theorem separated_append (visible : (front ++ category :: rest).head? ≠ some "") :
    (if (", ".intercalate front).toList = [] then [] else (", ".intercalate front).toList ++ [',', ' '])
        ++ category.toList =
      (", ".intercalate (front ++ [category])).toList := by
  have bare : (", ".intercalate front).toList = [] ↔ front = [] := by
    rw [← intercalate_eq_empty_iff visible, String.toList_eq_nil_iff]
  by_cases first : front = []
  · rw [if_pos (bare.mpr first), first]
    simp
  · rw [if_neg (mt bare.mp first),
      String.intercalate_append_of_ne_nil first (List.cons_ne_nil category [])]
    simp

/-! ## The loop -/

/-- Empty categories at the start write nothing and take no room. -/
theorem growPreview_dropWhile (budget : Nat) (categories : List String) :
    growPreview budget [] categories =
      growPreview budget [] (categories.dropWhile (· = "")) := by
  induction categories with
  | nil => rfl
  | cons category rest inductionHypothesis =>
    by_cases empty : category = ""
    · subst empty
      rw [List.dropWhile_cons_of_pos (by simp), ← inductionHypothesis]
      simp [growPreview]
    · rw [List.dropWhile_cons_of_neg (by simpa using empty)]

/-- While the categories in front are within the budget, the loop ends up with as many of all the
    categories as are shown. -/
theorem growPreview_shows (visible : (front ++ rest).head? ≠ some "")
    (within : ∀ count ≤ front.length, ¬ Exceeds budget (front ++ rest) count) :
    ∃ count, Shows budget (front ++ rest) count ∧
      String.ofList (growPreview budget (", ".intercalate front).toList rest) =
        ", ".intercalate ((front ++ rest).take count) ++
          (if count < (front ++ rest).length then ", ..." else "") := by
  induction rest generalizing front with
  | nil =>
    rw [List.append_nil] at within ⊢
    refine ⟨front.length, shows_all within, ?_⟩
    rw [growPreview, String.ofList_toList, List.take_length, if_neg (Nat.lt_irrefl _),
      String.append_empty]
  | cons category rest inductionHypothesis =>
    have next : front ++ category :: rest = (front ++ [category]) ++ rest := by simp
    rw [growPreview, separated_append visible]
    rw [next] at visible within ⊢
    have shown : ((front ++ [category]) ++ rest).take (front ++ [category]).length =
        front ++ [category] := List.take_left
    -- The loop ends at the first category that goes beyond the budget.
    by_cases beyond : budget < (", ".intercalate (front ++ [category])).toList.length
    case pos =>
      refine ⟨(front ++ [category]).length, .cut ⟨by simp, ?_⟩ fun fewer less => ?_, ?_⟩
      · rwa [shown, ← String.length_toList]
      · exact within fewer (by simpa [Nat.lt_succ_iff] using less)
      · rw [if_pos beyond, shown]
        cases rest with
        | nil => simp [-String.toList_intercalate]
        | cons following others =>
          rw [if_neg (by simp), if_pos (by simp), String.ofList_append, String.ofList_toList]
    case neg =>
      rw [if_neg beyond]
      refine inductionHypothesis visible fun count small exceeds => ?_
      rcases Nat.lt_or_eq_of_le small with fewer | last
      · exact within count (by simpa [Nat.lt_succ_iff] using fewer) exceeds
      · rw [last, Exceeds, shown, ← String.length_toList] at exceeds
        exact beyond exceeds.2

/-- Whether a text is the preview of categories, in a table of so many. -/
def Previews (budget : Nat) (categories : List String) (total : Nat) (preview : String) : Prop :=
  ∃ count, (∀ other, Shows budget categories other ↔ other = count) ∧
    preview = text categories count total

theorem Shows.previews {total : Nat} (shows : Shows budget categories count) :
    Previews budget categories total (text categories count total) := by
  refine ⟨count, fun other => ⟨fun shows' => shows'.unique shows, ?_⟩, rfl⟩
  rintro rfl
  exact shows

theorem previews_of_visible (total : Nat) (visible : categories.head? ≠ some "") :
    Previews budget categories total
      (String.ofList (growPreview budget [] categories) ++ " [" ++ toString total ++ "]") := by
  obtain ⟨count, shows, shown⟩ := @growPreview_shows budget [] categories visible
    fun _ none exceeds => absurd exceeds.1 (Nat.not_lt.mpr none)
  have start : (", ".intercalate []).toList = [] := rfl
  rw [start] at shown
  rw [shown]
  exact shows.previews

theorem head?_dropWhile_ne (categories : List String) :
    (categories.dropWhile (· = "")).head? ≠ some "" := by
  intro empty
  have visible := List.head?_dropWhile_not (· = "") categories
  simp [empty] at visible

theorem shows_empty (budget : Nat) : Shows budget [""] 1 := by
  refine @shows_all budget [""] fun count single exceeds => ?_
  match count, single with
  | 0, _ => exact absurd exceeds.1 (by decide)
  | 1, _ => exact Nat.not_lt_zero budget exceeds.2

end CategoryPreview

open CategoryPreview

/-- A preview is that of the categories behind the empty ones at the start, the first of them joined
    up to the one that goes beyond the budget, with a mark where categories are left out and the
    number of all categories.  So it is that of all categories, unless the first of several is empty. -/
theorem categoryPreview_previews (categories : List String) (budget : Nat) :
    Previews budget (categories.dropWhile (· = "")) categories.length
      (categoryPreview categories budget) ∧
    (categories.head? ≠ some "" ∨ categories = [""] →
      Previews budget categories categories.length (categoryPreview categories budget)) := by
  constructor
  · rw [categoryPreview, growPreview_dropWhile]
    exact previews_of_visible _ (head?_dropWhile_ne categories)
  · rintro (visible | rfl)
    · exact previews_of_visible _ visible
    · exact (shows_empty budget).previews

/-- The second of two categories goes beyond the budget, and the third is left out. -/
theorem categoryPreview_previews_cut :
    ["é", "", "plum"].head? ≠ some "" ∧ Shows 2 ["é", "", "plum"] 2 ∧
      categoryPreview ["é", "", "plum"] 2 = "é, , ... [3]" := by
  have visible : ["é", "", "plum"].head? ≠ some "" := by decide
  have cut : Shows 2 ["é", "", "plum"] 2 := by
    refine .cut ⟨by decide, by decide⟩ fun fewer less exceeds => ?_
    match fewer, less with
    | 0, _ => exact absurd exceeds.1 (by decide)
    | 1, _ => exact absurd exceeds.2 (by decide)
  obtain ⟨_, unique, preview⟩ := (categoryPreview_previews ["é", "", "plum"] 2).2 (.inl visible)
  rw [← (unique 2).mp cut] at preview
  exact ⟨visible, cut, preview.trans (by decide)⟩

/-- A column of one blank row and one more text has an empty category that is not shown, nor is the
    separator behind it. -/
theorem categoryPreview_lacks_separator :
    ((CategoricalColumn.blank "label" 1).add "a").2.categories.toList = ["", "a"] ∧
      ¬ Previews 50 ["", "a"] 2 (categoryPreview ["", "a"] 50) := by
  refine ⟨by decide +kernel, ?_⟩
  rintro ⟨count, unique, preview⟩
  have both : Shows 50 ["", "a"] 2 := by
    refine @shows_all 50 ["", "a"] fun count several exceeds => ?_
    match count, several with
    | 0, _ => exact absurd exceeds.1 (by decide)
    | 1, _ => exact absurd exceeds.2 (by decide)
    | 2, _ => exact absurd exceeds.2 (by decide)
  rw [← (unique 2).mp both] at preview
  exact absurd preview (by decide)

end LinkedTables
