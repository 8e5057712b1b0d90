import LinkedTables.Proofs.KindChoice

/-! # Guesses from more texts

A guess is made from the set of trimmed texts: their order, their number and the blanks around them
make no difference.  More texts never lead back to a narrower kind, for whatever ruled a kind out
still does: a text that the kind does not read, be it a fraction, a number too large or a blank. -/

namespace LinkedTables

variable {xs ys : List String} {doublePrecision : Bool} {kind kind' : Kind}

/-! ## The same texts -/

theorem mem_presentTexts_iff {cell : String} :
    cell ∈ presentTexts xs ↔ cell ∈ xs.map trimmed ∧ cell ≠ "" := by
  simp [presentTexts]

theorem inferKind_congr (same : ∀ cell, cell ∈ xs.map trimmed ↔ cell ∈ ys.map trimmed) :
    inferKind xs doublePrecision = inferKind ys doublePrecision := by
  have present : ∀ cell, cell ∈ presentTexts xs ↔ cell ∈ presentTexts ys := fun cell => by
    rw [mem_presentTexts_iff, mem_presentTexts_iff, same]
  have empty : (presentTexts xs).isEmpty = (presentTexts ys).isEmpty := by
    rw [Bool.eq_iff_iff, List.isEmpty_iff, List.isEmpty_iff, List.eq_nil_iff_forall_not_mem,
      List.eq_nil_iff_forall_not_mem]
    simp only [present]
  have fits_eq : ∀ kind, fits kind (presentTexts xs) = fits kind (presentTexts ys) := by
    intro kind
    rw [Bool.eq_iff_iff, fits, fits, List.all_eq_true, List.all_eq_true]
    simp only [present]
  have finite : (presentTexts xs).any readsFinite = (presentTexts ys).any readsFinite := by
    rw [Bool.eq_iff_iff, List.any_eq_true, List.any_eq_true]
    simp only [present]
  -- How many texts there are matters only for whether one of them is blank.
  have gap : (presentTexts xs).length < xs.length ↔ (presentTexts ys).length < ys.length := by
    have blank := same ""
    simp only [List.mem_map] at blank
    rw [length_presentTexts_lt_iff, length_presentTexts_lt_iff, blank]
  simp only [presentTexts] at empty fits_eq finite gap
  simp only [inferKind, empty, fits_eq, finite, gap]

/-! ## More texts -/

/-- The kinds that are guessed, in the order in which they are tried. -/
def guessOrder (doublePrecision : Bool) : List Kind :=
  [.signed .w32, .signed .w64, realKind doublePrecision]

theorem mem_guessOrder (guessed : inferKind xs doublePrecision = some kind) :
    kind ∈ guessOrder doublePrecision := by
  have guess := guess_inferKind xs doublePrecision
  rw [guessed] at guess
  generalize answer : some kind = kind? at guess
  cases guess with
  | whole width_eq =>
    cases answer
    rcases width_eq with rfl | rfl <;> simp [guessOrder]
  | real =>
    cases answer
    simp [guessOrder]
  | blank | words => contradiction

theorem takeWhile_guessOrder_real :
    (guessOrder doublePrecision).takeWhile (· ≠ realKind doublePrecision) =
      [.signed .w32, .signed .w64] := by
  cases doublePrecision <;> decide

/-- A kind that is tried before the one that is guessed does not read all texts. -/
theorem exists_unread (guessed : inferKind xs doublePrecision = some kind) {narrower : Kind}
    (before : narrower ∈ (guessOrder doublePrecision).takeWhile (· ≠ kind)) :
    ∃ text ∈ xs, ¬ narrower.reads text := by
  have guess := guess_inferKind xs doublePrecision
  rw [guessed] at guess
  generalize answer : some kind = kind? at guess
  cases guess with
  | whole width_eq _ _ narrowest =>
    cases answer
    rcases width_eq with rfl | rfl
    · simp [guessOrder] at before
    · obtain rfl : narrower = .signed .w32 := by simpa [guessOrder] using before
      exact narrowest rfl
  | real _ _ other =>
    cases answer
    obtain ⟨text, member, unlike⟩ := other
    refine ⟨text, member, fun reads => unlike ?_⟩
    rw [takeWhile_guessOrder_real, List.mem_pair] at before
    rcases before with rfl | rfl
    · exact reads_w64 (.inl rfl) reads
    · exact reads
  | blank | words => contradiction

/-- What a kind does not read stays among more texts. -/
theorem unread_of_subset (among : xs.map trimmed ⊆ ys.map trimmed)
    (unread : ∃ text ∈ xs, ¬ kind.reads text) : ∃ text ∈ ys, ¬ kind.reads text := by
  obtain ⟨text, member, unlike⟩ := unread
  obtain ⟨other, inside, same⟩ := List.mem_map.mp (among (List.mem_map_of_mem member))
  refine ⟨other, inside, ?_⟩
  rwa [← reads_trimmed, same, reads_trimmed]

/-- The guess is the same for the same set of trimmed texts, and for more of them no kind is guessed,
    or one that is tried no earlier. -/
theorem inferKind_widens (doublePrecision : Bool) (xs ys : List String) :
    ((∀ cell, cell ∈ xs.map trimmed ↔ cell ∈ ys.map trimmed) →
      inferKind xs doublePrecision = inferKind ys doublePrecision) ∧
    ∀ kind, inferKind xs doublePrecision = some kind → xs.map trimmed ⊆ ys.map trimmed →
      inferKind ys doublePrecision = none ∨
        ∃ kind' ∈ (guessOrder doublePrecision).dropWhile (· ≠ kind),
          inferKind ys doublePrecision = some kind' := by
  refine ⟨inferKind_congr, fun kind guessed among => ?_⟩
  cases guessed' : inferKind ys doublePrecision with
  | none => exact .inl rfl
  | some kind' =>
    refine .inr ⟨kind', ?_, rfl⟩
    have tried := mem_guessOrder guessed'
    rw [← List.takeWhile_append_dropWhile (p := (· ≠ kind)) (l := guessOrder doublePrecision),
      List.mem_append] at tried
    refine tried.resolve_left fun earlier => ?_
    obtain ⟨text, member, unread⟩ := unread_of_subset among (exists_unread guessed earlier)
    exact unread (inferKind_reads guessed' member)

example : [["7"], ["7", "5000000000"], ["", "7"], ["7", "nan", ""], ["nan", "", "inf"]].map
    (inferKind · false) =
      [some (.signed .w32), some (.signed .w64), some (.floating .single),
        some (.floating .single), none] := by
  decide +kernel

end LinkedTables
