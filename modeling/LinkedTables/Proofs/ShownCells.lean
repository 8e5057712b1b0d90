import LinkedTables.Csv.Writer
import LinkedTables.Proofs.ColumnContents
import LinkedTables.Proofs.KindChoice

/-! # Guessing from what is written

A column is written from what it read of its texts, so a second guess sees other texts than the
first.  Categories and whole numbers are guessed again.  A real column is guessed again exactly if
among the cells that are looked at one is finite and one does not look like a whole number. -/

namespace LinkedTables

/-- The text that is written for a text that was read under a kind. -/
def rewritten (kind? : Option Kind) (text : String) : String :=
  match kind? with
  | none => text
  | some kind =>
    match kind.read text with
    | some content => if kind.isMissing content then "" else kind.display content
    | none => ""

theorem Column.Holds.value_plain_eq {header : String} {kind : Kind} {texts : List String}
    {column : Column} {row : Nat} {text : String} (holds : column.Holds header (some kind) texts)
    (there : texts[row]? = some text) :
    ∃ content, kind.read text = some content ∧
      column.value true row = .ok (.cell kind content) := by
  obtain ⟨value, read, shown⟩ := holds.value_eq there nofun
  cases holds with
  | plain contents =>
    simp only [Column.read, PlainColumn.read, Buffer.read] at read
    cases reads : kind.read text with
    | none => simp [reads] at read
    | some content =>
      simp only [reads, Option.map_some, Except.ok.injEq] at read
      subst read
      exact ⟨content, rfl, shown⟩

theorem Column.Holds.cellText_eq {header : String} {kind? : Option Kind} {texts : List String}
    {column : Column} {row : Nat} {text : String} (holds : column.Holds header kind? texts)
    (there : texts[row]? = some text)
    (coded : kind? = none → texts.eraseDups.length ≤ Width.count .w32) :
    Csv.cellText row column = rewritten kind? text := by
  cases kind? with
  | none =>
    obtain ⟨value, read, shown⟩ := holds.value_eq there coded
    cases holds with
    | categorical =>
      cases read
      simp [Csv.cellText, shown, rewritten, Value.isMissing, Value.display]
  | some kind =>
    obtain ⟨content, reads, shown⟩ := holds.value_plain_eq there
    simp only [Csv.cellText, shown, rewritten, reads]
    rfl

/-! ## Kinds that are guessed -/

/-- A kind of whole or of real numbers. -/
inductive Kind.Scalar : Kind → Prop where
  | signed (width : Width) : Scalar (.signed width)
  | floating (p : Precision) : Scalar (.floating p)

theorem scalar_of_guessed {texts : List String} {doublePrecision : Bool} {kind : Kind}
    (guessed : inferKind texts doublePrecision = some kind) : kind.Scalar := by
  have guess := guess_inferKind texts doublePrecision
  rw [guessed] at guess
  generalize answer : some kind = kind? at guess
  cases guess with
  | whole =>
    cases answer
    exact .signed _
  | real =>
    cases answer
    exact .floating _
  | blank | words => contradiction

/-- Which whole number a text is read as does not depend on the width. -/
theorem read_signed_of_read {width other : Width} {text : String} {i : Signed width}
    (read : (Kind.signed width).read text = some i) :
    (Kind.signed other).read text =
      if h : -other.half ≤ i.val ∧ i.val < other.half then some ⟨i.val, h⟩ else none := by
  simp only [Kind.read, readBounded] at read ⊢
  cases integer : readInteger (trimBlanks text.toList) with
  | none => simp [integer] at read
  | some j =>
    simp only [integer] at read ⊢
    split at read
    next =>
      cases read
      rfl
    next => contradiction

theorem read_rewritten_signed {width : Width} (other : Width) {text : String}
    (reads : (Kind.signed width).reads text) :
    (Kind.signed other).read (rewritten (some (.signed width)) text) =
      (Kind.signed other).read text := by
  obtain ⟨i, read⟩ := Option.isSome_iff_exists.mp reads
  simp only [rewritten, read, Kind.isMissing, Bool.false_eq_true, if_false]
  rw [Kind.read_display_signed, read_signed_of_read read]

theorem read_rewritten {kind : Kind} (scalar : kind.Scalar) {text : String}
    (reads : kind.reads text) : kind.read (rewritten (some kind) text) = kind.read text := by
  cases scalar with
  | signed width => exact read_rewritten_signed width reads
  | floating p =>
    obtain ⟨content, read⟩ := Option.isSome_iff_exists.mp reads
    simp only [rewritten, read]
    cases content with
    | nan => rfl
    | number negative code => exact Kind.read_display_floating (.number negative code)

theorem Column.Holds.rewritten {header : String} {kind? : Option Kind} {texts : List String}
    {column : Column} (holds : column.Holds header kind? texts)
    (scalar : ∀ kind, kind? = some kind → kind.Scalar) :
    column.Holds header kind? (texts.map (rewritten kind?)) := by
  cases holds with
  | @plain kind _ contents read =>
    refine .plain contents ?_
    rw [← read, List.map_map]
    refine List.map_congr_left fun text member => read_rewritten (scalar kind rfl) ?_
    obtain ⟨content, _, reads⟩ := List.mem_map.mp (read ▸ List.mem_map_of_mem member)
    simp [Kind.reads, ← reads]
  | categorical =>
    have same : texts.map (LinkedTables.rewritten none) = texts := List.map_id texts
    rw [same]
    exact .categorical texts

/-! ## The second guess -/

variable {texts : List String} {doublePrecision : Bool}

theorem inferKind_rewritten_signed {width : Width}
    (guessed : inferKind texts doublePrecision = some (.signed width)) :
    inferKind (texts.map (rewritten (some (.signed width)))) doublePrecision =
      some (.signed width) := by
  obtain ⟨width_eq, nonempty, reads, narrowest⟩ := inferKind_eq_signed_iff.mp guessed
  refine inferKind_eq_signed_iff.mpr ⟨width_eq, by simpa using nonempty, ?_, fun wide => ?_⟩
  · refine List.forall_mem_map.mpr fun text member => ?_
    rw [Kind.reads, read_rewritten_signed width (reads text member)]
    exact reads text member
  · obtain ⟨text, member, large⟩ := narrowest wide
    refine ⟨_, List.mem_map_of_mem member, ?_⟩
    rwa [Kind.reads, read_rewritten_signed .w32 (reads text member)]

/-- Among real numbers one is finite, and one does not look like a whole number. -/
structure LooksReal {p : Precision} (cells : List (Floating p)) : Prop where
  finite : ∃ x ∈ cells, x.isFinite = true
  unlike : ∃ x ∈ cells, x.isNaN = true ∨ ¬ (Kind.signed .w64).reads x.display

/-- What is shown of a number reads as finite just if the number is. -/
@[simp] theorem readsFinite_display {p : Precision} (x : Floating p) :
    readsFinite x.display = x.isFinite := by
  rw [readsFinite, Kind.read_floating_display]
  cases x with
  | nan => rfl
  | number negative code =>
    by_cases infinite : code.val = p.infinity
    case pos =>
      obtain rfl : code = ⟨p.infinity, Nat.lt_succ_self _⟩ := Fin.ext infinite
      rw [Floating.displayChars, if_pos infinite]
      cases negative <;> cases p <;> rfl
    case neg =>
      -- The digits shown are the shortest of the number, which are finite in its own format.
      have finite : p.codeOf (p.shortest .upward code.val) < p.infinity := by
        rw [Precision.codeOf_shortest .upward (by omega)]
        omega
      have finite' : Precision.double.codeOf (p.shortest .upward code.val) < Precision.double.infinity := by
        cases p with
        | single => exact Precision.codeOf_double_lt finite
        | double => exact finite
      have shown : code.val < p.infinity := by omega
      simp [Floating.readReal_shortest .double negative infinite, Floating.ofDecimal,
        Floating.isFinite, finite', shown]

/-- The text that is written for a real number. -/
def writtenReal {p : Precision} (x : Floating p) : String :=
  if x.isNaN then "" else x.display

theorem rewritten_floating {p : Precision} {cells : List (Floating p)}
    (read : texts.map (Kind.floating p).read = cells.map some) :
    texts.map (rewritten (some (.floating p))) = cells.map writtenReal := by
  have each : rewritten (some (.floating p)) =
      (fun content? : Option (Floating p) => content?.elim "" writtenReal) ∘
        (Kind.floating p).read := by
    funext text
    simp only [rewritten, Function.comp_apply]
    cases (Kind.floating p).read text <;> rfl
  rw [each, ← List.map_map, read, List.map_map]
  rfl

theorem readsFinite_writtenReal {p : Precision} (x : Floating p) :
    readsFinite (writtenReal x) = x.isFinite := by
  cases x with
  | nan => rfl
  | number negative code => exact readsFinite_display (.number negative code)

theorem reads_writtenReal_iff {p : Precision} (x : Floating p) :
    ¬ (Kind.signed .w64).reads (writtenReal x) ↔
      x.isNaN = true ∨ ¬ (Kind.signed .w64).reads x.display := by
  cases x with
  | nan =>
    have blank : ¬ (Kind.signed .w64).reads "" := not_reads_signed_of_blank rfl
    simp [writtenReal, Floating.isNaN, blank]
  | number negative code => simp [writtenReal, Floating.isNaN]

/-- A real column is guessed again just if it looks real. -/
theorem inferKind_rewritten_real {p : Precision}
    (precision : realKind doublePrecision = .floating p) {cells : List (Floating p)}
    (read : texts.map (Kind.floating p).read = cells.map some) :
    inferKind (texts.map (rewritten (some (.floating p)))) doublePrecision = some (.floating p) ↔
      LooksReal cells := by
  -- Every real cell is written as something that reads as real, so only the other two
  -- conditions of a real guess are in question.
  have real : ∀ text ∈ cells.map writtenReal, (Kind.floating .double).reads text := by
    refine List.forall_mem_map.mpr fun x _ => ?_
    apply reads_floating .double p
    cases x with
    | nan => rfl
    | number negative code =>
      rw [Kind.reads]
      show ((Kind.floating p).read (Floating.number negative code).display).isSome = true
      rw [Kind.read_display_floating]
      rfl
  rw [rewritten_floating read, ← precision, inferKind_eq_real_iff]
  constructor
  · rintro ⟨_, ⟨text, member, finite⟩, ⟨text', member', unlike⟩⟩
    obtain ⟨x, inside, rfl⟩ := List.mem_map.mp member
    obtain ⟨x', inside', rfl⟩ := List.mem_map.mp member'
    exact ⟨⟨x, inside, by rwa [readsFinite_writtenReal] at finite⟩,
      ⟨x', inside', (reads_writtenReal_iff x').mp unlike⟩⟩
  · rintro ⟨⟨x, inside, finite⟩, ⟨x', inside', unlike⟩⟩
    exact ⟨real, ⟨_, List.mem_map_of_mem inside, by rwa [readsFinite_writtenReal]⟩,
      ⟨_, List.mem_map_of_mem inside', (reads_writtenReal_iff x').mpr unlike⟩⟩

theorem realKind_of_guessed {p : Precision}
    (guessed : inferKind texts doublePrecision = some (.floating p)) :
    realKind doublePrecision = .floating p := by
  have guess := guess_inferKind texts doublePrecision
  rw [guessed] at guess
  generalize answer : some (Kind.floating p) = kind? at guess
  cases guess with
  | real =>
    cases answer
    rfl
  | whole => cases answer
  | blank | words => contradiction

theorem exists_cells {kind : Kind} (reads : ∀ text ∈ texts, kind.reads text) :
    ∃ cells : List kind.Content, texts.map kind.read = cells.map some := by
  induction texts with
  | nil => exact ⟨[], rfl⟩
  | cons text texts inductionHypothesis =>
    obtain ⟨content, read⟩ := Option.isSome_iff_exists.mp (reads text (by simp))
    obtain ⟨cells, rest⟩ := inductionHypothesis fun text' member =>
      reads text' (List.mem_cons_of_mem _ member)
    exact ⟨content :: cells, by rw [List.map_cons, List.map_cons, read, rest]⟩

/-- The second guess is the first one, but for real columns that do not look real. -/
theorem inferKind_rewritten_iff {kind? : Option Kind}
    (guessed : inferKind texts doublePrecision = kind?) :
    inferKind (texts.map (rewritten kind?)) doublePrecision = kind? ↔
      ∀ (p : Precision) (cells : List (Floating p)), kind? = some (.floating p) →
        texts.map (Kind.floating p).read = cells.map some → LooksReal cells := by
  cases kind? with
  | none =>
    have same : texts.map (rewritten none) = texts := List.map_id texts
    rw [same]
    exact ⟨fun _ _ _ real => (nomatch real), fun _ => guessed⟩
  | some kind =>
    cases scalar_of_guessed guessed with
    | signed width =>
      exact ⟨fun _ _ _ real => (nomatch real), fun _ => inferKind_rewritten_signed guessed⟩
    | floating p =>
      have precision := realKind_of_guessed guessed
      obtain ⟨cells, read⟩ := exists_cells fun text member => inferKind_reads guessed member
      rw [inferKind_rewritten_real precision read]
      constructor
      · intro looks q cells' real read'
        cases real
        have same : cells = cells' :=
          List.map_injective_iff.mpr (fun _ _ => Option.some.inj) (read.symm.trans read')
        rwa [← same]
      · exact fun looks => looks p cells rfl read

end LinkedTables
