import LinkedTables.Proofs.PlainIntegers
import LinkedTables.Toml.Reader

/-! # TOML line by line

A document that is written in the plainest way has a header for each table and a line for each entry,
with keys that need no quotes.  Each line is read by itself, and closing the last table leaves the
tables in the order of their headers. -/

namespace LinkedTables

namespace Toml

variable {key digits text rest : List Char} {c : Char} {item : Item} {entries : Entries}
  {budget room : Nat}

/-! ## Keys -/

/-- A key that needs no quotes. -/
def BareKey (key : List Char) : Prop :=
  key ≠ [] ∧ ∀ c ∈ key, isBareChar c = true

instance (key : List Char) : Decidable (BareKey key) :=
  have : Decidable (∀ c ∈ key, isBareChar c = true) := List.decidableBAll _ key
  inferInstanceAs (Decidable (_ ∧ _))

theorem skipSpace_cons (visible : isSpace c = false) : skipSpace (c :: rest) = c :: rest := by
  simp [skipSpace, visible]

theorem readSimpleKey_bare (bare : BareKey key) (stop : ∀ c ∈ rest.head?, isBareChar c = false) :
    readSimpleKey (key ++ rest) = some (key, rest) := by
  obtain ⟨nonempty, all⟩ := bare
  have taken : (key ++ rest).takeWhile isBareChar = key := by
    rw [List.takeWhile_append_of_pos all]
    cases rest with
    | nil => simp
    | cons c rest => simp [stop c rfl]
  have dropped : (key ++ rest).dropWhile isBareChar = rest := by
    rw [List.dropWhile_append_of_pos all]
    cases rest with
    | nil => rfl
    | cons c rest => simp [stop c rfl]
  obtain ⟨c, others, rfl⟩ := List.exists_cons_of_ne_nil nonempty
  have first : isBareChar c = true := all c (by simp)
  rw [readSimpleKey]
  · rw [taken, dropped, if_neg nonempty]
  · rintro _ equal
    rw [(List.cons.inj equal).1] at first
    exact absurd first (by decide)
  · rintro _ equal
    rw [(List.cons.inj equal).1] at first
    exact absurd first (by decide)

theorem isSpace_of_isBareChar (bare : isBareChar c = true) : isSpace c = false := by
  have blank : c ≠ ' ' := by rintro rfl; exact absurd bare (by decide)
  have tab : c ≠ '\t' := by rintro rfl; exact absurd bare (by decide)
  simp [isSpace, blank, tab]

/-- A key without quotes is read up to what follows it. -/
theorem readKey_bare (bare : BareKey key) (stop : ∀ c ∈ rest.head?, isBareChar c = false)
    (single : (skipSpace rest).head? ≠ some '.') :
    readKey (key ++ rest) = some ([key], skipSpace rest) := by
  have read := readSimpleKey_bare bare stop
  obtain ⟨first, others, rfl⟩ := List.exists_cons_of_ne_nil bare.1
  have visible := isSpace_of_isBareChar (bare.2 first (by simp))
  have skipped : skipSpace (first :: others ++ rest) = first :: others ++ rest :=
    skipSpace_cons visible
  rw [readKey, depthLimit, readKeyParts, skipped, read]
  simp only
  split
  next behind => rw [behind] at single; exact absurd rfl single
  next => rfl

/-! ## Values -/

/-- A text that is read as an item where a line ends behind it. -/
def ReadsAs (text : List Char) (item : Item) : Prop :=
  ∀ budget room rest, skipSpace (text ++ '\n' :: rest) = text ++ '\n' :: rest ∧
    readItem (budget + 1) room (text ++ '\n' :: rest) = some (item, '\n' :: rest)

theorem readsAs_truth (value : Bool) :
    ReadsAs (if value then "true" else "false").toList (.truth value) := by
  intro budget room rest
  cases value with
  | true => exact ⟨rfl, by simp [readItem]⟩
  | false => exact ⟨rfl, by simp [readItem]⟩

theorem readFixed_digits (all : ∀ c ∈ digits, c.isDigit = true) {count n : Nat} {behind : List Char}
    (read : readFixed count (digits ++ '\n' :: rest) = some (n, behind)) :
    ∃ c others, behind = c :: others ∧ (c.isDigit = true ∨ c = '\n') := by
  rw [readFixed] at read
  split at read
  case isFalse => contradiction
  case isTrue fixed =>
  obtain ⟨length, decimal⟩ := fixed
  cases read
  -- The line break is no digit, so it is not among those taken.
  have few : count ≤ digits.length := by
    by_contra more
    have member : '\n' ∈ (digits ++ '\n' :: rest).take count := by
      rw [List.take_append, List.mem_append]
      obtain ⟨k, ahead⟩ : ∃ k, count - digits.length = k + 1 := ⟨count - digits.length - 1, by omega⟩
      exact .inr (by rw [ahead]; simp)
    exact absurd (List.all_eq_true.mp decimal '\n' member) (by decide)
  rw [List.drop_append_of_le_length few]
  cases left : digits.drop count with
  | nil => exact ⟨'\n', rest, rfl, .inr rfl⟩
  | cons c others =>
    exact ⟨c, others ++ '\n' :: rest, rfl, .inl (all c (List.mem_of_mem_drop (by rw [left]; simp)))⟩

theorem readExactly_digits (mark : Char) (other : mark.isDigit = false ∧ mark ≠ '\n')
    {behind : List Char} (next : ∃ c others, behind = c :: others ∧ (c.isDigit = true ∨ c = '\n')) :
    readExactly mark behind = none := by
  obtain ⟨c, others, rfl, digit | rfl⟩ := next
  · refine if_neg ?_
    rintro rfl
    rw [digit] at other
    exact absurd other.1 (by decide)
  · exact if_neg (Ne.symm other.2)

/-- A run of digits is no time. -/
theorem readMoment_digits (all : ∀ c ∈ digits, c.isDigit = true) :
    readMoment (digits ++ '\n' :: rest) = none := by
  have date : readDate (digits ++ '\n' :: rest) = none := by
    rw [readDate]
    cases read : readFixed 4 (digits ++ '\n' :: rest) with
    | none => rfl
    | some year =>
      have stopped := readExactly_digits '-' (by decide) (readFixed_digits all read)
      simp only [Option.bind_eq_bind, Option.bind_some, stopped, Option.bind_none]
  have time : readTime (digits ++ '\n' :: rest) = none := by
    rw [readTime, readWithin]
    cases read : readFixed 2 (digits ++ '\n' :: rest) with
    | none => rfl
    | some hour =>
      have stopped := readExactly_digits ':' (by decide) (readFixed_digits all read)
      simp only
      split
      next => simp only [Option.bind_eq_bind, Option.bind_some, stopped, Option.bind_none]
      next => rfl
  rw [readMoment, date, time]

theorem readMoreDigits_digits (all : ∀ c ∈ digits, c.isDigit = true) :
    readMoreDigits Char.isDigit (digits ++ '\n' :: rest) = some (digits, '\n' :: rest) := by
  induction digits with
  | nil => rfl
  | cons c digits inductionHypothesis =>
    obtain ⟨digit, others⟩ := List.forall_mem_cons.mp all
    rw [List.cons_append, readMoreDigits]
    · rw [if_pos digit, inductionHypothesis others]
      rfl
    · rintro _ _ rfl
      exact absurd digit (by decide)

theorem readDecimalRun_digits (plain : PlainDigits digits) (rest : List Char) :
    readDecimalRun (digits ++ '\n' :: rest) = some (digits, '\n' :: rest) := by
  obtain ⟨first, others, rfl⟩ := List.exists_cons_of_ne_nil plain.nonempty
  obtain ⟨digit, all⟩ := List.forall_mem_cons.mp plain.decimal
  by_cases zero : first = '0'
  case pos =>
    subst zero
    obtain rfl : others = [] := (List.cons.inj (plain.leading rfl)).2
    rfl
  case neg =>
    rw [List.cons_append, readDecimalRun]
    · rw [readDigitRun, if_pos digit, readMoreDigits_digits all]
      rfl
    · rintro _ equal
      exact zero (List.cons.inj equal).1

theorem readSign_digits (plain : PlainDigits digits) (rest : List Char) :
    readSign (digits ++ rest) = ([], digits ++ rest) := by
  obtain ⟨first, others, rfl⟩ := List.exists_cons_of_ne_nil plain.nonempty
  have digit := plain.decimal first (by simp)
  rw [readSign]
  all_goals
    rintro _ equal
    rw [(List.cons.inj equal).1] at digit
    exact absurd digit (by decide)

/-- A run of digits alone is no real number. -/
theorem readRealDigits_digits (plain : PlainDigits digits) :
    readRealDigits (digits ++ '\n' :: rest) = none := by
  simp [readRealDigits, readSign_digits plain, readDecimalRun_digits plain, readFractionRun,
    readExponentRun]

theorem readSpecialReal_digits (plain : PlainDigits digits) :
    readSpecialReal (digits ++ rest) = none := by
  rw [readSpecialReal, readSign_digits plain]
  obtain ⟨first, others, rfl⟩ := List.exists_cons_of_ne_nil plain.nonempty
  have digit := plain.decimal first (by simp)
  split
  case h_3 => rfl
  all_goals
    next equal =>
      rw [(List.cons.inj equal).1] at digit
      exact absurd digit (by decide)

theorem hexDigit?_of_isDigit (digit : c.isDigit = true) : hexDigit? c = some (c.toNat - '0'.toNat) := by
  obtain ⟨least, most⟩ := toNat_of_isDigit digit
  exact if_pos ⟨least, most⟩

theorem numberOf_digits (all : ∀ c ∈ digits, c.isDigit = true) :
    numberOf 10 digits = Nat.ofDigitChars 10 digits 0 := by
  rw [numberOf, Nat.ofDigitChars]
  refine List.foldl_ext _ _ _ fun number c member => ?_
  rw [hexDigit?_of_isDigit (all c member), Option.getD_some]

theorem readIntegerNumber_digits (plain : PlainDigits digits)
    (fits : Nat.ofDigitChars 10 digits 0 < 0x8000000000000000) :
    readIntegerNumber (digits ++ '\n' :: rest) =
      some ((Nat.ofDigitChars 10 digits 0 : Int), '\n' :: rest) := by
  have fitting : fitsInteger (Nat.ofDigitChars 10 digits 0 : Nat) = true := by
    rw [fitsInteger, decide_eq_true_eq]
    omega
  have run := readDecimalRun_digits plain rest
  have sign := readSign_digits plain ('\n' :: rest)
  have number := numberOf_digits plain.decimal
  -- Behind a zero in front there is no letter that names another base.
  have noBase : ∀ letter others, letter ≠ '\n' → digits ++ '\n' :: rest ≠ '0' :: letter :: others := by
    intro letter others notBreak equal
    obtain ⟨first, more, rfl⟩ := List.exists_cons_of_ne_nil plain.nonempty
    obtain ⟨rfl, tail⟩ := List.cons.inj equal
    obtain rfl : more = [] := (List.cons.inj (plain.leading rfl)).2
    exact notBreak (List.cons.inj tail).1.symm
  rw [readIntegerNumber]
  · simp only [sign, run, number, List.nil_eq, reduceCtorEq, if_false, fitting, if_true]
  all_goals
    intro others
    exact noBase _ others (by decide)

/-- A number is written in digits and read back if it fits. -/
theorem readsAs_integer {n : Nat} (fits : n < 0x8000000000000000) :
    ReadsAs (Nat.toDigits 10 n) (.integer n) := by
  intro budget room rest
  have plain := plainDigits_toDigits n
  have shown : Nat.ofDigitChars 10 (Nat.toDigits 10 n) 0 = n := Nat.ofDigitChars_ten_toDigits
  have read : readScalar (Nat.toDigits 10 n ++ '\n' :: rest) = some (.integer n, '\n' :: rest) := by
    rw [readScalar, readMoment_digits plain.decimal, readRealDigits_digits plain,
      readSpecialReal_digits plain, readIntegerNumber_digits plain (by rwa [shown]), shown]
    rfl
  obtain ⟨first, others, digits⟩ := List.exists_cons_of_ne_nil plain.nonempty
  have digit := plain.decimal first (by simp [digits])
  have other : ∀ mark : Char, mark.isDigit = false → first ≠ mark := by
    rintro mark no rfl
    rw [digit] at no
    contradiction
  have marks : first ≠ 't' ∧ first ≠ 'f' ∧ first ≠ '[' ∧ first ≠ '{' := by
    refine ⟨?_, ?_, ?_, ?_⟩ <;> exact other _ (by decide)
  rw [digits, List.cons_append] at read ⊢
  refine ⟨skipSpace_cons ?_, ?_⟩
  · simp [isSpace, other ' ' (by decide), other '\t' (by decide)]
  · rw [readItem]
    · rw [if_neg (by simp [other '"' (by decide), other '\'' (by decide)]), read]
    all_goals simp_all only [ne_eq, implies_true]

/-! ## Lines -/

/-- Lines with a key and a value each. -/
inductive EntryLines : Entries → List Char → Prop where
  | nil : EntryLines [] []
  | cons {key value text : List Char} {item : Item} {entries : Entries} (bare : BareKey key)
      (reads : ReadsAs value item) (others : EntryLines entries text) :
      EntryLines ((key, item) :: entries) (key ++ ' ' :: '=' :: ' ' :: (value ++ '\n' :: text))

/-- Tables with a header each and lines for their entries, and an empty line between two. -/
inductive TableLines : List (List Char × Entries) → List Char → Prop where
  | last {name text : List Char} {entries : Entries} (bare : BareKey name)
      (lines : EntryLines entries text) :
      TableLines [(name, entries)] ('[' :: (name ++ ']' :: '\n' :: text))
  | cons {name text rest : List Char} {entries : Entries} {tables : List (List Char × Entries)}
      (bare : BareKey name) (lines : EntryLines entries text) (others : TableLines tables rest) :
      TableLines ((name, entries) :: tables)
        ('[' :: (name ++ ']' :: '\n' :: (text ++ '\n' :: rest)))

theorem put_of_new (new : key ∉ entries.map Prod.fst) : entries.put key item = entries ++ [(key, item)] := by
  induction entries with
  | nil => rfl
  | cons entry entries inductionHypothesis =>
    obtain ⟨other, old⟩ := entry
    obtain ⟨here, later⟩ := not_or.mp (mt List.mem_cons.mpr new)
    rw [Entries.put, if_neg (Ne.symm here), inductionHypothesis later, List.cons_append]

theorem lookup_of_new (new : key ∉ entries.map Prod.fst) : entries.lookup key = none := by
  rw [List.lookup_eq_none_iff]
  rintro ⟨other, old⟩ member
  rw [bne_iff_ne]
  rintro rfl
  exact new (List.mem_map_of_mem member)

theorem assign_of_new {table : Table} (header : table.origin = .header)
    (new : key ∉ table.entries.map Prod.fst) :
    table.assign [] key item = some ⟨.header, table.entries ++ [(key, item)]⟩ := by
  obtain ⟨origin, entries⟩ := table
  cases header
  simp [Table.assign, Table.change, Table.insert, lookup_of_new new, put_of_new new]

theorem readAssignment_line {value : List Char} (document : Document) (rest : List Char)
    (bare : BareKey key) (reads : ReadsAs value item)
    (header : document.current.origin = .header) (new : key ∉ document.current.entries.map Prod.fst) :
    readAssignment (key ++ ' ' :: '=' :: ' ' :: (value ++ '\n' :: rest)) document =
      some ({ document with current := ⟨.header, document.current.entries ++ [(key, item)]⟩ }, rest) := by
  have named : readKey (key ++ ' ' :: '=' :: ' ' :: (value ++ '\n' :: rest)) =
      some ([key], '=' :: ' ' :: (value ++ '\n' :: rest)) :=
    readKey_bare bare (by rintro _ ⟨⟩; decide) (by simp [skipSpace, isSpace])
  obtain ⟨visible, read⟩ := reads (value ++ '\n' :: rest).length.succ depthLimit rest
  have skipped : skipSpace (' ' :: (value ++ '\n' :: rest)) = value ++ '\n' :: rest := visible
  have ended : readLineEnd ('\n' :: rest) = some rest := by
    simp [readLineEnd, skipSpace, isSpace, readBreak]
  simp only [readAssignment, named, Document.splitLast, readExactly, if_true, List.length_cons,
    skipped, read, ended, Document.assign, assign_of_new header new, Option.bind_eq_bind,
    Option.bind_some, Option.map_some, Option.pure_def]

theorem readLines_entry {document : Document} (bare : isBareChar c = true) :
    readLines (budget + 1) document (c :: rest) =
      (readAssignment (c :: rest) document).bind fun read =>
        readLines budget read.1 read.2 := by
  have mark : ∀ other, isBareChar other = false → c ≠ other := by
    rintro other no rfl
    rw [bare] at no
    contradiction
  rw [readLines, skipSpace_cons (isSpace_of_isBareChar bare)]
  split
  next equal => contradiction
  next equal => exact absurd (List.cons.inj equal).1 (mark '[' (by decide))
  next first others _ equal =>
    obtain ⟨rfl, rfl⟩ := List.cons.inj equal
    rw [if_neg (by simp [mark '#' (by decide), mark '\n' (by decide), mark '\r' (by decide)])]
    cases readAssignment (c :: rest) document <;> rfl

@[simp] theorem readLines_header {document : Document} :
    readLines (budget + 1) document ('[' :: rest) =
      (readHeader rest document).bind fun read => readLines budget read.1 read.2 := by
  rw [readLines, skipSpace_cons (by decide)]
  simp only
  cases readHeader rest document <;> rfl

@[simp] theorem readLines_break {document : Document} :
    readLines (budget + 1) document ('\n' :: rest) = readLines budget document rest := by
  have ended : readLineEnd ('\n' :: rest) = some rest := by
    simp [readLineEnd, skipSpace, isSpace, readBreak]
  simp [readLines, skipSpace_cons, isSpace, ended]

theorem readLines_entries (root : Table) (path : List (List Char)) (lines : EntryLines entries text)
    (before : Entries) (distinct : ((before ++ entries).map Prod.fst).Nodup)
    (room : (text ++ rest).length < budget) :
    ∃ left, rest.length < left ∧
      readLines budget ⟨root, ⟨.header, before⟩, path, false⟩ (text ++ rest) =
        readLines left ⟨root, ⟨.header, before ++ entries⟩, path, false⟩ rest := by
  induction lines generalizing before budget with
  | nil => exact ⟨budget, room, by rw [List.append_nil, List.nil_append]⟩
  | @cons key value text item entries bare reads others inductionHypothesis =>
    have new : key ∉ before.map Prod.fst := by
      rw [List.map_append, List.map_cons] at distinct
      intro member
      exact (List.nodup_append.mp distinct).2.2 _ member _ (List.mem_cons_self ..) rfl
    have read := readAssignment_line ⟨root, ⟨.header, before⟩, path, false⟩ (text ++ rest) bare reads
      rfl new
    obtain ⟨first, more, rfl⟩ := List.exists_cons_of_ne_nil bare.1
    simp only [List.append_assoc, List.cons_append, List.length_append, List.length_cons] at *
    obtain ⟨budget, rfl⟩ : ∃ fewer, budget = fewer + 1 := ⟨budget - 1, by omega⟩
    have fits : text.length + rest.length < budget := by omega
    obtain ⟨left, enough, equal⟩ := inductionHypothesis (before ++ [(first :: more, item)])
      (by simpa using distinct) fits
    refine ⟨left, enough, ?_⟩
    rw [readLines_entry (bare.2 first (by simp)), read, Option.bind_some, equal]
    simp only [List.append_assoc, List.cons_append, List.nil_append]

theorem readHeader_line {document : Document} {closed : Entries} (bare : BareKey key)
    (closes : document.close = some ⟨.header, closed⟩) (new : key ∉ closed.map Prod.fst) :
    readHeader (key ++ ']' :: '\n' :: rest) document =
      some (⟨⟨.header, closed⟩, .opened, [key], false⟩, rest) := by
  have named : readKey (key ++ ']' :: '\n' :: rest) = some ([key], ']' :: '\n' :: rest) :=
    readKey_bare bare (by rintro _ ⟨⟩; decide) (by simp [skipSpace, isSpace])
  have ended : readLineEnd ('\n' :: rest) = some rest := by
    simp [readLineEnd, skipSpace, isSpace, readBreak]
  have opens : document.openTable [key] = some ⟨⟨.header, closed⟩, .opened, [key], false⟩ := by
    simp [Document.openTable, closes, Document.splitLast, Table.change, Document.openTable.find,
      lookup_of_new new]
  rw [readHeader]
  · simp only [named, readExactly, if_true, ended, opens, Option.bind_eq_bind, Option.bind_some,
      Option.pure_def]
  · rintro others equal
    obtain ⟨first, more, rfl⟩ := List.exists_cons_of_ne_nil bare.1
    have plain := bare.2 first (by simp)
    rw [(List.cons.inj equal).1] at plain
    exact absurd plain (by decide)

theorem close_of_new {closed : Entries} (new : key ∉ closed.map Prod.fst) :
    (Document.mk ⟨.header, closed⟩ ⟨.header, entries⟩ [key] false).close =
      some ⟨.header, closed ++ [(key, .table .header entries)]⟩ := by
  simp [Document.close, Document.splitLast, Table.change, lookup_of_new new, put_of_new new]

theorem readLines_table {document : Document} {closed : Entries} (rest : List Char)
    (bare : BareKey key) (lines : EntryLines entries text)
    (closes : document.close = some ⟨.header, closed⟩) (new : key ∉ closed.map Prod.fst) (keys : (entries.map Prod.fst).Nodup)
    (room : key.length + (text.length + rest.length) < budget) :
    ∃ left, rest.length < left ∧
      readLines budget document ('[' :: (key ++ ']' :: '\n' :: (text ++ rest))) =
        readLines left ⟨⟨.header, closed⟩, ⟨.header, entries⟩, [key], false⟩ rest := by
  have named : 0 < key.length := List.length_pos_iff.mpr bare.1
  obtain ⟨budget, rfl⟩ : ∃ fewer, budget = fewer + 1 := ⟨budget - 1, by omega⟩
  have fits : (text ++ rest).length < budget := by
    rw [List.length_append]
    omega
  obtain ⟨left, enough, read⟩ := readLines_entries ⟨.header, closed⟩ [key] lines [] keys fits
  refine ⟨left, enough, ?_⟩
  rw [readLines_header, readHeader_line bare closes new, Option.bind_some]
  exact read

theorem readLines_tables {tables : List (List Char × Entries)} {document : Document}
    {closed : Entries} (lines : TableLines tables text)
    (closes : document.close = some ⟨.header, closed⟩)
    (distinct : (closed.map Prod.fst ++ tables.map Prod.fst).Nodup)
    (keys : ∀ table ∈ tables, (table.2.map Prod.fst).Nodup) (room : text.length < budget) :
    ((readLines budget document text).bind Document.close).map Table.entries =
      some (closed ++ tables.map fun (name, entries) => (name, .table .header entries)) := by
  induction lines generalizing document closed budget with
  | @last name text entries bare lines =>
    have new : name ∉ closed.map Prod.fst := fun member =>
      (List.nodup_append.mp distinct).2.2 _ member _ (List.mem_cons_self ..) rfl
    simp only [List.length_cons, List.length_append] at room
    have fits : name.length + (text.length + 0) < budget := by omega
    obtain ⟨left, enough, read⟩ := readLines_table [] bare lines closes new
      (keys _ (List.mem_cons_self ..)) fits
    rw [List.append_nil] at read
    obtain ⟨left, rfl⟩ : ∃ fewer, left = fewer + 1 := ⟨left - 1, by simp at enough; omega⟩
    rw [read]
    simp [readLines, skipSpace, close_of_new new]
  | @cons name text rest entries tables bare lines others inductionHypothesis =>
    have new : name ∉ closed.map Prod.fst := fun member =>
      (List.nodup_append.mp distinct).2.2 _ member _ (List.mem_cons_self ..) rfl
    simp only [List.length_cons, List.length_append] at room
    have fits : name.length + (text.length + (rest.length + 1)) < budget := by omega
    obtain ⟨left, enough, read⟩ := readLines_table ('\n' :: rest) bare lines closes new
      (keys _ (List.mem_cons_self ..)) fits
    -- One step of the budget goes to the line break between two tables.
    obtain ⟨left, rfl⟩ : ∃ fewer, left = fewer + 1 := ⟨left - 1, by omega⟩
    rw [read, readLines_break, inductionHypothesis (close_of_new new) (by simpa using distinct)
      (fun table member => keys table (List.mem_cons_of_mem _ member))
      (by rw [List.length_cons] at enough; omega)]
    simp

theorem parse_tables {tables : List (List Char × Entries)} (lines : TableLines tables text)
    (distinct : (tables.map Prod.fst).Nodup)
    (keys : ∀ table ∈ tables, (table.2.map Prod.fst).Nodup) :
    parse (String.ofList text) =
      some (tables.map fun (name, entries) => (name, .table .header entries)) := by
  have opens : Document.empty.close = some ⟨.header, []⟩ := rfl
  have read := readLines_tables lines opens distinct keys (Nat.lt_succ_self _)
  have unmarked : dropMark text = text := by cases lines <;> rfl
  rw [parse, String.toList_ofList, unmarked]
  cases result : readLines (text.length + 1) .empty text with
  | none =>
    rw [result] at read
    contradiction
  | some document =>
    rw [result] at read
    exact read

end Toml

end LinkedTables
