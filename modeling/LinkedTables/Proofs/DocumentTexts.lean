import LinkedTables.Json.Decoding

/-! # Texts in documents

A text is written into a document character by character: a quote, a backslash and the common
controls behind a backslash, any other control by its code unit.  What is written is read back piece
by piece, and the pieces decode to the text, whatever characters it has. -/

namespace LinkedTables

namespace Json

/-! ## Pieces -/

@[simp] theorem hexValue?_hexDigit (n : Nat) : hexValue? (hexDigit n) = some (n % 16) := by
  have digit : ∀ digit : Fin 16, hexValue? (Nat.digitChar digit.val) = some digit.val := by decide
  exact digit ⟨n % 16, Nat.mod_lt n (by decide)⟩

@[simp] theorem unitOf?_hexDigits (code : Fin 0x10000) :
    unitOf? (hexDigit (code.val / 0x1000)) (hexDigit (code.val / 0x100))
      (hexDigit (code.val / 0x10)) (hexDigit code.val) = some code := by
  simp only [unitOf?, hexValue?_hexDigit, Option.bind_eq_bind, Option.bind_some, Option.pure_def,
    Option.some.injEq]
  apply Fin.ext
  show _ % 0x10000 = code.val
  omega

/-- A piece that stands for itself in a string: a code unit, or a character that need not be written
    as one. -/
inductive Piece.Writable : Piece → Prop where
  | char {c : Char} (visible : isControl c = false) : Writable (.char c)
  | unit (code : Fin 0x10000) : Writable (.unit code)

theorem writable_ofChar (c : Char) : (Piece.ofChar c).Writable := by
  rw [Piece.ofChar]
  split
  next => exact .unit _
  next visible => exact .char (by simpa using visible)

theorem writable_piecesOf (text : String) : ∀ piece ∈ piecesOf text, piece.Writable :=
  List.forall_mem_map.mpr fun c _ => writable_ofChar c

theorem readPieces_plain {c : Char} (printable : ¬ c.toNat < 0x20) (quote : c ≠ '"')
    (escape : c ≠ '\\') (rest : List Char) :
    readPieces (c :: rest) = consPiece (.char c) (readPieces rest) := by
  rw [readPieces.eq_def]
  simp [escape, printable]

theorem readPieces_chars {piece : Piece} (writable : piece.Writable) (rest : List Char) :
    readPieces (piece.chars ++ rest) = consPiece piece (readPieces rest) := by
  cases writable with
  | unit code =>
    show readPieces ('\\' :: 'u' :: _ :: _ :: _ :: _ :: rest) = _
    rw [readPieces, unitOf?_hexDigits]
  | @char c visible =>
    simp only [Piece.chars]
    split
    case h_8 quote escape backspace tab lineFeed formFeed newLine here =>
      cases here
      -- Every other control is written as a unit.
      have short : c ≠ '\x08' ∧ c ≠ '\t' ∧ c ≠ '\n' ∧ c ≠ '\x0c' ∧ c ≠ '\r' :=
        ⟨backspace, tab, lineFeed, formFeed, newLine⟩
      exact readPieces_plain (by simpa [isControl, short] using visible) quote escape rest
    case h_9 here => cases here
    all_goals
      rename_i here
      cases here
      rfl

theorem readPieces_append {pieces : List Piece} (writable : ∀ piece ∈ pieces, piece.Writable)
    (rest : List Char) :
    readPieces (pieces.flatMap Piece.chars ++ '"' :: rest) = some (pieces, rest) := by
  induction pieces with
  | nil => rfl
  | cons piece pieces inductionHypothesis =>
    obtain ⟨first, others⟩ := List.forall_mem_cons.mp writable
    rw [List.flatMap_cons, List.append_assoc, readPieces_chars first, inductionHypothesis others]
    rfl

/-! ## Texts -/

@[simp] theorem decodePieces_ofChar (c : Char) (rest : List Piece) :
    decodePieces (.ofChar c :: rest) = consChar c (decodePieces rest) := by
  rw [Piece.ofChar]
  split
  next control =>
    have small : c.toNat < 0x20 := by
      simp only [isControl, Bool.and_eq_true, decide_eq_true_eq] at control
      exact control.1
    have unit : c.toNat % 0x10000 = c.toNat := Nat.mod_eq_of_lt (by omega)
    rw [decodePieces.eq_def]
    simp only [unit, Char.ofNat_toNat]
    rw [if_pos (Or.inl (by omega))]
  next => rfl

@[simp] theorem textOf?_piecesOf (text : String) : textOf? (piecesOf text) = some text := by
  have decoded : ∀ chars : List Char, decodePieces (chars.map Piece.ofChar) = some chars := by
    intro chars
    induction chars with
    | nil => rfl
    | cons c chars inductionHypothesis =>
      rw [List.map_cons, decodePieces_ofChar, inductionHypothesis]
      rfl
  rw [textOf?, piecesOf, decoded, Option.map_some, String.ofList_toList]

theorem readValue_stringChars {pieces : List Piece} (writable : ∀ piece ∈ pieces, piece.Writable)
    (budget : Nat) (rest : List Char) :
    readValue (budget + 1) (stringChars pieces ++ rest) = some (.string pieces, rest) := by
  have read := readPieces_append writable rest
  rw [stringChars, List.cons_append, List.append_assoc, List.singleton_append, readValue, read]
  rfl

@[simp] theorem asText?_ofText (text : String) : (ofText text).asText? = some text :=
  textOf?_piecesOf text

end Json

end LinkedTables
