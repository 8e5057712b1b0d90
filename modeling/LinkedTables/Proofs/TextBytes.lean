import LinkedTables.Text.Utf8

/-! # Texts and their bytes

The bytes of a text are those of its characters, one after the other, and they are read back as
this text.  A byte below `0x80` stands for itself wherever it occurs: no other character has it
among its bytes. -/

namespace LinkedTables

/-! ## The bytes of a text -/

theorem toList_loop_eq (bytes : ByteArray) (place : Nat) (read : List UInt8) :
    ByteArray.toList.loop bytes place read = read.reverse ++ bytes.data.toList.drop place := by
  induction place, read using ByteArray.toList.loop.induct bytes with
  | case1 place read inside inductionHypothesis =>
    have bound : place < bytes.data.toList.length := by simpa using inside
    rw [ByteArray.toList.loop, if_pos inside, inductionHypothesis, List.drop_eq_getElem_cons bound]
    simp [ByteArray.get!, getElem!_pos bytes.data place (by simpa using inside)]
  | case2 place read outside =>
    rw [ByteArray.toList.loop, if_neg outside, List.drop_of_length_le (by simpa using outside)]
    simp

theorem bytesOfText_eq (text : String) : bytesOfText text = text.toByteArray.data.toList := by
  rw [bytesOfText, ByteArray.toList, toList_loop_eq]
  rfl

@[simp] theorem textOfBytes?_bytesOfText (text : String) : textOfBytes? (bytesOfText text) = some text := by
  have whole : ByteArray.mk (bytesOfText text).toArray = text.toByteArray := by
    rw [bytesOfText_eq, Array.toArray_toList]
  rw [textOfBytes?, whole, String.fromUTF8?, dif_pos text.isValidUTF8]
  rfl

theorem bytesOfText_ofList (chars : List Char) :
    bytesOfText (String.ofList chars) = chars.flatMap String.utf8EncodeChar := by
  rw [bytesOfText_eq, String.toByteArray_ofList, List.utf8Encode, List.toList_data_toByteArray]

@[simp] theorem bytesOfText_append (first rest : String) :
    bytesOfText (first ++ rest) = bytesOfText first ++ bytesOfText rest := by
  rw [bytesOfText_eq, String.toByteArray_append, ByteArray.toList_data_append, ← bytesOfText_eq,
    ← bytesOfText_eq]

/-! ## Bytes below `0x80` -/

/-- What is not below `0x80` stays so when bits are set in it. -/
theorem not_lt_or {mark : UInt8} (high : ¬ mark < 0x80) (b : UInt8) : ¬ (b ||| mark) < 0x80 := by
  have grows : mark.toNat ≤ b.toNat ||| mark.toNat := Nat.right_le_or
  simp only [UInt8.lt_iff_toNat_lt, UInt8.toNat_or] at high ⊢
  omega

/-- A byte below `0x80` among those of a character is the only one. -/
theorem utf8EncodeChar_of_mem {c : Char} {b : UInt8} (member : b ∈ String.utf8EncodeChar c)
    (ascii : b < 0x80) : String.utf8EncodeChar c = [b] := by
  rcases c.utf8Size_eq with one | two | three | four
  · rw [String.utf8EncodeChar_eq_singleton one] at member ⊢
    rw [List.mem_singleton.mp member]
  -- The bytes of a longer character carry a mark in their high bits.
  · rw [String.utf8EncodeChar_eq_cons_cons two] at member
    simp only [List.mem_cons, List.not_mem_nil, or_false] at member
    rcases member with rfl | rfl <;> exact absurd ascii (not_lt_or (by decide) _)
  · rw [String.utf8EncodeChar_eq_cons_cons_cons three] at member
    simp only [List.mem_cons, List.not_mem_nil, or_false] at member
    rcases member with rfl | rfl | rfl <;> exact absurd ascii (not_lt_or (by decide) _)
  · rw [String.utf8EncodeChar_eq_cons_cons_cons_cons four] at member
    simp only [List.mem_cons, List.not_mem_nil, or_false] at member
    rcases member with rfl | rfl | rfl | rfl <;> exact absurd ascii (not_lt_or (by decide) _)

theorem utf8EncodeChar_ofUInt8 {b : UInt8} (ascii : b < 0x80) :
    String.utf8EncodeChar (Char.ofUInt8 b) = [b] := by
  have small : b.toNat < 0x80 := UInt8.lt_iff_toNat_lt.mp ascii
  have size : (Char.ofUInt8 b).utf8Size = 1 := by
    rw [Char.utf8Size_eq_one_iff, UInt32.le_iff_toNat_le]
    show b.toNat ≤ 127
    omega
  rw [String.utf8EncodeChar_eq_singleton size]
  show [b.toUInt32.toUInt8] = [b]
  rw [UInt8.toUInt8_toUInt32]

/-- Bytes that are those of a text. -/
def IsText (bytes : List UInt8) : Prop :=
  ∃ text, bytesOfText text = bytes

namespace IsText

variable {bytes rest : List UInt8}

theorem nil : IsText [] :=
  ⟨"", bytesOfText_eq ""⟩

theorem append (first : IsText bytes) (second : IsText rest) : IsText (bytes ++ rest) := by
  obtain ⟨text, rfl⟩ := first
  obtain ⟨text', rfl⟩ := second
  exact ⟨text ++ text', bytesOfText_append text text'⟩

theorem ascii {b : UInt8} (ascii : b < 0x80) : IsText [b] := by
  refine ⟨String.ofList [Char.ofUInt8 b], ?_⟩
  rw [bytesOfText_ofList, List.flatMap_singleton, utf8EncodeChar_ofUInt8 ascii]

theorem bytesOfText_textOfBytes (isText : IsText bytes) :
    bytesOfText (textOfBytes bytes) = bytes := by
  obtain ⟨text, rfl⟩ := isText
  rw [textOfBytes, textOfBytes?_bytesOfText]
  rfl

end IsText

end LinkedTables
