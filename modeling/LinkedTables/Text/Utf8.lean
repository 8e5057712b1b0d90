/-! # Bytes as text

Bytes that are UTF-8 are text.  For bytes that are not, `validLength` says how far they are, and
`decodeLossy` puts a replacement character for each maximal piece that begins like a character
and does not end as one. -/

namespace LinkedTables

def replacementChar : Char := '\uFFFD'

def isContinuation (b : UInt8) : Bool :=
  0x80 ≤ b && b ≤ 0xBF

/-- How many bytes a character has that begins with a byte above ASCII; zero if none does. -/
def leadLength (a : UInt8) : Nat :=
  if 0xC2 ≤ a && a ≤ 0xDF then 2
  else if 0xE0 ≤ a && a ≤ 0xEF then 3
  else if 0xF0 ≤ a && a ≤ 0xF4 then 4
  else 0

/-- Whether a byte may stand second behind a first byte: overlong forms, surrogates and code
    points out of range have none. -/
def isSecond (a b : UInt8) : Bool :=
  if a = 0xE0 then 0xA0 ≤ b && b ≤ 0xBF
  else if a = 0xED then 0x80 ≤ b && b ≤ 0x9F
  else if a = 0xF0 then 0x90 ≤ b && b ≤ 0xBF
  else if a = 0xF4 then 0x80 ≤ b && b ≤ 0x8F
  else isContinuation b

def lowBits (b : UInt8) : Nat :=
  b.toNat % 0x40

/-- The first character of bytes, if they begin with one, and how many bytes behind the first
    belong to it or to the piece that is none. -/
def decodeFirst (a : UInt8) (rest : List UInt8) : Option Char × Nat :=
  if a < 0x80 then (some (Char.ofNat a.toNat), 0)
  -- A piece that is no character ends before the first byte that cannot go on with it.
  else match leadLength a, rest with
    | 2, b :: _ =>
      if isSecond a b then (some (Char.ofNat (a.toNat % 0x20 * 0x40 + lowBits b)), 1)
      else (none, 0)
    | 3, b :: rest =>
      if isSecond a b then
        match rest with
        | c :: _ =>
          if isContinuation c then
            (some (Char.ofNat (a.toNat % 0x10 * 0x1000 + lowBits b * 0x40 + lowBits c)), 2)
          else (none, 1)
        | [] => (none, 1)
      else (none, 0)
    | 4, b :: rest =>
      if isSecond a b then
        match rest with
        | c :: rest =>
          if isContinuation c then
            match rest with
            | d :: _ =>
              if isContinuation d then
                (some (Char.ofNat
                  (a.toNat % 8 * 0x40000 + lowBits b * 0x1000 + lowBits c * 0x40 + lowBits d)), 3)
              else (none, 2)
            | [] => (none, 2)
          else (none, 1)
        | [] => (none, 1)
      else (none, 0)
    | _, _ => (none, 0)

/-- The number of bytes in front of the first that belongs to no character. -/
def validLength : List UInt8 → Nat
  | [] => 0
  | a :: rest =>
    match decodeFirst a rest with
    | (some _, behind) => behind + 1 + validLength (rest.drop behind)
    | (none, _) => 0
termination_by bytes => bytes.length
decreasing_by
  simp only [List.length_drop, List.length_cons]
  omega

/-- The characters of bytes, with replacements where there are none. -/
def decodeLossy : List UInt8 → List Char
  | [] => []
  | a :: rest =>
    let (first, behind) := decodeFirst a rest
    first.getD replacementChar :: decodeLossy (rest.drop behind)
termination_by bytes => bytes.length
decreasing_by
  simp only [List.length_drop, List.length_cons]
  omega

def textOfBytes? (bytes : List UInt8) : Option String :=
  String.fromUTF8? ⟨bytes.toArray⟩

def textOfBytes (bytes : List UInt8) : String :=
  (textOfBytes? bytes).getD (String.ofList (decodeLossy bytes))

def bytesOfText (text : String) : List UInt8 :=
  text.toByteArray.toList

end LinkedTables
