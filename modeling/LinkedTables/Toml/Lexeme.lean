import LinkedTables.Number.Numeral

/-! # The lexemes of TOML

Blanks, comments, strings, keys, numbers and times.  Each reader takes the text at its point and
returns what it read and the text behind it. -/

namespace LinkedTables

namespace Toml

/-- What a reader returns: what it read and the text that follows. -/
abbrev Read (α : Type) : Type := Option (α × List Char)

/-! ## Blanks and comments -/

def isSpace (c : Char) : Bool :=
  c == ' ' || c == '\t'

def skipSpace (text : List Char) : List Char :=
  text.dropWhile isSpace

def isCommentChar (c : Char) : Bool :=
  c == '\t' || (0x20 ≤ c.toNat && c.toNat != 0x7F)

def readBreak : List Char → Option (List Char)
  | '\n' :: rest => some rest
  | '\r' :: '\n' :: rest => some rest
  | _ => none

/-- The text behind the rest of a line: blanks, a comment, and a line break or the end. -/
def readLineEnd (text : List Char) : Option (List Char) :=
  let rest := match skipSpace text with
    | '#' :: rest => rest.dropWhile isCommentChar
    | rest => rest
  if rest = [] then some [] else readBreak rest

/-- The text behind blanks, line breaks and comments; `inComment` says whether it starts inside
    a comment. -/
def skipTrivia (inComment : Bool) : List Char → List Char
  | [] => []
  | '\n' :: rest => skipTrivia false rest
  | '\r' :: '\n' :: rest => skipTrivia false rest
  | c :: rest =>
    if inComment then (if isCommentChar c then skipTrivia true rest else c :: rest)
    else if isSpace c then skipTrivia false rest
    else if c = '#' then skipTrivia true rest
    else c :: rest

/-! ## Strings -/

def consRead (c : Char) (read : Read (List Char)) : Read (List Char) :=
  read.map fun (chars, rest) => (c :: chars, rest)

def hexDigit? (c : Char) : Option Nat :=
  if '0' ≤ c ∧ c ≤ '9' then some (c.toNat - '0'.toNat)
  else if 'a' ≤ c ∧ c ≤ 'f' then some (c.toNat - 'a'.toNat + 10)
  else if 'A' ≤ c ∧ c ≤ 'F' then some (c.toNat - 'A'.toNat + 10)
  else none

def hexNumber? (digits : List Char) : Option Nat :=
  digits.foldl (fun number digit => do return 16 * (← number) + (← hexDigit? digit)) (some 0)

def hexChar? (digits : List Char) : Option Char :=
  match hexNumber? digits with
  | some n => if n.isValidChar then some (Char.ofNat n) else none
  | none => none

def shortEscape? : Char → Option Char
  | '"' => some '"'
  | '\\' => some '\\'
  | 'b' => some '\x08'
  | 'f' => some '\x0c'
  | 'n' => some '\n'
  | 'r' => some '\r'
  | 't' => some '\t'
  | _ => none

def isBasicChar (c : Char) : Bool :=
  isCommentChar c && c != '"' && c != '\\'

def isLiteralChar (c : Char) : Bool :=
  isCommentChar c && c != '\''

def readBasic : List Char → Read (List Char)
  | [] => none
  | '"' :: rest => some ([], rest)
  | '\\' :: 'u' :: a :: b :: c :: d :: rest =>
    match hexChar? [a, b, c, d] with
    | some char => consRead char (readBasic rest)
    | none => none
  | '\\' :: 'U' :: a :: b :: c :: d :: e :: f :: g :: h :: rest =>
    match hexChar? [a, b, c, d, e, f, g, h] with
    | some char => consRead char (readBasic rest)
    | none => none
  | '\\' :: letter :: rest =>
    match shortEscape? letter with
    | some c => consRead c (readBasic rest)
    | none => none
  | c :: rest => if isBasicChar c then consRead c (readBasic rest) else none

def readLiteral : List Char → Read (List Char)
  | [] => none
  | '\'' :: rest => some ([], rest)
  | c :: rest => if isLiteralChar c then consRead c (readLiteral rest) else none

/-- Where a reader of a basic string of several lines stands: in the text, behind a backslash
    that ends a line, or behind the break of such a line. -/
inductive Fold where
  | text
  | lineEnd
  | nextLine
  deriving DecidableEq

/-- A basic string of several lines up to its closing quotes.  Up to two quotes may stand before
    the closing three; a backslash at the end of a line joins it with the next text. -/
def readLongBasic (fold : Fold) : List Char → Read (List Char)
  | [] => none
  | '\n' :: rest =>
    if fold = .text then consRead '\n' (readLongBasic .text rest)
    else readLongBasic .nextLine rest
  | '\r' :: '\n' :: rest =>
    if fold = .text then consRead '\n' (readLongBasic .text rest)
    else readLongBasic .nextLine rest
  | c :: rest =>
    if fold ≠ .text ∧ isSpace c then readLongBasic fold rest
    else if fold = .lineEnd then none
    else match c, rest with
      | '"', '"' :: '"' :: '"' :: '"' :: rest => some (['"', '"'], rest)
      | '"', '"' :: '"' :: '"' :: rest => some (['"'], rest)
      | '"', '"' :: '"' :: rest => some ([], rest)
      | '"', rest => consRead '"' (readLongBasic .text rest)
      | '\\', 'u' :: a :: b :: c :: d :: rest =>
        match hexChar? [a, b, c, d] with
        | some char => consRead char (readLongBasic .text rest)
        | none => none
      | '\\', 'U' :: a :: b :: c :: d :: e :: f :: g :: h :: rest =>
        match hexChar? [a, b, c, d, e, f, g, h] with
        | some char => consRead char (readLongBasic .text rest)
        | none => none
      | '\\', letter :: rest =>
        match shortEscape? letter with
        | some c => consRead c (readLongBasic .text rest)
        | none =>
          if isSpace letter then readLongBasic .lineEnd rest
          else if letter = '\n' then readLongBasic .nextLine rest
          else match letter, rest with
            | '\r', '\n' :: rest => readLongBasic .nextLine rest
            | _, _ => none
      | c, rest => if isBasicChar c then consRead c (readLongBasic .text rest) else none

def readLongLiteral : List Char → Read (List Char)
  | [] => none
  | '\'' :: '\'' :: '\'' :: '\'' :: '\'' :: rest => some (['\'', '\''], rest)
  | '\'' :: '\'' :: '\'' :: '\'' :: rest => some (['\''], rest)
  | '\'' :: '\'' :: '\'' :: rest => some ([], rest)
  | '\r' :: '\n' :: rest => consRead '\n' (readLongLiteral rest)
  | c :: rest =>
    if c = '\n' ∨ c = '\'' ∨ isLiteralChar c then consRead c (readLongLiteral rest) else none

def dropBreak (text : List Char) : List Char :=
  (readBreak text).getD text

def readString : List Char → Read (List Char)
  | '"' :: '"' :: '"' :: rest => readLongBasic .text (dropBreak rest)
  | '"' :: rest => readBasic rest
  | '\'' :: '\'' :: '\'' :: rest => readLongLiteral (dropBreak rest)
  | '\'' :: rest => readLiteral rest
  | _ => none

/-! ## Keys -/

def isBareChar (c : Char) : Bool :=
  c.isAlphanum || c == '_' || c == '-'

def readSimpleKey (text : List Char) : Read (List Char) :=
  match text with
  | '"' :: rest => readBasic rest
  | '\'' :: rest => readLiteral rest
  | _ =>
    let key := text.takeWhile isBareChar
    if key = [] then none else some (key, text.dropWhile isBareChar)

def readKeyParts : (room : Nat) → List Char → Read (List (List Char))
  | 0, _ => none
  | room + 1, text =>
    match readSimpleKey (skipSpace text) with
    | none => none
    | some (part, rest) =>
      match skipSpace rest with
      | '.' :: rest => (readKeyParts room rest).map fun (parts, rest) => (part :: parts, rest)
      | rest => some ([part], rest)

/-- How many arrays and tables in braces may stand inside one another, and how many parts a key
    may have. -/
def depthLimit : Nat := 79

def readKey (text : List Char) : Read (List (List Char)) :=
  readKeyParts depthLimit text

/-! ## Numbers -/

/-- Further digits of a number, with single underscores between digits. -/
def readMoreDigits (isDigit : Char → Bool) : List Char → Read (List Char)
  | [] => some ([], [])
  | '_' :: c :: rest => if isDigit c then consRead c (readMoreDigits isDigit rest) else none
  | c :: rest =>
    if isDigit c then consRead c (readMoreDigits isDigit rest)
    else if c = '_' then none
    else some ([], c :: rest)

def readDigitRun (isDigit : Char → Bool) : List Char → Read (List Char)
  | [] => none
  | c :: rest => if isDigit c then consRead c (readMoreDigits isDigit rest) else none

def readSign : List Char → List Char × List Char
  | '+' :: rest => (['+'], rest)
  | '-' :: rest => (['-'], rest)
  | rest => ([], rest)

/-- The digits of a decimal whole number, which starts with zero only if it is zero. -/
def readDecimalRun : List Char → Read (List Char)
  | '0' :: rest => some (['0'], rest)
  | text => readDigitRun Char.isDigit text

def numberOf (base : Nat) (digits : List Char) : Nat :=
  digits.foldl (fun number digit => base * number + (hexDigit? digit).getD 0) 0

def fitsInteger (i : Int) : Bool :=
  decide (-0x8000000000000000 ≤ i ∧ i < 0x8000000000000000)

def readBased (base : Nat) (isDigit : Char → Bool) (text : List Char) : Read Int :=
  match readDigitRun isDigit text with
  | some (digits, rest) =>
    let number : Int := numberOf base digits
    if fitsInteger number then some (number, rest) else none
  | none => none

def readIntegerNumber : List Char → Read Int
  | '0' :: 'x' :: rest => readBased 16 (fun c => (hexDigit? c).isSome) rest
  | '0' :: 'o' :: rest => readBased 8 (fun c => '0' ≤ c && c ≤ '7') rest
  | '0' :: 'b' :: rest => readBased 2 (fun c => c == '0' || c == '1') rest
  | text =>
    let (sign, rest) := readSign text
    match readDecimalRun rest with
    | some (digits, rest) =>
      let size : Int := numberOf 10 digits
      let number := if sign = ['-'] then -size else size
      if fitsInteger number then some (number, rest) else none
    | none => none

def readFractionRun : List Char → Read (List Char)
  | '.' :: rest =>
    (readDigitRun Char.isDigit rest).map fun (digits, rest) => ('.' :: digits, rest)
  | rest => some ([], rest)

def readExponentRun : List Char → Read (List Char)
  | [] => some ([], [])
  | c :: rest =>
    if c = 'e' ∨ c = 'E' then
      let (sign, rest) := readSign rest
      (readDigitRun Char.isDigit rest).map fun (digits, rest) => ('e' :: (sign ++ digits), rest)
    else some ([], c :: rest)

/-- A real number in digits, with a fraction, an exponent or both.  One too large is refused
    unless it is negative. -/
def readRealDigits (text : List Char) : Option (List Char) := do
  let (sign, rest) := readSign text
  let (whole, rest) ← readDecimalRun rest
  let (fraction, rest) ← readFractionRun rest
  let (exponent, rest) ← readExponentRun rest
  if fraction = [] ∧ exponent = [] then none
  else match readReal .double (sign ++ whole ++ fraction ++ exponent) with
    | some x => if x = .infinite false then none else some rest
    | none => none

def readSpecialReal (text : List Char) : Option (List Char) :=
  match (readSign text).2 with
  | 'i' :: 'n' :: 'f' :: rest => some rest
  | 'n' :: 'a' :: 'n' :: rest => some rest
  | _ => none

/-! ## Times -/

def readFixed (count : Nat) (text : List Char) : Read Nat :=
  let digits := text.take count
  if digits.length = count ∧ digits.all Char.isDigit then
    some (Nat.ofDigitChars 10 digits 0, text.drop count)
  else none

def readWithin (count least greatest : Nat) (text : List Char) : Read Nat :=
  match readFixed count text with
  | some (n, rest) => if least ≤ n ∧ n ≤ greatest then some (n, rest) else none
  | none => none

def readExactly (c : Char) : List Char → Option (List Char)
  | [] => none
  | d :: rest => if d = c then some rest else none

def daysIn (year month : Nat) : Nat :=
  if month = 2 then
    if year % 4 = 0 ∧ (year % 100 ≠ 0 ∨ year % 400 = 0) then 29 else 28
  else if month = 4 ∨ month = 6 ∨ month = 9 ∨ month = 11 then 30
  else 31

def readDate (text : List Char) : Option (List Char) := do
  let (year, rest) ← readFixed 4 text
  let rest ← readExactly '-' rest
  let (month, rest) ← readWithin 2 1 12 rest
  let rest ← readExactly '-' rest
  let (_, rest) ← readWithin 2 1 (daysIn year month) rest
  return rest

def readSecondFraction (text : List Char) : List Char :=
  match text with
  | '.' :: rest =>
    if rest.takeWhile Char.isDigit = [] then text else rest.dropWhile Char.isDigit
  | _ => text

/-- A time of day; a minute may have a leap second. -/
def readTime (text : List Char) : Option (List Char) := do
  let (_, rest) ← readWithin 2 0 23 text
  let rest ← readExactly ':' rest
  let (_, rest) ← readWithin 2 0 59 rest
  let rest ← readExactly ':' rest
  let (_, rest) ← readWithin 2 0 60 rest
  return readSecondFraction rest

def readOffset (text : List Char) : Option (List Char) :=
  match text with
  | 'Z' :: rest => some rest
  | 'z' :: rest => some rest
  | c :: rest =>
    if c = '+' ∨ c = '-' then do
      let (_, rest) ← readWithin 2 0 23 rest
      let rest ← readExactly ':' rest
      let (_, rest) ← readWithin 2 0 59 rest
      return rest
    else some text
  | [] => some []

def readMoment (text : List Char) : Option (List Char) :=
  match readDate text with
  | some rest =>
    match rest with
    | c :: time =>
      if c = 'T' ∨ c = 't' ∨ c = ' ' then
        match readTime time with
        | some rest => readOffset rest
        | none => some rest
      else some rest
    | [] => some []
  | none => readTime text

end Toml

end LinkedTables
