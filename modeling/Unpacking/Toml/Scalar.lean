import Unpacking.Text.Basic

/-!
The strings, numbers and times of TOML. A reader gives what it read and the text behind it.
-/

namespace Unpacking.Toml

open Text

/-- Whether a character is a space or a tab. -/
def isSpace (c : Char) : Bool :=
  c == ' ' || c == '\t'

/-- Whether a character may stand in comments and strings: a tab, or no control character. -/
def isPlain (c : Char) : Bool :=
  c == '\t' || (0x20 ≤ c.toNat && c.toNat != 0x7F)

/-- The text behind a line end. -/
def afterNewline? : Text → Option Text
  | '\n' :: rest => some rest
  | '\r' :: '\n' :: rest => some rest
  | _ => none

/-- The value of a digit in a base. -/
def digitValue? (base : Nat) (c : Char) : Option Nat :=
  let value :=
    if c.isDigit then c.toNat - '0'.toNat
    else if 'a' ≤ c ∧ c ≤ 'f' then c.toNat - 'a'.toNat + 10
    else if 'A' ≤ c ∧ c ≤ 'F' then c.toNat - 'A'.toNat + 10
    else base
  if value < base then some value else none

/-- The character that a number of hexadecimal digits stand for, and the text behind them. -/
def coded? (count : Nat) (text : Text) : Option (Char × Text) := do
  let digits := text.take count
  if digits.length < count then none
  else
    let value ← digits.foldlM (fun value c => do
      let digit ← digitValue? 16 c
      pure (16 * value + digit)) 0
    if value < 0xD800 || (0xE000 ≤ value && value ≤ 0x10FFFF) then
      some (Char.ofNat value, text.drop count)
    else none

/-- The character that an escape stands for behind its backslash, and the text behind it. -/
def escaped? : Text → Option (Char × Text)
  | 'b' :: rest => some (Char.ofNat 8, rest)
  | 't' :: rest => some ('\t', rest)
  | 'n' :: rest => some ('\n', rest)
  | 'f' :: rest => some (Char.ofNat 12, rest)
  | 'r' :: rest => some ('\r', rest)
  | '"' :: rest => some ('"', rest)
  | '\\' :: rest => some ('\\', rest)
  | 'u' :: rest => coded? 4 rest
  | 'U' :: rest => coded? 8 rest
  | _ => none

/-- The rest of a string on one line, behind its opening quote. -/
def basicUpTo : Nat → Text → Option (Text × Text)
  | 0, _ => none
  | limit + 1, text =>
    match text with
    | [] => none
    | '"' :: rest => some ([], rest)
    | '\\' :: rest => do
      let (c, rest) ← escaped? rest
      let (more, rest) ← basicUpTo limit rest
      pure (c :: more, rest)
    | c :: rest =>
      if isPlain c then do
        let (more, rest) ← basicUpTo limit rest
        pure (c :: more, rest)
      else none

/-- The rest of a literal string on one line, behind its opening quote. -/
def literal? : Text → Option (Text × Text)
  | [] => none
  | c :: rest =>
    if c == '\'' then some ([], rest)
    else if isPlain c then (literal? rest).map fun (more, rest) => (c :: more, rest)
    else none

/-- The closing quotes of a string on several lines: up to two more quotes before them belong to
the string. -/
def closing? (quote : Char) (text : Text) : Option (Text × Text) :=
  let count := (text.takeWhile (· == quote)).length
  if count < 3 then none
  else
    let kept := Nat.min (count - 3) 2
    some (List.replicate kept quote, text.drop (kept + 3))

/-- Whether only blanks are left on the line. -/
def endsLine (text : Text) : Bool :=
  (afterNewline? (text.dropWhile isSpace)).isSome

/-- A text behind all blanks and line ends. -/
def skipBlankLines (text : Text) : Text :=
  text.dropWhile fun c => isSpace c || c == '\n' || c == '\r'

/-- The rest of a string on several lines. A backslash at the end of a line hides all blanks and
line ends behind it. -/
def basicLinesUpTo : Nat → Text → Option (Text × Text)
  | 0, _ => none
  | limit + 1, text =>
    match closing? '"' text with
    | some found => some found
    | none =>
      match text with
      | [] => none
      | '\\' :: rest =>
        if endsLine rest then basicLinesUpTo limit (skipBlankLines rest)
        else do
          let (c, rest) ← escaped? rest
          let (more, rest) ← basicLinesUpTo limit rest
          pure (c :: more, rest)
      | c :: rest =>
        match afterNewline? text with
        | some rest => do
          let (more, rest) ← basicLinesUpTo limit rest
          pure ('\n' :: more, rest)
        | none =>
          if isPlain c then do
            let (more, rest) ← basicLinesUpTo limit rest
            pure (c :: more, rest)
          else none

/-- The rest of a literal string on several lines. -/
def literalLinesUpTo : Nat → Text → Option (Text × Text)
  | 0, _ => none
  | limit + 1, text =>
    match closing? '\'' text with
    | some found => some found
    | none =>
      match text with
      | [] => none
      | c :: rest =>
        match afterNewline? text with
        | some rest => do
          let (more, rest) ← literalLinesUpTo limit rest
          pure ('\n' :: more, rest)
        | none =>
          if isPlain c then do
            let (more, rest) ← literalLinesUpTo limit rest
            pure (c :: more, rest)
          else none

/-- A string on one line. -/
def lineString? (text : Text) : Option (Text × Text) :=
  match text with
  | '"' :: rest => basicUpTo text.length rest
  | '\'' :: rest => literal? rest
  | _ => none

/-- A string of any kind. A line end right behind the opening quotes does not count. -/
def string? (text : Text) : Option (Text × Text) :=
  match text with
  | '"' :: '"' :: '"' :: rest => basicLinesUpTo text.length ((afterNewline? rest).getD rest)
  | '\'' :: '\'' :: '\'' :: rest => literalLinesUpTo text.length ((afterNewline? rest).getD rest)
  | _ => lineString? text

/-- Digits in a base, with single underscores between them, and the text behind them. -/
def digitsUpTo (base : Nat) : Nat → Text → Option (List Nat × Text)
  | 0, _ => none
  | limit + 1, text =>
    match text with
    | [] => none
    | c :: rest => do
      let digit ← digitValue? base c
      match rest with
      | '_' :: behind => do
        let (more, rest) ← digitsUpTo base limit behind
        pure (digit :: more, rest)
      | next :: _ =>
        if (digitValue? base next).isSome then do
          let (more, rest) ← digitsUpTo base limit rest
          pure (digit :: more, rest)
        else some ([digit], rest)
      | [] => some ([digit], [])

/-- Digits in a base. -/
def digits? (base : Nat) (text : Text) : Option (List Nat × Text) :=
  digitsUpTo base text.length text

/-- The number that digits stand for. -/
def number (base : Nat) (digits : List Nat) : Nat :=
  digits.foldl (fun value digit => base * value + digit) 0

/-- An integer that fits into 64 bits with its sign. -/
def fitting? (value : Int) : Option Int :=
  let bound : Int := Nat.pow 2 63
  if -bound ≤ value ∧ value < bound then some value else none

/-- The sign of a number, and the text behind it. -/
def sign : Text → Int × Text
  | '+' :: rest => (1, rest)
  | '-' :: rest => (-1, rest)
  | text => (1, text)

/-- The digits of a decimal integer, which has no zeros before other digits. -/
def decimalDigits? (text : Text) : Option (List Nat × Text) :=
  match text with
  | '0' :: rest =>
    match rest with
    | c :: _ => if c.isDigit || c == '_' then none else some ([0], rest)
    | [] => some ([0], [])
  | _ => digits? 10 text

/-- An integer in another base behind its mark. -/
def basedInteger? (base : Nat) (text : Text) : Option (Int × Text) := do
  let (found, rest) ← digits? base text
  let value ← fitting? (number base found)
  pure (value, rest)

/-- An integer. -/
def integer? (text : Text) : Option (Int × Text) :=
  match text with
  | '0' :: 'x' :: rest => basedInteger? 16 rest
  | '0' :: 'o' :: rest => basedInteger? 8 rest
  | '0' :: 'b' :: rest => basedInteger? 2 rest
  | _ => do
    let (factor, rest) := sign text
    let (found, rest) ← decimalDigits? rest
    let value ← fitting? (factor * number 10 found)
    pure (value, rest)

/-- The exponent of a float, and the text behind it. -/
def exponent? (text : Text) : Option Text :=
  match text with
  | c :: rest =>
    if c == 'e' || c == 'E' then (digits? 10 (sign rest).2).map Prod.snd else none
  | [] => none

/-- The fraction of a float, and the text behind it. -/
def fraction? : Text → Option Text
  | '.' :: rest => (digits? 10 rest).map Prod.snd
  | _ => none

/-- The text behind a float. -/
def float? (text : Text) : Option Text :=
  let unsigned := (sign text).2
  if begins "inf" unsigned || begins "nan" unsigned then some (unsigned.drop 3)
  else do
    let (_, rest) ← decimalDigits? unsigned
    match fraction? rest with
    | some rest => some ((exponent? rest).getD rest)
    | none => exponent? rest

/-- A number of decimal digits, their value and the text behind them. -/
def fixed? (count : Nat) (text : Text) : Option (Nat × Text) :=
  let found := text.take count
  if found.length = count && found.all Char.isDigit then
    some (number 10 (found.map fun c => c.toNat - '0'.toNat), text.drop count)
  else none

/-- The number of days of a month. -/
def monthLength (year month : Nat) : Nat :=
  if month == 2 then
    if (year % 4 == 0 && year % 100 != 0) || year % 400 == 0 then 29 else 28
  else if [4, 6, 9, 11].contains month then 30
  else 31

/-- The text behind a date. -/
def date? (text : Text) : Option Text := do
  let (year, rest) ← fixed? 4 text
  let rest ← after? "-" rest
  let (month, rest) ← fixed? 2 rest
  let rest ← after? "-" rest
  let (day, rest) ← fixed? 2 rest
  if 1 ≤ month && month ≤ 12 && 1 ≤ day && day ≤ monthLength year month then some rest else none

/-- The text behind a time of day. -/
def time? (text : Text) : Option Text := do
  let (hour, rest) ← fixed? 2 text
  let rest ← after? ":" rest
  let (minute, rest) ← fixed? 2 rest
  let rest ← after? ":" rest
  let (second, rest) ← fixed? 2 rest
  if hour ≤ 23 && minute ≤ 59 && second ≤ 60 then
    match rest with
    | '.' :: behind =>
      if (behind.head?.map Char.isDigit).getD false then some (behind.dropWhile Char.isDigit)
      else none
    | _ => some rest
  else none

/-- The text behind the offset of a time, if there is one. -/
def offset (text : Text) : Option Text :=
  match text with
  | 'Z' :: rest => some rest
  | 'z' :: rest => some rest
  | c :: rest =>
    if c == '+' || c == '-' then do
      let (hour, rest) ← fixed? 2 rest
      let rest ← after? ":" rest
      let (minute, rest) ← fixed? 2 rest
      if hour ≤ 23 && minute ≤ 59 then some rest else none
    else some text
  | [] => some []

/-- The text behind a date, a time or both. -/
def datetime? (text : Text) : Option Text :=
  match date? text with
  | some rest =>
    match rest with
    | c :: behind =>
      if c == 'T' || c == 't' then do
        let rest ← time? behind
        offset rest
      else if c == ' ' then
        match time? behind with
        | some rest => offset rest
        | none => some rest
      else some rest
    | [] => some []
  | none => time? text

end Unpacking.Toml
