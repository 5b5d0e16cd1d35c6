import HeaderMake.Toml.Blank

/-!
# Quoted strings and keys

Strings are written between double quotes, with escapes, or between single quotes,
without; between three quotes of a kind they may run over several lines.  Keys are bare
words or one-line strings, joined by dots.

A reader takes the text from where a part begins and gives the part with the text after
it, or nothing where the text is ill-formed.
-/

namespace HeaderMake
namespace Toml

/-- The value of a hexadecimal digit. -/
def hexDigit? (c : Char) : Option Nat :=
  if '0' ≤ c ∧ c ≤ '9' then some (c.toNat - '0'.toNat)
  else if 'a' ≤ c ∧ c ≤ 'f' then some (c.toNat - 'a'.toNat + 10)
  else if 'A' ≤ c ∧ c ≤ 'F' then some (c.toNat - 'A'.toNat + 10)
  else none

/-- Reads a character that is given by `count` hexadecimal digits. -/
def readCodePoint? (count : Nat) (text : Text) : Option (Char × Text) := do
  let digits ← (text.take count).mapM hexDigit?
  let value := digits.foldl (fun value digit => value * 16 + digit) 0
  if digits.length = count ∧ value.isValidChar then
    some (Char.ofNat value, text.drop count)
  else none

/-- Reads what follows the backslash of an escape. -/
def readEscape? : Text → Option (Char × Text)
  | 'b' :: rest => some ('\x08', rest)
  | 't' :: rest => some ('\t', rest)
  | 'n' :: rest => some ('\n', rest)
  | 'f' :: rest => some ('\x0c', rest)
  | 'r' :: rest => some ('\r', rest)
  | 'e' :: rest => some ('\x1b', rest)
  | '"' :: rest => some ('"', rest)
  | '\\' :: rest => some ('\\', rest)
  | 'x' :: rest => readCodePoint? 2 rest
  | 'u' :: rest => readCodePoint? 4 rest
  | 'U' :: rest => readCodePoint? 8 rest
  | _ => none

/-- The text after a backslash that ends a line, with the line ends and the blanks that
follow it. -/
def skipLineEnding? (text : Text) : Option Text :=
  match skipBlanks text with
  | '\n' :: rest => some (skipSpace rest)
  | '\r' :: '\n' :: rest => some (skipSpace rest)
  | _ => none
where
  /-- The text after blanks and line ends. -/
  skipSpace : Text → Text
    | '\r' :: '\n' :: rest => skipSpace rest
    | c :: rest => if isBlank c || c = '\n' then skipSpace rest else c :: rest
    | [] => []

/-- Reads the rest of a one-line string after its opening double quote. -/
def readBasic? : Text → Option (Text × Text)
  | [] => none
  | '"' :: rest => some ([], rest)
  | '\\' :: escape => do
    let (c, rest) ← readEscape? escape
    if _h : rest.length ≤ escape.length then
      let (string, rest) ← readBasic? rest
      return (c :: string, rest)
    else none
  | c :: rest =>
    if isPlain c then do
      let (string, rest) ← readBasic? rest
      return (c :: string, rest)
    else none
termination_by text => text.length
decreasing_by all_goals simp only [List.length_cons]; omega

/-- Reads the rest of a several-line string after its opening double quotes.  Up to two
quotes may stand before the closing ones and belong to the string. -/
def readBasicLines? : Text → Option (Text × Text)
  | [] => none
  | '"' :: '"' :: '"' :: '"' :: '"' :: rest => some (['"', '"'], rest)
  | '"' :: '"' :: '"' :: '"' :: rest => some (['"'], rest)
  | '"' :: '"' :: '"' :: rest => some ([], rest)
  | '\\' :: escape =>
    match skipLineEnding? escape with
    | some rest =>
      if _h : rest.length ≤ escape.length then readBasicLines? rest else none
    | none => do
      let (c, rest) ← readEscape? escape
      if _h : rest.length ≤ escape.length then
        let (string, rest) ← readBasicLines? rest
        return (c :: string, rest)
      else none
  | '\r' :: '\n' :: rest => do
    let (string, rest) ← readBasicLines? rest
    return ('\r' :: '\n' :: string, rest)
  | c :: rest =>
    if isPlain c || c = '\n' then do
      let (string, rest) ← readBasicLines? rest
      return (c :: string, rest)
    else none
termination_by text => text.length
decreasing_by all_goals simp only [List.length_cons]; omega

/-- Reads the rest of a one-line string after its opening single quote. -/
def readLiteral? : Text → Option (Text × Text)
  | [] => none
  | '\'' :: rest => some ([], rest)
  | c :: rest =>
    if isPlain c then do
      let (string, rest) ← readLiteral? rest
      return (c :: string, rest)
    else none

/-- Reads the rest of a several-line string after its opening single quotes. -/
def readLiteralLines? : Text → Option (Text × Text)
  | [] => none
  | '\'' :: '\'' :: '\'' :: '\'' :: '\'' :: rest => some (['\'', '\''], rest)
  | '\'' :: '\'' :: '\'' :: '\'' :: rest => some (['\''], rest)
  | '\'' :: '\'' :: '\'' :: rest => some ([], rest)
  | '\r' :: '\n' :: rest => do
    let (string, rest) ← readLiteralLines? rest
    return ('\r' :: '\n' :: string, rest)
  | c :: rest =>
    if isPlain c || c = '\n' then do
      let (string, rest) ← readLiteralLines? rest
      return (c :: string, rest)
    else none

/-- A line end directly after the opening quotes of a several-line string is no part of
the string. -/
def dropFirstLineEnd : Text → Text
  | '\n' :: rest => rest
  | '\r' :: '\n' :: rest => rest
  | text => text

/-- Reads a string of any kind. -/
def readString? : Text → Option (Text × Text)
  | '"' :: '"' :: '"' :: rest => readBasicLines? (dropFirstLineEnd rest)
  | '"' :: rest => readBasic? rest
  | '\'' :: '\'' :: '\'' :: rest => readLiteralLines? (dropFirstLineEnd rest)
  | '\'' :: rest => readLiteral? rest
  | _ => none

/-- The characters of a bare key. -/
def isBareKey (c : Char) : Bool :=
  c.isAlphanum || c == '_' || c == '-'

/-- Reads one key: a bare word or a one-line string. -/
def readKey? : Text → Option (Text × Text)
  | '"' :: rest => readBasic? rest
  | '\'' :: rest => readLiteral? rest
  | text =>
    let bare := text.takeWhile isBareKey
    if bare.isEmpty then none else some (bare, text.dropWhile isBareKey)

/-- Reads keys joined by dots, with blanks around the dots. -/
def readKeys? (text : Text) : Option (List Text × Text) := do
  let (key, rest) ← readKey? text
  match skipBlanks rest with
  | '.' :: rest =>
    let rest := skipBlanks rest
    if _h : rest.length < text.length then
      let (keys, rest) ← readKeys? rest
      return (key :: keys, rest)
    else none
  | _ => return ([key], rest)
termination_by text.length

end Toml
end HeaderMake
