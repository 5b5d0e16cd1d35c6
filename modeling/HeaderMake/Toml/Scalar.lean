import HeaderMake.Toml.Blank
import HeaderMake.Toml.Value

/-!
# Numbers, booleans and dates

A value that is neither quoted nor bracketed is one word.  The word is a boolean, an
integer, a floating-point number or a date and time; each kind has a grammar of its own,
and no word belongs to two of them.

A number that is too large is refused wherever it stands, also under a key that nothing
reads: an integer has to fit into 128 bits, and a floating-point number must not be
rounded to infinity.
-/

namespace HeaderMake
namespace Toml

/-- Digits with single underscores between them. -/
def areDigits (isDigit : Char → Bool) : Text → Bool
  | [] => false
  | [c] => isDigit c
  | c :: '_' :: rest => isDigit c && areDigits isDigit rest
  | c :: rest => isDigit c && areDigits isDigit rest

/-- Decimal digits with single underscores between them, without a leading zero. -/
def isWhole (word : Text) : Bool :=
  areDigits Char.isDigit word && (word.head? != some '0' || word.length == 1)

/-- The word without the sign at its beginning. -/
def dropSign : Text → Text
  | '+' :: rest => rest
  | '-' :: rest => rest
  | word => word

/-- The value of digits to a base, underscores left out. -/
def digitsValue (base : Nat) (digits : Text) : Nat :=
  (digits.filter (· != '_')).foldl (fun value c =>
    value * base +
      (if c.isDigit then c.toNat - '0'.toNat
        else if c.isLower then c.toNat - 'a'.toNat + 10
        else c.toNat - 'A'.toNat + 10)) 0

/-- The hexadecimal digits. -/
def isHexDigit (c : Char) : Bool :=
  c.isDigit || ('a' ≤ c && c ≤ 'f') || ('A' ≤ c && c ≤ 'F')

/-- The integer that a word writes, to base ten with an optional sign, or to one of the
marked bases without. -/
def integer? (word : Text) : Option Int :=
  match word with
  | '0' :: 'x' :: digits =>
    if areDigits isHexDigit digits then some (digitsValue 16 digits) else none
  | '0' :: 'o' :: digits =>
    if areDigits (fun c => '0' ≤ c && c ≤ '7') digits then some (digitsValue 8 digits) else none
  | '0' :: 'b' :: digits =>
    if areDigits (fun c => c == '0' || c == '1') digits then some (digitsValue 2 digits)
    else none
  | _ =>
    if isWhole (dropSign word) then
      let magnitude : Int := digitsValue 10 (dropSign word)
      some (if word.head? = some '-' then -magnitude else magnitude)
    else none

/-- Whether a word is the exponent of a floating-point number, without its mark. -/
def isExponent (word : Text) : Bool :=
  areDigits Char.isDigit (dropSign word)

/-- Whether a word writes a floating-point number: a special value, or a whole part with
a fraction, an exponent, or both. -/
def isFloat (word : Text) : Bool :=
  let word := dropSign word
  let mantissa := word.takeWhile fun c => c != 'e' && c != 'E'
  let exponent := word.drop mantissa.length
  let exponentFits := exponent.isEmpty || isExponent exponent.tail
  word == "inf".toList || word == "nan".toList ||
    match Text.cutAt? ['.'] mantissa with
    | some (whole, fraction) =>
      isWhole whole && areDigits Char.isDigit fraction && exponentFits
    | none => isWhole mantissa && !exponent.isEmpty && exponentFits

/-- Whether an integer can be held in 128 bits, with a sign or without. -/
def integerFits (value : Int) : Bool :=
  -Nat.pow 2 127 ≤ value && value < Nat.pow 2 128

/-- The least number that double precision rounds to infinity: it lies halfway between the
greatest finite number and the power of two above. -/
def floatLimit : Nat := (Nat.pow 2 54 - 1) * Nat.pow 2 970

/-- Whether the number that a word writes is finite in double precision, or is written as
infinite.  Only where its size comes close to the limit is the number worked out, since
the exponent may be of any length. -/
def floatFits (word : Text) : Bool :=
  let word := dropSign word
  let mantissa := word.takeWhile fun c => c != 'e' && c != 'E'
  let exponent := word.drop (mantissa.length + 1)
  let (whole, fraction) := (Text.cutAt? ['.'] mantissa).getD (mantissa, [])
  let digits := (whole ++ fraction).filter (· != '_')
  let value := digitsValue 10 digits
  let power : Int := digitsValue 10 (dropSign exponent)
  let power := if exponent.head? = some '-' then -power else power
  let scale := power - (fraction.filter (· != '_')).length
  -- The number is `value * 10 ^ scale`, less than `10 ^ size` and no less than a tenth.
  let size := (digits.dropWhile (· == '0')).length + scale
  word == "inf".toList || word == "nan".toList || value == 0 || size < 309 ||
    size == 309 &&
      value * Nat.pow 10 scale.toNat < floatLimit * Nat.pow 10 (-scale).toNat

/-- The number that exactly `count` digits write. -/
def fixedDigits? (count : Nat) (word : Text) : Option (Nat × Text) :=
  let digits := word.take count
  if digits.length = count ∧ digits.all Char.isDigit then
    some (digitsValue 10 digits, word.drop count)
  else none

/-- The number of days in a month. -/
def daysIn (year month : Nat) : Nat :=
  if month = 2 then
    if year % 4 = 0 ∧ (year % 100 ≠ 0 ∨ year % 400 = 0) then 29 else 28
  else if month = 4 ∨ month = 6 ∨ month = 9 ∨ month = 11 then 30
  else 31

/-- Reads the date at the beginning of a word. -/
def readDate? (word : Text) : Option (Text × Text) := do
  let (year, rest) ← fixedDigits? 4 word
  let (month, rest) ← fixedDigits? 2 (← Text.dropLeading? ['-'] rest)
  let (day, rest) ← fixedDigits? 2 (← Text.dropLeading? ['-'] rest)
  if 1 ≤ month ∧ month ≤ 12 ∧ 1 ≤ day ∧ day ≤ daysIn year month then
    some (word.take 10, rest)
  else none

/-- The fraction of a second in normal form: nine digits at most, without the zeros at
the end, but not without any digit. -/
def normalFraction (digits : Text) : Text :=
  let significant := ((digits.take 9).reverse.dropWhile (· == '0')).reverse
  if significant.isEmpty then ['0'] else significant

/-- Reads the time at the beginning of a word.  The seconds may be left out, and then so
is the fraction. -/
def readTime? (word : Text) : Option (Text × Text) := do
  let (hour, rest) ← fixedDigits? 2 word
  let (minute, rest) ← fixedDigits? 2 (← Text.dropLeading? [':'] rest)
  if 23 < hour ∨ 59 < minute then none
  else match rest with
    | ':' :: rest => do
      let (second, rest) ← fixedDigits? 2 rest
      if 60 < second then none
      else match rest with
        | '.' :: rest =>
          let digits := rest.takeWhile Char.isDigit
          if digits.isEmpty then none
          else some (word.take 8 ++ '.' :: normalFraction digits, rest.drop digits.length)
        | _ => some (word.take 8, rest)
    | _ => some (word.take 5, rest)

/-- The offset that a word writes, in normal form; nothing stands for no offset. -/
def offset? (word : Text) : Option Text :=
  match word with
  | [] => some []
  | ['Z'] => some ['Z']
  | ['z'] => some ['Z']
  | sign :: digits =>
    if sign = '+' ∨ sign = '-' then do
      let (hour, rest) ← fixedDigits? 2 digits
      let (minute, rest) ← fixedDigits? 2 (← Text.dropLeading? [':'] rest)
      if rest.isEmpty ∧ hour ≤ 23 ∧ minute ≤ 59 then
        some (if hour = 0 ∧ minute = 0 then "+00:00".toList else word)
      else none
    else none

/-- The date, the time, or both that a word writes, in normal form. -/
def datetime? (word : Text) : Option Text :=
  match readDate? word with
  | some (date, []) => some date
  | some (date, separator :: rest) =>
    if separator = 'T' ∨ separator = 't' ∨ separator = ' ' then do
      let (time, rest) ← readTime? rest
      return date ++ 'T' :: time ++ (← offset? rest)
    else none
  | none => do
    let (time, rest) ← readTime? word
    if rest.isEmpty then some time else none

/-- The value that a word writes. -/
def scalar? (word : Text) : Option Value :=
  if word = "true".toList then some (.boolean true)
  else if word = "false".toList then some (.boolean false)
  else match integer? word with
    | some value => if integerFits value then some (.integer value) else none
    | none =>
      if isFloat word then
        if floatFits word then some (.float word) else none
      else (datetime? word).map .datetime

/-- The characters that end a word. -/
def endsWord (c : Char) : Bool :=
  isBlank c || c == '\n' || c == '\r' || c == ',' || c == ']' || c == '\x7d' || c == '#'

/-- Reads a word with its value.  One blank between a date and a time belongs to the
word. -/
def readScalar? (text : Text) : Option (Value × Text) := do
  let word := text.takeWhile (!endsWord ·)
  let rest := text.drop word.length
  match readDate? word, rest with
  | some (_, []), ' ' :: c :: _ =>
    if c.isDigit then
      let time := rest.tail.takeWhile (!endsWord ·)
      let value ← scalar? (word ++ ' ' :: time)
      return (value, rest.tail.drop time.length)
    else return (← scalar? word, rest)
  | _, _ => return (← scalar? word, rest)

end Toml
end HeaderMake
