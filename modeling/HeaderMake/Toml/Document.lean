import HeaderMake.Toml.Quoted
import HeaderMake.Toml.Scalar
import HeaderMake.Toml.Table

/-!
# TOML documents

Reading a document: values, statements, and the table that the statements build.  Arrays
and inline tables may hold each other to a depth of `maxDepth`.
-/

namespace HeaderMake
namespace Toml

/-- How deep arrays and inline tables may be nested. -/
def maxDepth : Nat := 80

/-- Reads the items of an array after its opening bracket. -/
def readItems? (readItem? : Text → Option (Value × Text)) (text : Text) :
    Option (List Value × Text) := do
  match ← skipFiller? false text with
  | ']' :: rest => return ([], rest)
  | item =>
    let (value, rest) ← readItem? item
    match ← skipFiller? false rest with
    | ',' :: rest =>
      if _h : rest.length < text.length then
        let (values, rest) ← readItems? readItem? rest
        return (value :: values, rest)
      else none
    | ']' :: rest => return ([value], rest)
    | _ => none
termination_by text.length

/-- Reads dotted keys and the value they are given: the keys that lead to the last one,
the last key, and the value. -/
def readPair? (readItem? : Text → Option (Value × Text)) (text : Text) :
    Option ((List Text × Text × Value) × Text) := do
  let (keys, rest) ← readKeys? text
  match skipBlanks rest with
  | '=' :: rest =>
    let (value, rest) ← readItem? (skipBlanks rest)
    return ((keys.dropLast, ← keys.getLast?, value), rest)
  | _ => none

/-- Reads the pairs of an inline table after its opening brace. -/
def readPairs? (readItem? : Text → Option (Value × Text)) (text : Text) :
    Option (List Statement × Text) := do
  match ← skipFiller? false text with
  | '\x7d' :: rest => return ([], rest)
  | pair =>
    let ((path, key, value), rest) ← readPair? readItem? pair
    match ← skipFiller? false rest with
    | ',' :: rest =>
      if _h : rest.length < text.length then
        let (pairs, rest) ← readPairs? readItem? rest
        return (.pair path key value :: pairs, rest)
      else none
    | '\x7d' :: rest => return ([.pair path key value], rest)
    | _ => none
termination_by text.length

/-- Reads a value in which arrays and inline tables are nested at most `depth` deep. -/
def readValue? (depth : Nat) (text : Text) : Option (Value × Text) :=
  match text with
  | '"' :: _ => (readString? text).map fun (string, rest) => (.string string, rest)
  | '\'' :: _ => (readString? text).map fun (string, rest) => (.string string, rest)
  | '[' :: rest =>
    match depth with
    | 0 => none
    | depth + 1 => do
      let (items, rest) ← readItems? (readValue? depth) rest
      return (.array items, rest)
  | '\x7b' :: rest =>
    match depth with
    | 0 => none
    | depth + 1 => do
      let (pairs, rest) ← readPairs? (readValue? depth) rest
      return (.table .braces (← Entries.ofStatements? pairs), rest)
  | _ => readScalar? text

/-- Reads the header of a table or of one more table in an array of tables. -/
def readHeader? (text : Text) : Option (Statement × Text) :=
  match text with
  | '[' :: '[' :: rest => do
    let (path, rest) ← readKeys? (skipBlanks rest)
    return (.element path, ← Text.dropLeading? "]]".toList (skipBlanks rest))
  | '[' :: rest => do
    let (path, rest) ← readKeys? (skipBlanks rest)
    return (.header path, ← Text.dropLeading? "]".toList (skipBlanks rest))
  | _ => none

/-- Reads a statement. -/
def readStatement? (text : Text) : Option (Statement × Text) :=
  match text with
  | '[' :: _ => readHeader? text
  | _ => do
    let ((path, key, value), rest) ← readPair? (readValue? maxDepth) text
    return (.pair path key value, rest)

/-- Reads the statements of a document, each of which ends its line. -/
def readStatements? (text : Text) : Option (List Statement) := do
  match ← skipFiller? false text with
  | [] => return []
  | text' =>
    let (statement, rest) ← readStatement? text'
    let rest ← statementEnd? rest
    if _h : rest.length < text.length then
      return statement :: (← readStatements? rest)
    else none
termination_by text.length

/-- The table of a document, if it is one.  A byte order mark at the beginning is
skipped. -/
def parse? (text : Text) : Option Value := do
  let text := if text.head? = some '\uFEFF' then text.tail else text
  return .table .header (← Entries.ofStatements? (← readStatements? text))

end Toml
end HeaderMake
