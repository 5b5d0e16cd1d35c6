import HeaderMake.Toml.Value

/-!
# Building tables

A document is a list of statements: pairs of a key and a value, and headers that say
which table the following pairs belong to.  `Entries.ofStatements?` builds the table of a
document from its statements and refuses those that define something twice or add to
something closed.
-/

namespace HeaderMake
namespace Toml

/-- One statement of a document. -/
inductive Statement
  /-- A value for `key`, below the keys of `path`. -/
  | pair (path : List Text) (key : Text) (value : Value)
  /-- The header of a table. -/
  | header (path : List Text)
  /-- The header of one more table in an array of tables. -/
  | element (path : List Text)

/-- Adds a pair to a table.  The keys of `path` lead through tables made by dotted keys,
which come into being as needed, and the table that the pair is added to must be such a
table exactly when the path is not empty.  A key that is there already is not set
again. -/
def Entries.insertPair? (undotted : Bool) (origin : TableOrigin) (entries : Entries)
    (key : Text) (value : Value) : (path : List Text) → Option Entries
  | [] =>
    if decide (origin = .dotted) = undotted then none
    else if (entries.lookup key).isSome then none
    else some (entries ++ [(key, value)])
  | step :: path =>
    match entries.lookup step with
    | none =>
      (insertPair? false .dotted [] key value path).map fun inner =>
        entries ++ [(step, .table .dotted inner)]
    | some (.table inside inner) =>
      if inside = .dotted ∨ inside = .passedThrough then
        (insertPair? false inside inner key value path).map fun inner =>
          entries.set step (.table inside inner)
      else none
    | some (.tables elements) =>
      match elements.getLast? with
      | some inner =>
        (insertPair? false .header inner key value path).map fun inner =>
          entries.set step (.tables (elements.dropLast ++ [inner]))
      | none => none
    | some _ => none

/-- Changes what stands under the last key of a header.  The other keys lead through
tables that are not written inline, and to the last table of an array of tables; tables
that are missing on the way come into being. -/
def Entries.atHeader? (change : Option Value → Option Value) :
    (path : List Text) → (entries : Entries) → Option Entries
  | [], _ => none
  | [key], entries => (change (entries.lookup key)).map (entries.set key)
  | step :: path, entries =>
    match entries.lookup step with
    | none =>
      (atHeader? change path []).map fun inner =>
        entries ++ [(step, .table .passedThrough inner)]
    | some (.table origin inner) =>
      if origin = .braces then none
      else (atHeader? change path inner).map fun inner => entries.set step (.table origin inner)
    | some (.tables elements) =>
      match elements.getLast? with
      | some inner =>
        (atHeader? change path inner).map fun inner =>
          entries.set step (.tables (elements.dropLast ++ [inner]))
      | none => none
    | some _ => none

/-- What a header makes of the value under its key: a new table, or a table that so far
was only passed through. -/
def openTable : Option Value → Option Value
  | none => some (.table .header [])
  | some (.table .passedThrough entries) => some (.table .header entries)
  | some _ => none

/-- What the header of one more table makes of the value under its key. -/
def openElement : Option Value → Option Value
  | none => some (.tables [[]])
  | some (.tables elements) => some (.tables (elements ++ [[]]))
  | some _ => none

/-- Adds a pair to the table under the last key of the header before it. -/
def addPair (path : List Text) (key : Text) (value : Value) : Option Value → Option Value
  | some (.table origin entries) =>
    (Entries.insertPair? path.isEmpty origin entries key value path).map (.table origin)
  | some (.tables elements) =>
    match elements.getLast? with
    | some entries =>
      (Entries.insertPair? path.isEmpty .header entries key value path).map fun entries =>
        .tables (elements.dropLast ++ [entries])
    | none => none
  | _ => none

/-- Adds the statements to the entries of a document.  `current` is the path of the last
header, and is empty before the first. -/
def Entries.addStatements? (entries : Entries) (current : List Text) :
    List Statement → Option Entries
  | [] => some entries
  | .pair path key value :: rest => do
    let entries ←
      if current.isEmpty then entries.insertPair? path.isEmpty .header key value path
      else entries.atHeader? (addPair path key value) current
    entries.addStatements? current rest
  | .header path :: rest => do
    (← entries.atHeader? openTable path).addStatements? path rest
  | .element path :: rest => do
    (← entries.atHeader? openElement path).addStatements? path rest

/-- The table of a document. -/
def Entries.ofStatements? (statements : List Statement) : Option Entries :=
  Entries.addStatements? [] [] statements

end Toml
end HeaderMake
