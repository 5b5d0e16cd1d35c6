import HeaderMake.Text

/-!
# TOML values

The values of a TOML document.  A table remembers how it came to be, because that
decides what may still be added to it: a table written inline is closed, one opened by
its own header cannot be opened again, one that a longer header passed through may still
get a header, and one made by a dotted key is extended by dotted keys only.

Numbers that no configuration uses are kept by value or by their text; dates are kept in
one normal form.
-/

namespace HeaderMake
namespace Toml

/-- How a table came to be. -/
inductive TableOrigin
  /-- The table has a header of its own, or is the whole document. -/
  | header
  /-- A longer header passes through the table. -/
  | passedThrough
  /-- A dotted key passes through the table. -/
  | dotted
  /-- The table is written between braces. -/
  | braces
  deriving DecidableEq

/-- A value of a document. -/
inductive Value
  | string (text : Text)
  | integer (value : Int)
  | float (text : Text)
  | boolean (value : Bool)
  | datetime (text : Text)
  /-- An array written between brackets. -/
  | array (items : List Value)
  /-- The tables of an array of tables, each opened by its own header. -/
  | tables (elements : List (List (Text × Value)))
  | table (origin : TableOrigin) (entries : List (Text × Value))
  deriving Inhabited

/-- The entries of a table, in the order in which their keys appear. -/
abbrev Entries := List (Text × Value)

/-- The entries with `value` under the key, in place of what stood there. -/
def Entries.set (entries : Entries) (key : Text) (value : Value) : Entries :=
  if (entries.lookup key).isSome then
    entries.map fun (other, old) => if other = key then (other, value) else (other, old)
  else entries ++ [(key, value)]

end Toml
end HeaderMake
