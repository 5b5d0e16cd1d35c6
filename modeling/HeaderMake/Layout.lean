import HeaderMake.Path

/-!
# Path conventions

The `Layout` of a source tree says which directory holds the library, how sources,
headers and objects are named, which header every unit includes, and where a header that
is missing beside its includer is looked for instead.

That last rule is the `SatelliteTable`: a header missing under a satellite directory is
looked for under the canonical directory of the longest satellite that the path begins
with.
-/

namespace HeaderMake

/-- Satellite directories with the canonical directory of each.  No satellite is listed
twice, so the longest one that a path begins with is unique. -/
structure SatelliteTable where
  entries : List (Text × Text)
  nodup : (entries.map Prod.fst).Nodup

namespace SatelliteTable

/-- The table without satellites. -/
def empty : SatelliteTable := ⟨[], by simp⟩

/-- The table in which `satellite` leads to `canonical`. -/
def insert (table : SatelliteTable) (satellite canonical : Text) : SatelliteTable where
  entries := (satellite, canonical) :: table.entries.filter (·.1 != satellite)
  nodup := by
    rw [List.map_cons, List.nodup_cons]
    constructor
    · simp
    · exact (List.Sublist.map _ List.filter_sublist).nodup table.nodup

/-- The table of a list of satellites; of two entries for one satellite the later
counts. -/
def ofList (entries : List (Text × Text)) : SatelliteTable :=
  entries.foldl (fun table (satellite, canonical) => table.insert satellite canonical) empty

/-- The entry with the longest satellite. -/
def longest? : List (Text × Text) → Option (Text × Text)
  | [] => none
  | entry :: rest =>
    match longest? rest with
    | none => some entry
    | some other => if other.1.length < entry.1.length then some entry else some other

/-- Moves a path from the longest satellite that it begins with to the canonical
directory of that satellite. -/
def relocate? (table : SatelliteTable) (path : Path) : Option Path :=
  (longest? (table.entries.filter fun (satellite, _) => satellite.isPrefixOf path)).map
    fun (satellite, canonical) => canonical ++ path.drop satellite.length

end SatelliteTable

/-- The path conventions of a source tree. -/
structure Layout where
  /-- The library directory, with its slash. -/
  library : Path
  /-- What the name of a source contains. -/
  sourceExtension : Text
  /-- What marks a path as a source; such paths are no prerequisites. -/
  sourceMarker : Text
  /-- The extension of the header that belongs to a library source. -/
  headerExtension : Text
  /-- The extension of an object. -/
  objectExtension : Text
  /-- The header that every unit includes. -/
  bootstrapHeader : Path
  /-- What stands for the library directory in the paths of objects. -/
  buildDirectory : Text
  /-- Where headers missing under satellite directories are looked for. -/
  satellites : SatelliteTable

/-- The conventional layout: the library in `lib/`, and the command line and the tests
as its satellites. -/
def Layout.standard : Layout where
  library := "lib/".toList
  sourceExtension := ".cpp".toList
  sourceMarker := ".c".toList
  headerExtension := ".h".toList
  objectExtension := ".o".toList
  bootstrapHeader := "lib/cxx11emu.h".toList
  buildDirectory := "$(SRCDIR)".toList
  satellites := .ofList [("cli/".toList, "lib/".toList), ("test/".toList, "lib/".toList)]

end HeaderMake
