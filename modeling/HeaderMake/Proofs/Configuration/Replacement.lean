import HeaderMake.Proofs.Configuration.Overlay
import Mathlib.Data.List.Nodup

/-!
# Collections that are replaced

The groups, the order of the object lists and the satellite table are collections.  A
document that writes one of them replaces all of it, and an entry for one of them changes
no other field: setting the entry in a document that fits sets this field of its
configuration, and nothing else.
-/

namespace HeaderMake

open Toml (Entries Value)

/-! ## Setting an entry -/

theorem lookup_replaced (entries : Entries) (key : Text) (value : Value)
    (other : Text) :
    (entries.map fun (name, old) =>
      if name = key then (name, value) else (name, old)).lookup other =
        (entries.lookup other).map fun old =>
          if other = key then value else old := by
  induction entries with
  | nil => rfl
  | cons entry entries ih =>
      obtain ⟨name, old⟩ := entry
      have hentry : (if name = key then (name, value) else (name, old)) =
          (name, if name = key then value else old) := by
        split <;> rfl
      rw [List.map_cons]
      simp only [hentry, List.lookup_cons, ih]
      by_cases hname : other = name
      · subst hname
        simp only [beq_self_eq_true, Option.map_some]
      · simp only [beq_false_of_ne hname]

theorem lookup_set (entries : Entries) (key : Text) (value : Value)
    (other : Text) :
    (entries.set key value).lookup other =
      if other = key then some value else entries.lookup other := by
  unfold Entries.set
  split
  · next hsome =>
    rw [lookup_replaced]
    split
    · next heq =>
      obtain ⟨old, hold⟩ := Option.isSome_iff_exists.mp hsome
      rw [heq, hold, Option.map_some]
    · rw [Option.map_id']
  · next hnone =>
    rw [Option.not_isSome_iff_eq_none] at hnone
    rw [List.lookup_append]
    split
    · next heq => rw [heq, hnone, List.lookup_cons_self, Option.none_or]
    · next hne =>
      rw [List.lookup_cons, beq_false_of_ne hne, List.lookup_nil,
        Option.or_none]

theorem overlays_set_self {α : Type} {fields : Entries} {name : String}
    {written : Value} {Writes : Value → α → Prop} {standard value : α} :
    Overlays (fields.set name.toList written) name Writes standard value ↔
      Writes written value := by
  rw [Overlays, lookup_set, if_pos rfl]

theorem overlays_set_of_ne {α : Type} {fields : Entries} {name other : String}
    (h : name ≠ other) {written : Value} {Writes : Value → α → Prop}
    {standard value : α} :
    Overlays (fields.set other.toList written) name Writes standard value ↔
      Overlays fields name Writes standard value := by
  rw [Overlays, lookup_set, if_neg (mt String.toList_inj.mp h), Overlays]

/-! ## Setting a collection -/

theorem Layout.Overlaid.set_satellites {fields : Entries} {layout : Layout}
    (h : Layout.Overlaid fields layout) {written : Value}
    {satellites : SatelliteTable}
    (hwritten : written.WritesSatellites satellites) :
    Layout.Overlaid (fields.set "satellites".toList written)
      { layout with satellites } where
  library := (overlays_set_of_ne (by decide)).mpr h.library
  sourceExtension := (overlays_set_of_ne (by decide)).mpr h.sourceExtension
  sourceMarker := (overlays_set_of_ne (by decide)).mpr h.sourceMarker
  headerExtension := (overlays_set_of_ne (by decide)).mpr h.headerExtension
  objectExtension := (overlays_set_of_ne (by decide)).mpr h.objectExtension
  bootstrapHeader := (overlays_set_of_ne (by decide)).mpr h.bootstrapHeader
  buildDirectory := (overlays_set_of_ne (by decide)).mpr h.buildDirectory
  satellites := overlays_set_self.mpr hwritten

namespace Configuration

variable {fields : Entries} {configuration : Configuration} {written : Value}

theorem Overlaid.set_groups (h : Overlaid fields configuration)
    {groups : List SourceGroup}
    (hwritten : written.WritesList Value.WritesGroup groups) :
    Overlaid (fields.set "group".toList written)
      { configuration with groups } where
  makefile := (overlays_set_of_ne (by decide)).mpr h.makefile
  layout := (overlays_set_of_ne (by decide)).mpr h.layout
  groups := overlays_set_self.mpr hwritten
  objectLists := (overlays_set_of_ne (by decide)).mpr h.objectLists
  flags := (overlays_set_of_ne (by decide)).mpr h.flags
  listing := (overlays_set_of_ne (by decide)).mpr h.listing

theorem Overlaid.set_objectLists (h : Overlaid fields configuration)
    {objectLists : List Text}
    (hwritten : written.WritesList Value.WritesText objectLists) :
    Overlaid (fields.set "object_lists".toList written)
      { configuration with objectLists } where
  makefile := (overlays_set_of_ne (by decide)).mpr h.makefile
  layout := (overlays_set_of_ne (by decide)).mpr h.layout
  groups := (overlays_set_of_ne (by decide)).mpr h.groups
  objectLists := overlays_set_self.mpr hwritten
  flags := (overlays_set_of_ne (by decide)).mpr h.flags
  listing := (overlays_set_of_ne (by decide)).mpr h.listing

theorem Overlaid.set_layout (h : Overlaid fields configuration)
    {layout : Layout} (hwritten : written.WritesLayout layout) :
    Overlaid (fields.set "layout".toList written)
      { configuration with layout } where
  makefile := (overlays_set_of_ne (by decide)).mpr h.makefile
  layout := overlays_set_self.mpr hwritten
  groups := (overlays_set_of_ne (by decide)).mpr h.groups
  objectLists := (overlays_set_of_ne (by decide)).mpr h.objectLists
  flags := (overlays_set_of_ne (by decide)).mpr h.flags
  listing := (overlays_set_of_ne (by decide)).mpr h.listing

/-- The table that a record has for the layout, or an empty one, overlays the layout. -/
theorem Overlaid.layout_overlaid (h : Overlaid fields configuration)
    {origin : Toml.TableOrigin} {layoutFields : Entries}
    (hfields : (fields.lookup "layout".toList).getD (.table origin []) =
      .table origin layoutFields) :
    Layout.Overlaid layoutFields configuration.layout := by
  have hlayout := h.layout
  unfold Overlays at hlayout
  cases hlookup : fields.lookup "layout".toList with
  | none =>
      rw [hlookup] at hfields hlayout
      obtain rfl : [] = layoutFields := (Value.table.inj hfields).2
      change configuration.layout = Layout.standard at hlayout
      rw [hlayout]
      exact ⟨rfl, rfl, rfl, rfl, rfl, rfl, rfl, rfl⟩
  | some value =>
      rw [hlookup] at hfields hlayout
      obtain rfl : value = .table origin layoutFields := hfields
      obtain ⟨_, hsame, hoverlaid⟩ := hlayout
      obtain rfl : layoutFields = _ := Option.some.inj hsame
      exact hoverlaid

/-- If an entry for a collection is set in the record that writes a configuration, the
record writes the configuration with that collection in place of its own. -/
structure ReplacesCollections (origin : Toml.TableOrigin) (fields : Entries)
    (configuration : Configuration) : Prop where
  groups : ∀ (written : Value) (groups : List SourceGroup),
    written.WritesList Value.WritesGroup groups →
    ofValue? (.table origin (fields.set "group".toList written)) =
      some { configuration with groups }
  objectLists : ∀ (written : Value) (objectLists : List Text),
    written.WritesList Value.WritesText objectLists →
    ofValue? (.table origin (fields.set "object_lists".toList written)) =
      some { configuration with objectLists }
  satellites : ∀ (written : Value) (satellites : SatelliteTable),
    written.WritesSatellites satellites →
    ∀ (layoutOrigin : Toml.TableOrigin) (layoutFields : Entries),
      (fields.lookup "layout".toList).getD (.table layoutOrigin []) =
        .table layoutOrigin layoutFields →
      ofValue? (.table origin (fields.set "layout".toList
        (.table layoutOrigin
          (layoutFields.set "satellites".toList written)))) =
        some { configuration with
          layout := { configuration.layout with satellites } }

theorem replacesCollections (origin : Toml.TableOrigin)
    (h : Overlaid fields configuration) :
    ReplacesCollections origin fields configuration where
  groups _ _ hwritten :=
    ofValue?_eq_some_iff.mpr ⟨_, rfl, h.set_groups hwritten⟩
  objectLists _ _ hwritten :=
    ofValue?_eq_some_iff.mpr ⟨_, rfl, h.set_objectLists hwritten⟩
  satellites _ _ hwritten _ _ hfields :=
    ofValue?_eq_some_iff.mpr ⟨_, rfl, h.set_layout
      ⟨_, rfl, (h.layout_overlaid hfields).set_satellites hwritten⟩⟩

end Configuration

/-! ## The entries of a satellite table -/

theorem SatelliteTable.mem_entries_foldl_insert
    {satellites : List (Text × Text)}
    (hnodup : (satellites.map Prod.fst).Nodup) (table : SatelliteTable)
    (entry : Text × Text) :
    entry ∈ (satellites.foldl (fun table (satellite, canonical) =>
        table.insert satellite canonical) table).entries ↔
      entry ∈ satellites ∨
        entry ∈ table.entries ∧ entry.1 ∉ satellites.map Prod.fst := by
  induction satellites generalizing table with
  | nil => simp
  | cons first satellites ih =>
      rw [List.map_cons, List.nodup_cons] at hnodup
      rw [List.foldl_cons, ih hnodup.2]
      have hfirst : entry = first → entry.1 ∉ satellites.map Prod.fst := by
        rintro rfl
        exact hnodup.1
      simp only [insert, List.mem_cons, List.mem_filter, bne_iff_ne,
        List.map_cons, not_or]
      tauto

/-- The satellites of a table that is written without repeated keys are the keys, each
with the text that is written for it. -/
theorem Toml.Value.WritesSatellites.mem_entries_iff
    {origin : Toml.TableOrigin} {entries : Entries} {table : SatelliteTable}
    (h : (Value.table origin entries).WritesSatellites table)
    (hnodup : (entries.map Prod.fst).Nodup) (satellite canonical : Text) :
    (satellite, canonical) ∈ table.entries ↔
      (satellite, Value.string canonical) ∈ entries := by
  obtain ⟨_, satellites, hentries, hall, rfl⟩ := h
  obtain rfl := Option.some.inj hentries
  have hmap : entries = satellites.map fun entry =>
      (entry.1, Value.string entry.2) := by
    clear hnodup hentries
    induction hall with
    | nil => rfl
    | cons hentry _ ih =>
        rw [List.map_cons, ← ih, ← hentry.1, ← hentry.2]
  have hkeys : entries.map Prod.fst = satellites.map Prod.fst := by
    rw [hmap, List.map_map]
    rfl
  rw [hkeys] at hnodup
  rw [SatelliteTable.ofList, SatelliteTable.mem_entries_foldl_insert hnodup,
    hmap]
  simp [SatelliteTable.empty]

end HeaderMake
