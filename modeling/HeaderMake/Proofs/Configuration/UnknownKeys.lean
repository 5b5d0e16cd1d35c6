import HeaderMake.Configuration.Decode
import Mathlib.Data.List.Nodup
import Mathlib.Logic.Relation

/-!
# Keys that no field has

A `Shape` tells where the tables of a document are read as records, and which fields these
have.  `AddsKey` relates two documents of which the second has one key more, in a record
at any depth and under a name that none of its fields has.

A document of the shape of a configuration is read alike with and without such keys
(`Configuration.ofValue?_eq_of_addsKeys`): each reader ignores the keys that its own
shape does not hold (`Ignores`), and so does a reader that is made up of such readers.
-/

namespace HeaderMake

open Toml (Entries Value)

/-! ## Shapes -/

/-- How a value is read. -/
inductive Shape
  /-- The value is read as a whole, with all of its keys. -/
  | whole
  /-- The value is an array of items of one shape. -/
  | list (items : Shape)
  /-- The value is a record with these fields. -/
  | record (fields : List (String × Shape))

/-- The names of the fields whose values are read as a whole. -/
def Shape.wholeNames (fields : List (String × Shape)) : List String :=
  fields.filterMap fun
    | (name, .whole) => some name
    | _ => none

/-- The second value has one key more than the first one, in a record of the shape that
has no field of this name. -/
inductive AddsKey : Shape → Value → Value → Prop
  /-- The key is added to the record itself. -/
  | here {fields : List (String × Shape)} {key : Text}
      (hkey : ∀ name ∈ fields.map Prod.fst, name.toList ≠ key)
      (origin : Toml.TableOrigin) (start rest : Entries) (value : Value) :
      AddsKey (.record fields) (.table origin (start ++ rest))
        (.table origin (start ++ (key, value) :: rest))
  /-- The key is added to the value of a field. -/
  | field {fields : List (String × Shape)} {name : String} {shape : Shape}
      (hfield : (name, shape) ∈ fields) {value value' : Value}
      (h : AddsKey shape value value')
      (origin : Toml.TableOrigin) (start rest : Entries) :
      AddsKey (.record fields)
        (.table origin (start ++ (name.toList, value) :: rest))
        (.table origin (start ++ (name.toList, value') :: rest))
  /-- The key is added to an item of an array. -/
  | item {shape : Shape} {item item' array array' : Value}
      (h : AddsKey shape item item') (start rest : List Value)
      (hitems : array.items? = some (start ++ item :: rest))
      (hitems' : array'.items? = some (start ++ item' :: rest)) :
      AddsKey (.list shape) array array'

/-- A reader does not see keys that are added to values of the shape. -/
def Ignores {α : Type} (read? : Value → Option α) (shape : Shape) : Prop :=
  ∀ value value', AddsKey shape value value' → read? value' = read? value

theorem ignores_whole {α : Type} (read? : Value → Option α) :
    Ignores read? .whole := by
  rintro _ _ ⟨⟩

theorem Ignores.listOf? {α : Type} {read? : Value → Option α} {shape : Shape}
    (h : Ignores read? shape) :
    Ignores (Value.listOf? read?) (.list shape) := by
  rintro array array' (_ | _ | ⟨hitem, start, rest, hitems, hitems'⟩)
  simp only [Value.listOf?, hitems, hitems', Option.bind_eq_bind,
    Option.bind_some, List.mapM_append, List.mapM_cons, h _ _ hitem]

/-! ## Records -/

theorem lookup_append_cons_of_ne {start rest : Entries} {key other : Text}
    (h : other ≠ key) (value : Value) :
    (start ++ (key, value) :: rest).lookup other =
      (start ++ rest).lookup other := by
  have hkey : (other == key) = false := beq_false_of_ne h
  rw [List.lookup_append, List.lookup_append, List.lookup_cons, hkey]

/-- What a reader gives for the field of a record, or the standard value. -/
theorem fieldOr_eq_getD {α : Type} (fields : Entries) (name : String)
    (read? : Value → Option α) (standard : α) :
    fieldOr fields name read? standard =
      ((fields.lookup name.toList).map read?).getD (some standard) := by
  rw [fieldOr]
  cases fields.lookup name.toList with
  | none => rfl
  | some value => rfl

/-- The two records have the same fields, as far as readers of these see. -/
def SameFields (fields : List (String × Shape)) (entries entries' : Entries) :
    Prop :=
  ∀ name shape, (name, shape) ∈ fields →
    ∀ {α : Type} (read? : Value → Option α), Ignores read? shape →
      (entries'.lookup name.toList).map read? =
        (entries.lookup name.toList).map read?

/-- A key that is added to a record leaves its fields as they are. -/
theorem AddsKey.exists_sameFields {fields : List (String × Shape)}
    (hnodup : (fields.map Prod.fst).Nodup) {value value' : Value}
    (h : AddsKey (.record fields) value value') :
    ∃ origin entries entries', value = .table origin entries ∧
      value' = .table origin entries' ∧
      SameFields fields entries entries' := by
  rcases h with ⟨hkey, origin, start, rest, added⟩ |
    ⟨hfield, hadds, origin, start, rest⟩
  · refine ⟨origin, _, _, rfl, rfl, ?_⟩
    intro name shape hmem α read? _
    rw [lookup_append_cons_of_ne (hkey name (List.mem_map_of_mem hmem))]
  · next changed changedShape old new =>
    refine ⟨origin, _, _, rfl, rfl, ?_⟩
    intro name shape hmem α read? hignores
    by_cases hname : name = changed
    · -- The names are distinct, so this is the field whose value has the key.
      subst hname
      obtain rfl : shape = changedShape := congrArg Prod.snd
        (List.inj_on_of_nodup_map hnodup hmem hfield rfl)
      rw [List.lookup_append, List.lookup_append, List.lookup_cons_self,
        List.lookup_cons_self]
      cases start.lookup name.toList with
      | some found => rfl
      | none => exact congrArg some (hignores _ _ hadds)
    · have hne : name.toList ≠ changed.toList :=
        mt String.toList_inj.mp hname
      rw [lookup_append_cons_of_ne hne, lookup_append_cons_of_ne hne]

theorem mem_of_mem_wholeNames {fields : List (String × Shape)} {name : String}
    (h : name ∈ Shape.wholeNames fields) : (name, Shape.whole) ∈ fields := by
  obtain ⟨⟨other, shape⟩, hmem, heq⟩ := List.mem_filterMap.mp h
  cases shape <;> cases heq
  exact hmem

namespace SameFields

variable {fields : List (String × Shape)} {entries entries' : Entries}
  {name : String}

theorem fieldOr_eq (h : SameFields fields entries entries') {shape : Shape}
    (hmem : (name, shape) ∈ fields) {α : Type} {read? : Value → Option α}
    (hignores : Ignores read? shape) (standard : α) :
    fieldOr entries' name read? standard =
      fieldOr entries name read? standard := by
  rw [fieldOr_eq_getD, fieldOr_eq_getD, h name shape hmem read? hignores]

theorem fieldOr_whole (h : SameFields fields entries entries')
    (hmem : name ∈ Shape.wholeNames fields) {α : Type}
    (read? : Value → Option α) (standard : α) :
    fieldOr entries' name read? standard =
      fieldOr entries name read? standard :=
  h.fieldOr_eq (mem_of_mem_wholeNames hmem) (ignores_whole read?) standard

theorem lookup_whole (h : SameFields fields entries entries')
    (hmem : name ∈ Shape.wholeNames fields) :
    entries'.lookup name.toList = entries.lookup name.toList :=
  Option.map_injective (fun _ _ => Option.some.inj)
    (h name .whole (mem_of_mem_wholeNames hmem) some (ignores_whole some))

end SameFields

/-! ## The shape of a configuration -/

/-- The fields of a record that are all read as a whole. -/
def Shape.flat (names : List String) : List (String × Shape) :=
  names.map (·, .whole)

/-- A layout is a record of texts and of the satellite table, whose keys all count. -/
def Layout.shape : List (String × Shape) :=
  Shape.flat fieldNames

/-- A group is a record of texts, booleans and a list of texts. -/
def SourceGroup.shape : List (String × Shape) :=
  Shape.flat fieldNames

/-- Flags are a record of texts. -/
def FlagPresets.shape : List (String × Shape) :=
  Shape.flat fieldNames

/-- Listing options are a record of texts. -/
def ListingOptions.shape : List (String × Shape) :=
  Shape.flat fieldNames

/-- How a field of a configuration is read: some fields are records, and the groups are
listed. -/
def Configuration.fieldShape (name : String) : Shape :=
  if name = "layout" then .record Layout.shape
  else if name = "group" then .list (.record SourceGroup.shape)
  else if name = "flags" then .record FlagPresets.shape
  else if name = "listing" then .record ListingOptions.shape
  else .whole

/-- A configuration is a record with records in it. -/
def Configuration.shape : List (String × Shape) :=
  fieldNames.map fun name => (name, fieldShape name)

theorem Configuration.mem_shape {name : String} (h : name ∈ fieldNames) :
    (name, fieldShape name) ∈ Configuration.shape :=
  List.mem_map_of_mem h

theorem Toml.Value.fields?_table (names : List String)
    (origin : Toml.TableOrigin) (entries : Entries) :
    (Value.table origin entries).fields? names = some entries := rfl

theorem Layout.ignores_ofValue? :
    Ignores Layout.ofValue? (.record Layout.shape) := by
  intro value value' h
  obtain ⟨origin, entries, entries', rfl, rfl, hsame⟩ :=
    h.exists_sameFields (by decide)
  -- The fields are read in a row, so they are rewritten in a row, not under the binders.
  dsimp only [Layout.ofValue?, Value.fields?_table, Option.bind_eq_bind,
    Option.bind_some]
  iterate 8 rw [hsame.fieldOr_whole]
  all_goals decide

theorem SourceGroup.ignores_ofValue? :
    Ignores SourceGroup.ofValue? (.record SourceGroup.shape) := by
  intro value value' h
  obtain ⟨origin, entries, entries', rfl, rfl, hsame⟩ :=
    h.exists_sameFields (by decide)
  dsimp only [SourceGroup.ofValue?, Value.fields?_table, Option.bind_eq_bind,
    Option.bind_some]
  rw [hsame.lookup_whole]
  iterate 7 rw [hsame.fieldOr_whole]
  all_goals decide

theorem FlagPresets.ignores_ofValue? :
    Ignores FlagPresets.ofValue? (.record FlagPresets.shape) := by
  intro value value' h
  obtain ⟨origin, entries, entries', rfl, rfl, hsame⟩ :=
    h.exists_sameFields (by decide)
  dsimp only [FlagPresets.ofValue?, Value.fields?_table, Option.bind_eq_bind,
    Option.bind_some]
  iterate 2 rw [hsame.fieldOr_whole]
  all_goals decide

theorem ListingOptions.ignores_ofValue? :
    Ignores ListingOptions.ofValue? (.record ListingOptions.shape) := by
  intro value value' h
  obtain ⟨origin, entries, entries', rfl, rfl, hsame⟩ :=
    h.exists_sameFields (by decide)
  dsimp only [ListingOptions.ofValue?, Value.fields?_table, Option.bind_eq_bind,
    Option.bind_some]
  iterate 5 rw [hsame.fieldOr_whole]
  all_goals decide

theorem Configuration.ignores_ofValue? :
    Ignores Configuration.ofValue? (.record Configuration.shape) := by
  intro value value' h
  obtain ⟨origin, entries, entries', rfl, rfl, hsame⟩ :=
    h.exists_sameFields (by decide)
  have hlayout : ∀ standard,
      fieldOr entries' "layout" Layout.ofValue? standard =
        fieldOr entries "layout" Layout.ofValue? standard :=
    hsame.fieldOr_eq (mem_shape (by decide)) Layout.ignores_ofValue?
  have hgroups : ∀ standard,
      fieldOr entries' "group" (Value.listOf? SourceGroup.ofValue?) standard =
        fieldOr entries "group" (Value.listOf? SourceGroup.ofValue?)
          standard :=
    hsame.fieldOr_eq (mem_shape (by decide))
      SourceGroup.ignores_ofValue?.listOf?
  have hflags : ∀ standard,
      fieldOr entries' "flags" FlagPresets.ofValue? standard =
        fieldOr entries "flags" FlagPresets.ofValue? standard :=
    hsame.fieldOr_eq (mem_shape (by decide)) FlagPresets.ignores_ofValue?
  have hlisting : ∀ standard,
      fieldOr entries' "listing" ListingOptions.ofValue? standard =
        fieldOr entries "listing" ListingOptions.ofValue? standard :=
    hsame.fieldOr_eq (mem_shape (by decide)) ListingOptions.ignores_ofValue?
  dsimp only [Configuration.ofValue?, Value.fields?_table,
    Option.bind_eq_bind, Option.bind_some]
  rw [hlayout, hgroups, hflags, hlisting]
  iterate 2 rw [hsame.fieldOr_whole]
  all_goals decide

/-- Keys that no field has change nothing, however many there are and wherever they
stand. -/
theorem Configuration.ofValue?_eq_of_addsKeys {value value' : Value}
    (h : Relation.ReflTransGen (AddsKey (.record Configuration.shape))
      value value') :
    Configuration.ofValue? value' = Configuration.ofValue? value := by
  induction h with
  | refl => rfl
  | tail _ hadds ih => rw [Configuration.ignores_ofValue? _ _ hadds, ih]

end HeaderMake
