import HeaderMake.Event
import HeaderMake.Include.Directive
import HeaderMake.Layout

/-!
# The include walk

`resolve` collects the headers that a source depends on, by following quoted includes
from file to file.  It knows the files only through a `SourceView`, which gives the bytes
of each path that can be read.

The walk keeps the list of paths still to be visited, the next one first, and the list
of visited paths.  The paths that a file includes are put in front of the others, so the
walk is depth-first in the order of the include lines.  A path that cannot be read is
looked for once more under its canonical directory; the path found by this relocation is
marked, and is given up if it cannot be read either.

A view has finitely many readable paths.  Visiting a readable path leaves one fewer of
them, and every other step makes the pending list lighter, where a path that may still
be relocated weighs more than one that may not; so the walk ends.
-/

namespace HeaderMake

/-- The files that a walk can read: the bytes of each readable path, of which there are
finitely many. -/
structure SourceView where
  read : Path → Option Bytes
  finite : ∃ paths : List Path, ∀ path, (read path).isSome → path ∈ paths

/-- How many readable paths are not among the visited ones, counted in a list of all
readable paths. -/
noncomputable def SourceView.unread (view : SourceView) (visited : List Path) : Nat :=
  (view.finite.choose.filter fun path => (view.read path).isSome && path ∉ visited).length

theorem SourceView.unread_cons_le (view : SourceView) (visited : List Path) (path : Path) :
    view.unread (path :: visited) ≤ view.unread visited := by
  unfold unread
  generalize view.finite.choose = paths
  induction paths with
  | nil => simp
  | cons p paths ih => grind

theorem SourceView.unread_cons_lt {view : SourceView} {visited : List Path} {path : Path}
    {content : Bytes} (hread : view.read path = some content) (hvisited : path ∉ visited) :
    view.unread (path :: visited) < view.unread visited := by
  have hmem : path ∈ view.finite.choose :=
    view.finite.choose_spec path (by simp [hread])
  have hle : ∀ paths : List Path,
      (paths.filter fun p => (view.read p).isSome && p ∉ path :: visited).length ≤
        (paths.filter fun p => (view.read p).isSome && p ∉ visited).length := by
    intro paths
    induction paths with
    | nil => simp
    | cons p paths ih => grind
  unfold unread
  generalize view.finite.choose = paths at hmem
  induction paths with
  | nil => simp at hmem
  | cons p paths ih =>
    have htail := hle paths
    grind

/-- A path that the walk has still to visit. -/
structure Pending where
  path : Path
  /-- Whether the path comes from a relocation, so that it is not relocated again. -/
  relocated : Bool
  deriving DecidableEq

/-- A path that may still be relocated weighs more than one that may not. -/
def Pending.weight (pending : Pending) : Nat :=
  if pending.relocated then 1 else 2

/-- The weight of a list of pending paths. -/
def Pending.totalWeight : List Pending → Nat
  | [] => 0
  | next :: rest => next.weight + totalWeight rest

/-- What a walk finds and does. -/
structure Resolution where
  /-- The headers in the order of discovery. -/
  dependencies : List Path
  /-- What the walk reports on the way. -/
  events : List Event
  /-- The paths that the walk looks up, readable or not, in order. -/
  lookups : List Path
  deriving DecidableEq

/-- The walk that has nothing to visit. -/
def Resolution.empty : Resolution := ⟨[], [], []⟩

/-- The same walk after one more header, found before the others. -/
def Resolution.addDependency (path : Path) (resolution : Resolution) : Resolution :=
  { resolution with dependencies := path :: resolution.dependencies }

/-- The same walk after one more event, which came before the others. -/
def Resolution.addEvent (event : Event) (resolution : Resolution) : Resolution :=
  { resolution with events := event :: resolution.events }

/-- The same walk after one more lookup, made before the others. -/
def Resolution.addLookup (path : Path) (resolution : Resolution) : Resolution :=
  { resolution with lookups := path :: resolution.lookups }

/-- The path under which a path that cannot be read is looked for once more. -/
def Layout.fallback? (layout : Layout) (pending : Pending) : Option Path :=
  if pending.relocated then none else layout.satellites.relocate? pending.path

/-- Visits the pending paths, the first one first. -/
def walkIncludes (layout : Layout) (view : SourceView) (visited : List Path) :
    List Pending → Resolution
  | [] => .empty
  | next :: rest =>
    if _hvisited : next.path ∈ visited then walkIncludes layout view visited rest
    else
      let visited' := next.path :: visited
      match _hread : view.read next.path with
      | none =>
        match _hfallback : layout.fallback? next with
        | some canonical =>
          ((walkIncludes layout view visited' (⟨canonical, true⟩ :: rest)).addEvent
            (.satelliteFallback next.path canonical)).addLookup next.path
        | none =>
          ((walkIncludes layout view visited' rest).addEvent
            (.unresolvedInclude next.path)).addLookup next.path
      | some content =>
        let included := (includedPaths next.path content).map (⟨·, false⟩)
        let found := (walkIncludes layout view visited' (included ++ rest)).addLookup next.path
        if Text.contains layout.sourceMarker next.path then found
        else found.addDependency next.path
termination_by pending => (view.unread visited, Pending.totalWeight pending)
decreasing_by
  · apply Prod.Lex.right
    simp only [Pending.totalWeight, Pending.weight]
    split <;> omega
  · rcases Nat.lt_or_eq_of_le (view.unread_cons_le visited next.path) with hlt | heq
    · exact Prod.Lex.left _ _ hlt
    · rw [heq]
      apply Prod.Lex.right
      have hweight : next.relocated = false := by
        by_cases h : next.relocated
        · simp [Layout.fallback?, h] at _hfallback
        · simpa using h
      simp [Pending.totalWeight, Pending.weight, hweight]
  · rcases Nat.lt_or_eq_of_le (view.unread_cons_le visited next.path) with hlt | heq
    · exact Prod.Lex.left _ _ hlt
    · rw [heq]
      apply Prod.Lex.right
      simp only [Pending.totalWeight, Pending.weight]
      split <;> omega
  · exact Prod.Lex.left _ _ (SourceView.unread_cons_lt _hread _hvisited)

/-- The headers that a source depends on.  The bootstrap header comes first and is not
walked; the other headers follow in the order of discovery. -/
def resolve (layout : Layout) (view : SourceView) (file : Path) : Resolution :=
  (walkIncludes layout view [layout.bootstrapHeader] [⟨file, false⟩]).addDependency
    layout.bootstrapHeader

end HeaderMake
