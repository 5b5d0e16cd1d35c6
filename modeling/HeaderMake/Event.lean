import HeaderMake.Path

/-!
# Events of a run

What a run reports about its own progress when it is asked to be verbose.  Operations
return their events as values, in the order in which they happen.
-/

namespace HeaderMake

/-- Something that a run reports about its progress. -/
inductive Event
  /-- A path that cannot be read is looked for under its canonical directory. -/
  | satelliteFallback (path canonical : Path)
  /-- A path that cannot be read is given up. -/
  | unresolvedInclude (path : Path)
  /-- A compile rule is written. -/
  | emittingRule (source : Path) (prerequisites : Nat)
  /-- The sources of a group have been collected. -/
  | collectedSources (group : Text) (files : Nat)
  deriving DecidableEq

/-- What the event says, apart from its details. -/
def Event.message : Event → Text
  | satelliteFallback .. => "satellite fallback".toList
  | unresolvedInclude .. => "unresolved include, treated as leaf".toList
  | emittingRule .. => "emitting rule".toList
  | collectedSources .. => "collected sources".toList

/-- The line that a verbose run prints about the event. -/
def Event.render (event : Event) : Text :=
  event.message ++
    (match event with
      | satelliteFallback path canonical =>
        " from=".toList ++ path ++ " to=".toList ++ canonical
      | unresolvedInclude path => " path=".toList ++ path
      | emittingRule source prerequisites =>
        " source=".toList ++ source ++ " prerequisites=".toList ++ Text.ofNat prerequisites
      | collectedSources group files =>
        " group=".toList ++ group ++ " files=".toList ++ Text.ofNat files) ++
    "\n".toList

end HeaderMake
