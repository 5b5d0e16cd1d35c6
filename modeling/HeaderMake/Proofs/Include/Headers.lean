import HeaderMake.Proofs.Include.Reachability
import HeaderMake.Tree.Edit
import HeaderMake.Workspace

/-!
# The headers of a source are those that it reaches

By an unchained satellite table `resolve` lists exactly the headers that a source
reaches, each once: headers behind cycles, behind excluded files and behind relocated
paths included.
-/

namespace HeaderMake

/-- By an unchained satellite table, the headers of a source are the bootstrap header
and then, each once, exactly the other readable paths without source marker that the
source reaches. -/
theorem dependencies_resolve_of_unchained {layout : Layout}
    (hunchained : layout.satellites.Unchained) (view : SourceView)
    (file : Path) :
    (resolve layout view file).dependencies.Nodup ∧
      ∃ headers,
        (resolve layout view file).dependencies =
          layout.bootstrapHeader :: headers ∧
        ∀ path, path ∈ headers ↔
          path ≠ layout.bootstrapHeader ∧ (view.read path).isSome ∧
            ¬Text.contains layout.sourceMarker path ∧
            Reaches layout view file path := by
  refine ⟨nodup_dependencies_resolve layout view file, _, rfl, ?_⟩
  intro path
  exact mem_dependencies_walk_iff hunchained.settled

/-- A source whose header is missing beside it and stands in the library, where two
headers include each other. -/
def Workspace.mirrored : Workspace where
  tree :=
    ((Tree.empty.putFile "cli/main.cpp".toList
      (Utf8.encode "#include \"log.h\"\n".toList)).putFile "lib/log.h".toList
      (Utf8.encode "int i;\n#include \"sup.h\"\n".toList)).putFile
      "lib/sup.h".toList (Utf8.encode "#include \"log.h\"\n".toList)
  root := ".".toList

theorem read_log_mirrored :
    Workspace.mirrored.view.read "cli/log.h".toList = none := by
  decide +kernel

theorem reaches_mirrored :
    Reaches .standard Workspace.mirrored.view "cli/main.cpp".toList
      "lib/sup.h".toList := by
  have hmain : LeadsTo .standard Workspace.mirrored.view
      "cli/main.cpp".toList "cli/log.h".toList := by
    have hread : Workspace.mirrored.view.read "cli/main.cpp".toList =
        some (Utf8.encode "#include \"log.h\"\n".toList) := by decide +kernel
    have hpaths : includedPaths "cli/main.cpp".toList
        (Utf8.encode "#include \"log.h\"\n".toList) =
          ["cli/log.h".toList] := by decide +kernel
    exact leadsTo_of_mem_includedPaths (by decide) hread
      (hpaths ▸ List.mem_singleton_self _)
  have hlog : LeadsTo .standard Workspace.mirrored.view
      "cli/log.h".toList "lib/log.h".toList := by
    have hrelocate : Layout.standard.satellites.relocate?
        "cli/log.h".toList = some "lib/log.h".toList := by decide +kernel
    exact .relocates (by decide) read_log_mirrored hrelocate
  have hsup : LeadsTo .standard Workspace.mirrored.view
      "lib/log.h".toList "lib/sup.h".toList := by
    have hread : Workspace.mirrored.view.read "lib/log.h".toList =
        some (Utf8.encode "int i;\n#include \"sup.h\"\n".toList) := by decide +kernel
    have hpaths : includedPaths "lib/log.h".toList
        (Utf8.encode "int i;\n#include \"sup.h\"\n".toList) =
          ["lib/sup.h".toList] := by decide +kernel
    exact leadsTo_of_mem_includedPaths (by decide) hread
      (hpaths ▸ List.mem_singleton_self _)
  exact .tail (.tail (.single hmain) hlog) hsup

theorem dependencies_resolve_mirrored :
    Layout.standard.satellites.Unchained ∧
      (resolve .standard Workspace.mirrored.view
        "cli/main.cpp".toList).dependencies.Nodup ∧
      ∃ headers,
        (resolve .standard Workspace.mirrored.view
          "cli/main.cpp".toList).dependencies =
          "lib/cxx11emu.h".toList :: headers ∧
        "lib/sup.h".toList ∈ headers ∧ "cli/log.h".toList ∉ headers := by
  obtain ⟨hnodup, headers, heq, hmem⟩ :=
    dependencies_resolve_of_unchained SatelliteTable.standard_unchained
      Workspace.mirrored.view "cli/main.cpp".toList
  refine ⟨SatelliteTable.standard_unchained, hnodup, headers, heq, ?_, ?_⟩
  · have hread :
        (Workspace.mirrored.view.read "lib/sup.h".toList).isSome := by decide +kernel
    exact (hmem _).mpr ⟨by decide, hread, by decide, reaches_mirrored⟩
  · intro hlog
    have hsome := ((hmem _).mp hlog).2.1
    rw [read_log_mirrored] at hsome
    cases hsome

end HeaderMake
