import HeaderMake.Proofs.Tree.Growth
import HeaderMake.Workspace

/-!
# Writing to a path

Writing to a path makes the tree grow at one location, the one that `Tree.findSlot`
gives, and afterwards the path leads to the file that has been written
(`Tree.find_of_findSlot`).

A path with a slash at its end is never opened for writing, so the different reading of
such paths plays no part here.
-/

namespace HeaderMake
namespace Tree

variable {tree : Tree}

/-- What a slot holds is nothing or a regular file. -/
theorem lookup_of_slot {links : Nat} {directory location : Location}
    {steps : List Step} (h : tree.slot links directory steps = .ok location) :
    location ≠ [] ∧
      (tree.lookup location = none ∨
        ∃ content, tree.lookup location = some (.file content)) := by
  fun_induction Tree.slot tree links directory steps with
  | case1 => cases h
  | case2 _ _ _ ih => exact ih h
  | case3 _ _ _ ih => exact ih h
  | case4 => cases h
  | case5 _ _ _ hlookup =>
      cases h
      exact ⟨List.cons_ne_nil _ _, .inl hlookup⟩
  | case6 _ _ _ content hlookup =>
      cases h
      exact ⟨List.cons_ne_nil _ _, .inr ⟨content, hlookup⟩⟩
  | case7 => cases h
  | case8 => cases h
  | case9 _ _ _ _ _ ih => exact ih h
  | case10 => cases h
  | case11 => cases h
  | case12 _ _ _ _ _ _ ih => exact ih h
  | case13 => cases h
  | case14 _ _ _ _ _ _ _ ih => exact ih h

/-- Steps that lead to a slot end in a name. -/
theorem getLast?_of_slot {links : Nat} {directory location : Location}
    {steps : List Step} (h : tree.slot links directory steps = .ok location) :
    ∃ name, steps.getLast? = some (.name name) := by
  fun_induction Tree.slot tree links directory steps with
  | case1 => cases h
  | case2 _ _ rest ih =>
      obtain ⟨name, hname⟩ := ih h
      exact ⟨name, by rw [List.getLast?_cons, hname]; rfl⟩
  | case3 _ _ rest ih =>
      obtain ⟨name, hname⟩ := ih h
      exact ⟨name, by rw [List.getLast?_cons, hname]; rfl⟩
  | case4 => cases h
  | case5 _ _ name => exact ⟨name, rfl⟩
  | case6 _ _ name => exact ⟨name, rfl⟩
  | case7 => cases h
  | case8 => cases h
  | case9 _ name => exact ⟨name, rfl⟩
  | case10 => cases h
  | case11 => cases h
  | case12 _ _ _ _ _ _ ih =>
      obtain ⟨name, hname⟩ := ih h
      exact ⟨name, by rw [List.getLast?_cons, hname]; rfl⟩
  | case13 => cases h
  | case14 _ _ rest hrest _ _ _ ih =>
      obtain ⟨name, hname⟩ := ih h
      rw [List.getLast?_append, List.getLast?_eq_some_getLast hrest,
        Option.some_or] at hname
      refine ⟨name, ?_⟩
      rw [List.getLast?_cons, List.getLast?_eq_some_getLast hrest, hname]
      rfl

theorem writeSteps_of_slot {links : Nat} {directory location : Location}
    {path : RawPath}
    (h : tree.slot links directory path.writeSteps = .ok location) :
    path.writeSteps = path.steps := by
  obtain ⟨name, hname⟩ := getLast?_of_slot h
  unfold RawPath.writeSteps at hname ⊢
  split at hname
  · rw [List.getLast?_append, List.getLast?_singleton, Option.some_or] at hname
    cases hname
  · next hslash => rw [if_neg hslash]

/-- Once a file stands in the slot of some steps, following them leads to it. -/
theorem walk_of_slot {links : Nat} {directory location : Location}
    {steps : List Step} {content : Bytes}
    (hlookup : tree.lookup location = some (.file content))
    (h : tree.slot links directory steps = .ok location) :
    tree.walk links directory steps = .ok (.file location content) := by
  fun_induction Tree.slot tree links directory steps with
  | case1 => cases h
  | case2 _ _ _ ih =>
      rw [Tree.walk]
      exact ih h
  | case3 _ _ _ ih =>
      rw [Tree.walk]
      exact ih h
  | case4 => cases h
  | case5 _ _ _ hnone =>
      cases h
      rw [hnone] at hlookup
      cases hlookup
  | case6 _ _ _ other hother =>
      cases h
      rw [hother] at hlookup
      cases hlookup
      rw [Tree.walk, hother]
      rfl
  | case7 => cases h
  | case8 => cases h
  | case9 _ _ target hlink left ih =>
      rw [Tree.walk, hlink]
      dsimp only
      rw [List.append_nil, ← writeSteps_of_slot h]
      exact ih h
  | case10 => cases h
  | case11 => cases h
  | case12 _ _ _ _ _ hdirectory ih =>
      rw [Tree.walk, hdirectory]
      exact ih h
  | case13 => cases h
  | case14 _ _ _ _ _ hlink _ ih =>
      rw [Tree.walk, hlink]
      exact ih h

theorem findSlot_eq_ok_iff {path : Path} {location : Location} :
    tree.findSlot path = .ok location ↔
      checkPath path.raw = .ok () ∧
        tree.slot maxLinks (origin tree.start path.raw) path.raw.writeSteps =
          .ok location := by
  rw [findSlot]
  cases checkPath path.raw with
  | error cause =>
      constructor
      · intro h
        cases h
      · rintro ⟨h, -⟩
        cases h
  | ok _ => exact ⟨fun h => ⟨rfl, h⟩, fun h => h.2⟩

/-- Once a file stands at the location to which a path is written, the path leads to
it. -/
theorem find_of_findSlot {path : Path} {location : Location}
    {content : Bytes} (hlookup : tree.lookup location = some (.file content))
    (h : tree.findSlot path = .ok location) :
    tree.find path = .ok (.file location content) := by
  obtain ⟨hcheck, hslot⟩ := findSlot_eq_ok_iff.mp h
  rw [find, findRaw, hcheck]
  change tree.walk maxLinks (origin tree.start path.raw) path.raw.steps = _
  rw [← writeSteps_of_slot hslot]
  exact walk_of_slot hlookup hslot

/-! ## What a write changes -/

theorem grows_insert {location : Location} (hne : location ≠ [])
    (hlookup : tree.lookup location = none ∨
      ∃ old, tree.lookup location = some (.file old)) (content : Bytes) :
    tree.Grows (tree.insert location (.file content)) := by
  refine ⟨rfl, ?_⟩
  intro other
  rw [lookup_insert tree hne]
  split
  · next heq =>
    subst heq
    rcases hlookup with hnone | ⟨old, hold⟩
    · rw [hnone]
      exact .created content
    · rw [hold]
      exact .overwritten old content
  · exact .same _

end Tree
end HeaderMake
