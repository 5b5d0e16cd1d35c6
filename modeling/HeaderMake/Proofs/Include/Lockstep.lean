import HeaderMake.Makefile.Rule
import HeaderMake.Proofs.Include.Agreement
import HeaderMake.Proofs.Include.Headers
import HeaderMake.Proofs.Include.Rounds

/-!
# Walks in lockstep

Which paths a walk reads is decided by what it has read before.  Two views that agree on
every path that the loop takes from the pending ones over the first of them therefore
keep the two loops in the same state, round after round
(`WalkState.iterate_round_congr`).

So a rule depends on nothing else: not on files off the walk, and not on the bootstrap
header, which is marked as visited before the first round and never read
(`rules_depend_on_pops`).
-/

namespace HeaderMake

/-! ## Rounds over two views -/

namespace WalkState

variable {layout : Layout} {view other : SourceView}

/-- In some round of the walk from `file` the path is the first of the pending ones. -/
def Pops (layout : Layout) (view : SourceView) (file path : Path) : Prop :=
  ∃ rounds next rest,
    ((round layout view)^[rounds] (.start layout file)).pending =
        next :: rest ∧
      next.path = path

/-- A round looks at the view only where its path is fresh. -/
theorem round_congr {state : WalkState}
    (h : ∀ next rest, state.pending = next :: rest →
      next.path ∉ state.explored.visited →
      other.read next.path = view.read next.path) :
    round layout other state = round layout view state := by
  obtain ⟨explored, pending⟩ := state
  cases pending with
  | nil => rfl
  | cons next rest =>
      by_cases hvisited : next.path ∈ explored.visited
      · rw [round_of_mem hvisited, round_of_mem hvisited]
      · have hread := h next rest rfl hvisited
        rw [round_of_not_mem hvisited, round_of_not_mem hvisited,
          finding_congr hread, followUps_congr hread]

theorem visited_subset_round (layout : Layout) (view : SourceView)
    (state : WalkState) :
    state.explored.visited ⊆ (round layout view state).explored.visited := by
  obtain ⟨explored, pending⟩ := state
  cases pending with
  | nil => exact List.Subset.refl _
  | cons next rest =>
      by_cases hvisited : next.path ∈ explored.visited
      · rw [round_of_mem hvisited]
        exact List.Subset.refl _
      · rw [round_of_not_mem hvisited]
        exact List.subset_cons_self _ _

/-- The bootstrap header counts as visited in every round. -/
theorem bootstrap_mem_visited (layout : Layout) (view : SourceView)
    (file : Path) (rounds : Nat) :
    layout.bootstrapHeader ∈
      ((round layout view)^[rounds] (.start layout file)).explored.visited := by
  induction rounds with
  | zero => exact List.mem_singleton_self _
  | succ rounds ih =>
      rw [Function.iterate_succ_apply']
      exact visited_subset_round layout view _ ih

/-- Two views that agree on the pops of a walk over one of them keep the two walks in the
same state. -/
theorem iterate_round_congr {file : Path}
    (h : ∀ path, Pops layout view file path →
      path ≠ layout.bootstrapHeader → other.read path = view.read path)
    (rounds : Nat) :
    (round layout other)^[rounds] (.start layout file) =
      (round layout view)^[rounds] (.start layout file) := by
  induction rounds with
  | zero => rfl
  | succ rounds ih =>
      rw [Function.iterate_succ_apply', Function.iterate_succ_apply', ih]
      apply round_congr
      intro next rest hpending hvisited
      apply h next.path ⟨rounds, next, rest, hpending, rfl⟩
      intro hbootstrap
      apply hvisited
      rw [hbootstrap]
      exact bootstrap_mem_visited layout view file rounds

/-! ## Walks that have ended -/

theorem iterate_round_of_ended (layout : Layout) (view : SourceView)
    {state : WalkState} (h : state.pending = []) (rounds : Nat) :
    (round layout view)^[rounds] state = state := by
  apply Function.iterate_fixed
  simp only [round, h]

/-- Once nothing is pending, what has been found is what `resolve` gives. -/
theorem found_of_ended {file : Path} {rounds : Nat}
    (h : ((round layout view)^[rounds] (.start layout file)).pending = []) :
    ((round layout view)^[rounds] (.start layout file)).explored.found =
      resolve layout view file := by
  obtain ⟨last, hpending, hfound⟩ := exists_rounds layout view
    [layout.bootstrapHeader] [⟨file, false⟩]
    ⟨[layout.bootstrapHeader], [], []⟩
  -- Both numbers of rounds are enough, so more rounds than either change nothing.
  have hrounds := iterate_round_of_ended layout view h last
  have hlast := iterate_round_of_ended layout view hpending rounds
  rw [← Function.iterate_add_apply] at hrounds hlast
  rw [← hrounds, Nat.add_comm]
  exact (congrArg (·.explored.found) hlast).trans hfound

theorem exists_ended (layout : Layout) (view : SourceView) (file : Path) :
    ∃ rounds,
      ((round layout view)^[rounds] (.start layout file)).pending = [] := by
  obtain ⟨rounds, hpending, -⟩ := exists_rounds layout view
    [layout.bootstrapHeader] [⟨file, false⟩]
    ⟨[layout.bootstrapHeader], [], []⟩
  exact ⟨rounds, hpending⟩

theorem resolve_eq_of_pops {file : Path}
    (h : ∀ path, Pops layout view file path →
      path ≠ layout.bootstrapHeader → other.read path = view.read path) :
    resolve layout other file = resolve layout view file := by
  obtain ⟨rounds, hended⟩ := exists_ended layout view file
  have hlockstep := iterate_round_congr h rounds
  rw [← found_of_ended hended, ← hlockstep]
  rw [← hlockstep] at hended
  exact (found_of_ended hended).symm

end WalkState

/-! ## Rules over two views -/

/-- The view in which a path is read as `content`, or cannot be read. -/
def SourceView.replace (view : SourceView) (path : Path)
    (content : Option Bytes) : SourceView where
  read other := if other = path then content else view.read other
  finite := by
    obtain ⟨paths, hpaths⟩ := view.finite
    refine ⟨path :: paths, fun other hread => ?_⟩
    by_cases heq : other = path
    · exact heq ▸ List.mem_cons_self
    · rw [if_neg heq] at hread
      exact List.mem_cons_of_mem _ (hpaths other hread)

theorem SourceView.read_replace_of_ne (view : SourceView) {path other : Path}
    (h : other ≠ path) (content : Option Bytes) :
    (view.replace path content).read other = view.read other :=
  if_neg h

/-- A walk finds the same over every view that agrees on its pops, and so its rule has
the same text and the same events.  What stands at the path of the bootstrap header, or
at a path that the walk does not come to, has no influence. -/
theorem rules_depend_on_pops (layout : Layout) (view : SourceView)
    (file : Path) :
    (∀ other : SourceView,
      (∀ path, WalkState.Pops layout view file path →
        path ≠ layout.bootstrapHeader →
        other.read path = view.read path) →
      resolve layout other file = resolve layout view file ∧
        ∀ group,
          (resolveRule layout other group file).rule.render =
              (resolveRule layout view group file).rule.render ∧
            (resolveRule layout other group file).events =
              (resolveRule layout view group file).events) ∧
    ∀ path content,
      path = layout.bootstrapHeader ∨
          ¬WalkState.Pops layout view file path →
      ∀ group,
        resolveRule layout (view.replace path content) group file =
          resolveRule layout view group file := by
  have hrule : ∀ other : SourceView,
      (∀ path, WalkState.Pops layout view file path →
        path ≠ layout.bootstrapHeader →
        other.read path = view.read path) →
      ∀ group, resolveRule layout other group file =
        resolveRule layout view group file := by
    intro other h group
    rw [resolveRule, resolveRule, WalkState.resolve_eq_of_pops h]
  constructor
  · intro other h
    refine ⟨WalkState.resolve_eq_of_pops h, fun group => ?_⟩
    rw [hrule other h group]
    exact ⟨rfl, rfl⟩
  · intro path content hpath
    apply hrule
    intro popped hpopped hbootstrap
    apply view.read_replace_of_ne
    rintro rfl
    rcases hpath with hpath | hpath
    · exact hbootstrap hpath
    · exact hpath hpopped

/-- The rule of a source stays the same when a bootstrap header appears, which includes
another header. -/
theorem rules_depend_on_pops_mirrored :
    Workspace.mirrored.view.read "lib/cxx11emu.h".toList = none ∧
      (∀ path, WalkState.Pops .standard Workspace.mirrored.view
          "cli/main.cpp".toList path →
        path ≠ Layout.standard.bootstrapHeader →
        (Workspace.mirrored.view.replace "lib/cxx11emu.h".toList
            (some (Utf8.encode "#include \"new.h\"\n".toList))).read path =
          Workspace.mirrored.view.read path) ∧
      ∀ group,
        (resolveRule .standard (Workspace.mirrored.view.replace
            "lib/cxx11emu.h".toList
            (some (Utf8.encode "#include \"new.h\"\n".toList))) group
            "cli/main.cpp".toList).rule.render =
          (resolveRule .standard Workspace.mirrored.view group
            "cli/main.cpp".toList).rule.render := by
  have hmissing : Workspace.mirrored.view.read "lib/cxx11emu.h".toList =
      none := by decide +kernel
  obtain ⟨hagree, -⟩ := rules_depend_on_pops .standard
    Workspace.mirrored.view "cli/main.cpp".toList
  have hreads : ∀ path, WalkState.Pops .standard Workspace.mirrored.view
      "cli/main.cpp".toList path →
      path ≠ Layout.standard.bootstrapHeader →
      (Workspace.mirrored.view.replace "lib/cxx11emu.h".toList
          (some (Utf8.encode "#include \"new.h\"\n".toList))).read path =
        Workspace.mirrored.view.read path :=
    fun path _ hpath => Workspace.mirrored.view.read_replace_of_ne hpath _
  exact ⟨hmissing, hreads, fun group => ((hagree _ hreads).2 group).1⟩

end HeaderMake
