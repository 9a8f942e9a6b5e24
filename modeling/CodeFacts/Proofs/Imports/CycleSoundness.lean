import CodeFacts.Proofs.Imports.Trail
import Mathlib.Data.Finset.Card

/-!
# Reported cycles are cycles

Every cycle that a search reports is a simple closed walk of the graph: it has at least two
entries, begins and ends with the same file, meets no file twice before that, and each of its
entries lists the next. It keeps the limit on its length, and the limit on the number of cycles is
kept as well.

The cycle that closes when a path of the current branch is met again is the end of the trail, so
its properties are those of the trail.
-/

namespace CodeFacts.Imports

/-- The entries of a cycle are counted as one more than its files, unless the count overflows. -/
theorem CycleLimits.maxEntries?_eq_some_iff (limits : CycleLimits) (maxEntries : Nat) :
    limits.maxEntries? = some maxEntries ↔
      limits.maxLength.toNat + 1 < UInt64.size ∧ maxEntries = limits.maxLength.toNat + 1 := by
  unfold maxEntries?
  dsimp only
  split
  · rename_i representable
    simp [representable, eq_comm]
  · rename_i largest
    simp [largest]

theorem CycleLimits.maxEntries?_eq_none_iff (limits : CycleLimits) :
    limits.maxEntries? = none ↔ ¬limits.maxLength.toNat + 1 < UInt64.size := by
  simp [maxEntries?]

namespace Graph

/-- A simple closed walk along the imports of a graph. -/
structure IsImportCycle (graph : Graph) (cycle : Cycle) : Prop where
  two_le_length : 2 ≤ cycle.length
  closed : cycle.head?.map Path.components = cycle.getLast?.map Path.components
  distinct : (cycle.dropLast.map Path.components).Nodup
  nodes : ∀ entry ∈ cycle.dropLast, graph.contains entry = true
  chain : cycle.IsChain graph.Lists

/-- The end of a trail that starts at a path, followed by that path, is a cycle. -/
theorem isImportCycle_of_route {graph : Graph} {front rest : List Path} {first path : Path}
    (route : graph.IsRoute (front ++ first :: rest ++ [path]))
    (nodup : ((front ++ first :: rest).map Path.components).Nodup)
    (same : first.components = path.components) :
    graph.IsImportCycle (first :: rest ++ [path]) := by
  refine ⟨?_, ?_, ?_, ?_, ?_⟩
  · simp
  · simp [List.getLast?_cons, same]
  · rw [List.dropLast_concat]
    rw [List.map_append] at nodup
    exact (List.nodup_append.mp nodup).2.1
  · rw [List.dropLast_concat]
    intro entry entry_mem
    exact route.contains_of_mem (List.mem_append_right _ entry_mem)
  · have chain := route.chain
    rw [List.append_assoc] at chain
    exact chain.right_of_append

/-- The different files of a cycle are all its entries but the last. -/
theorem IsImportCycle.card_files {graph : Graph} {cycle : Cycle}
    (isCycle : graph.IsImportCycle cycle) :
    (cycle.map Path.components).toFinset.card = cycle.length - 1 := by
  rcases List.eq_nil_or_concat cycle with rfl | ⟨loop, last, rfl⟩
  · rfl
  have distinct := isCycle.distinct
  have closed := isCycle.closed
  have long := isCycle.two_le_length
  rw [List.concat_eq_append] at distinct closed long ⊢
  rw [List.dropLast_concat] at distinct
  cases loop with
  | nil => simp at long
  | cons first rest =>
      have again : last.components ∈ ((first :: rest).map Path.components).toFinset := by
        simp only [List.cons_append, List.head?_cons, Option.map_some, List.getLast?_cons,
          List.getLast?_concat, Option.getD_some, Option.some.injEq] at closed
        simp [← closed]
      rw [List.map_append, List.toFinset_append, List.map_singleton]
      rw [Finset.union_eq_left.mpr (by simpa using again), List.toFinset_card_of_nodup distinct]
      simp

end Graph

namespace Search

/-- What a search has found so far keeps to the graph and to the limits. -/
structure Sound (search : Search) (graph : Graph) (limits : CycleLimits) : Prop where
  isCycle : ∀ cycle ∈ search.cycles, graph.IsImportCycle cycle
  writes : ∀ cycle ∈ search.cycles, ∀ entry ∈ cycle, graph.Writes entry
  length_le : ∀ cycle ∈ search.cycles, cycle.length ≤ limits.maxLength.toNat + 1
  count_le : search.cycles.length ≤ limits.maxCycles.toNat
  /-- A search is aborted at a cycle, and only if entries cannot be counted. -/
  aborted : search.overflowed = true →
    limits.maxEntries? = none ∧ ∃ cycle, graph.IsImportCycle cycle
  /-- If entries cannot be counted, nothing is recorded. -/
  uncounted : limits.maxEntries? = none → search.cycles = [] ∧ search.truncated = false

theorem sound_start (graph : Graph) (limits : CycleLimits) : start.Sound graph limits :=
  ⟨by simp [start], by simp [start], by simp [start], by simp [start], by simp [start],
    by simp [start]⟩

theorem Sound.record {search : Search} {graph : Graph} {limits : CycleLimits} {cycle : Cycle}
    (sound : search.Sound graph limits) (isCycle : graph.IsImportCycle cycle)
    (writes : ∀ entry ∈ cycle, graph.Writes entry) {maxEntries : Nat}
    (counts : limits.maxEntries? = some maxEntries) (short : cycle.length ≤ maxEntries) :
    (search.record limits cycle).Sound graph limits := by
  rw [((limits.maxEntries?_eq_some_iff maxEntries).mp counts).2] at short
  unfold Search.record
  split
  · exact ⟨sound.isCycle, sound.writes, sound.length_le, sound.count_le, sound.aborted,
      by simp [counts]⟩
  · rename_i room
    refine ⟨?_, ?_, ?_, ?_, sound.aborted, by simp [counts]⟩
    · exact List.forall_mem_append.mpr ⟨sound.isCycle, List.forall_mem_singleton.mpr isCycle⟩
    · exact List.forall_mem_append.mpr ⟨sound.writes, List.forall_mem_singleton.mpr writes⟩
    · exact List.forall_mem_append.mpr ⟨sound.length_le, List.forall_mem_singleton.mpr short⟩
    · rw [List.length_append, List.length_singleton]
      omega

theorem Sound.close {search : Search} {graph : Graph} {limits : CycleLimits}
    {trail : List Path} {path : Path} (route : graph.IsRoute (trail ++ [path]))
    (follows : search.Follows trail) (visiting : path.components ∈ search.visiting)
    (sound : search.Sound graph limits) :
    (search.close limits trail path).Sound graph limits := by
  rcases follows.close_eq visiting limits with ⟨front, first, rest, rfl, same, closed⟩
  have isCycle := Graph.isImportCycle_of_route route follows.nodup same
  rw [closed]
  rcases search.consider_cases limits (first :: rest ++ [path]) with
    ⟨overflows, aborted⟩ | ⟨maxEntries, counts, ⟨short, recorded⟩ | ⟨-, passed⟩⟩
  · rw [aborted]
    exact ⟨sound.isCycle, sound.writes, sound.length_le, sound.count_le,
      fun _ => ⟨overflows, _, isCycle⟩, sound.uncounted⟩
  · rw [recorded]
    refine sound.record isCycle ?_ counts short
    intro entry entry_mem
    rw [List.append_assoc] at route
    exact route.writes (List.mem_append_right front entry_mem)
  · rw [passed]
    exact sound

end Search

namespace Graph

theorem sound_searchCycles (graph : Graph) (limits : CycleLimits) :
    (graph.searchCycles limits).Sound graph limits := by
  apply searchCycles_induction (motive := fun search => search.Sound graph limits)
  · exact Search.sound_start graph limits
  · intro search node node_mem follows sound
    apply explore_induction (motive := fun _ search => search.Sound graph limits)
    · intro trail path search route follows visiting sound
      exact sound.close route follows visiting
    · intro trail path search _ _ _ _ sound
      exact ⟨sound.isCycle, sound.writes, sound.length_le, sound.count_le, sound.aborted,
        sound.uncounted⟩
    · intro trail path search _ _ sound
      exact ⟨sound.isCycle, sound.writes, sound.length_le, sound.count_le, sound.aborted,
        sound.uncounted⟩
    · exact isRoute_node node_mem
    · exact follows
    · exact sound

/-- A search is not aborted if the entries of cycles can be counted. -/
theorem overflowed_searchCycles {graph : Graph} {limits : CycleLimits}
    (representable : limits.maxLength.toNat + 1 < UInt64.size) :
    (graph.searchCycles limits).overflowed = false := by
  rw [Bool.eq_false_iff]
  intro overflowed
  have overflows := ((graph.sound_searchCycles limits).aborted overflowed).1
  exact (limits.maxEntries?_eq_none_iff.mp overflows) representable

/-- Every reported cycle is a simple closed walk of the graph with at most as many different files
as the limit allows, and there are at most as many cycles as the limit allows. -/
theorem searchCycles_reports_cycles_within_limits (graph : Graph) (limits : CycleLimits) :
    (∀ cycle ∈ (graph.searchCycles limits).cycles,
      graph.IsImportCycle cycle ∧
        (cycle.map Path.components).toFinset.card ≤ limits.maxLength.toNat) ∧
      (graph.searchCycles limits).cycles.length ≤ limits.maxCycles.toNat := by
  have sound := graph.sound_searchCycles limits
  refine ⟨?_, sound.count_le⟩
  intro cycle cycle_mem
  have isCycle := sound.isCycle cycle cycle_mem
  refine ⟨isCycle, ?_⟩
  have short := sound.length_le cycle cycle_mem
  rw [isCycle.card_files]
  omega

end Graph

end CodeFacts.Imports
