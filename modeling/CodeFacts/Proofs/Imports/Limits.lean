import CodeFacts.Imports.Check
import CodeFacts.Proofs.Imports.FeedbackEdges

/-!
# What the limits of a search leave out

The limits of a search do not steer it. A cycle that is too long is passed over and the search goes
on as before; only one cycle too many stops it, and then nothing is found any more. So there is one
list of cycles for each graph, `Graph.allCycles`, which a search without limits finds, and every
search reports a part of it: of the cycles that are short enough, the first ones, as many as may be
reported. It is stopped exactly if there are more.

The proof runs the two searches side by side. As long as the limited one has not been stopped, the
two are on the same branch and have finished the same paths. Once it has been stopped, whatever the
other one finds comes after the cycles that are reported.

The largest limit on the length is an exception to what its name says. The entries of a cycle are
one more than its files, and those of the longest cycle cannot be counted. The first cycle that is
met aborts the search, so that there is a result exactly if the graph has no loop.
-/

namespace CodeFacts.Imports

namespace CycleLimits

/-- Whether a cycle is short enough to be reported. -/
def admits (limits : CycleLimits) (cycle : Cycle) : Bool :=
  limits.maxEntries?.any fun maxEntries => decide (cycle.length ≤ maxEntries)

theorem admits_eq_true_iff (limits : CycleLimits) (cycle : Cycle) :
    limits.admits cycle = true ↔
      limits.maxLength.toNat + 1 < UInt64.size ∧ cycle.length ≤ limits.maxLength.toNat + 1 := by
  simp only [admits, Option.any_eq_true, limits.maxEntries?_eq_some_iff, decide_eq_true_eq]
  constructor
  · rintro ⟨_, ⟨representable, rfl⟩, short⟩
    exact ⟨representable, short⟩
  · rintro ⟨representable, short⟩
    exact ⟨_, ⟨representable, rfl⟩, short⟩

theorem admits_of_overflow {limits : CycleLimits} (overflows : limits.maxEntries? = none) :
    limits.admits = fun _ => false := by
  funext cycle
  rw [admits, overflows, Option.any_none]

end CycleLimits

namespace Search

/-- Keeps the cycle that an edge from the end of the trail to `path` closes, whatever its length. -/
def keep (search : Search) (trail : List Path) (path : Path) : Search :=
  match trail.dropWhile fun entry => !entry.same path with
  | [] => search
  | loop => { search with cycles := search.cycles ++ [loop ++ [path]] }

/-- What a search has reported of all that a search without limits has found by the same time. -/
structure Reports (search : Search) (limits : CycleLimits) (full : Search) : Prop where
  cycles : search.cycles = (full.cycles.filter limits.admits).take limits.maxCycles.toNat
  truncated : search.truncated = true ↔
    limits.maxCycles.toNat < (full.cycles.filter limits.admits).length
  /-- A search that goes on stands where the other one stands. -/
  branch : search.stopped = false →
    search.visiting = full.visiting ∧ search.visited = full.visited
  /-- A search is aborted only if no cycle is known to be short enough. -/
  aborted : search.overflowed = true → limits.maxEntries? = none

theorem reports_start (limits : CycleLimits) : start.Reports limits start := by
  refine ⟨?_, ?_, ?_, ?_⟩
  · simp [start]
  · simp [start]
  · intro _
    exact ⟨rfl, rfl⟩
  · simp [start]

section

variable {search full : Search} {limits : CycleLimits}

/-- As long as the search goes on, it has reported every cycle that is short enough. -/
theorem Reports.cycles_of_active (reports : search.Reports limits full)
    (active : search.truncated = false) :
    search.cycles = full.cycles.filter limits.admits ∧
      (full.cycles.filter limits.admits).length ≤ limits.maxCycles.toNat := by
  have few : (full.cycles.filter limits.admits).length ≤ limits.maxCycles.toNat := by
    rw [← Nat.not_lt, ← reports.truncated]
    simp [active]
  refine ⟨?_, few⟩
  rw [reports.cycles]
  exact List.take_of_length_le few

/-- If no cycle is admitted, it does not matter to an aborted search which ones there are. -/
theorem Reports.of_overflow (reports : search.Reports limits full)
    (overflows : limits.maxEntries? = none) (later : Search) :
    { search with overflowed := true : Search }.Reports limits later := by
  have none := CycleLimits.admits_of_overflow overflows
  have cycles := reports.cycles
  have truncated := reports.truncated
  rw [none, List.filter_false] at cycles truncated
  refine ⟨?_, ?_, by simp [stopped], fun _ => overflows⟩
  · rw [none, List.filter_false]
    exact cycles
  · rw [none, List.filter_false]
    exact truncated

/-- A search that was stopped has reported what it ever will. -/
theorem Reports.of_stopped (reports : search.Reports limits full)
    (stopped : search.stopped = true) {later : Search} (grows : full.cycles <+: later.cycles) :
    search.Reports limits later := by
  cases overflowed : search.overflowed with
  | true =>
      have same : { search with overflowed := true : Search } = search := by rw [← overflowed]
      rw [← same]
      exact reports.of_overflow (reports.aborted overflowed) later
  | false =>
      have truncated : search.truncated = true := by
        simpa [Search.stopped, overflowed] using stopped
      have many := reports.truncated.mp truncated
      rcases grows with ⟨more, split⟩
      refine ⟨?_, ?_, by simp [stopped], reports.aborted⟩
      · rw [reports.cycles, ← split, List.filter_append]
        exact (List.take_append_of_le_length many.le).symm
      · rw [← split, List.filter_append, List.length_append]
        exact iff_of_true truncated (Nat.lt_add_right _ many)

theorem Reports.record (reports : search.Reports limits full) (active : search.truncated = false)
    {cycle : Cycle} (short : limits.admits cycle = true) :
    (search.record limits cycle).Reports limits
      { full with cycles := full.cycles ++ [cycle] } := by
  rcases reports.cycles_of_active active with ⟨all, few⟩
  have grown : (full.cycles ++ [cycle]).filter limits.admits = search.cycles ++ [cycle] := by
    rw [List.filter_append, all, List.filter_singleton, short, cond_true]
  rw [← all] at few
  unfold Search.record
  split
  · rename_i enough
    have exactly : search.cycles.length = limits.maxCycles.toNat := le_antisymm few enough
    refine ⟨?_, ?_, ?_, reports.aborted⟩
    · simp [grown, ← exactly]
    · simp [grown, ← exactly]
    · simp [stopped]
  · rename_i room
    refine ⟨?_, ?_, reports.branch, reports.aborted⟩
    · rw [grown, List.take_of_length_le]
      simp only [List.length_append, List.length_singleton]
      omega
    · simp only [grown, active, List.length_append, List.length_singleton, Bool.false_eq_true,
        false_iff]
      omega

theorem Reports.close (reports : search.Reports limits full) (active : search.stopped = false)
    (trail : List Path) (path : Path) :
    (search.close limits trail path).Reports limits (full.keep trail path) := by
  unfold Search.close Search.keep
  cases trail.dropWhile fun entry => !entry.same path with
  | nil => exact reports
  | cons first rest =>
      dsimp only
      rcases search.consider_cases limits (first :: rest ++ [path]) with
        ⟨overflows, aborted⟩ | ⟨maxEntries, counts, ⟨short, recorded⟩ | ⟨long, passed⟩⟩
      · rw [aborted]
        exact reports.of_overflow overflows _
      · rw [recorded]
        have untruncated : search.truncated = false := (Bool.or_eq_false_iff.mp active).1
        exact reports.record untruncated (by simpa [CycleLimits.admits, counts] using short)
      · rw [passed]
        have dropped : (full.cycles ++ [first :: rest ++ [path]]).filter limits.admits =
            full.cycles.filter limits.admits := by
          simpa [List.filter_append, CycleLimits.admits, counts] using long
        exact ⟨by rw [dropped]; exact reports.cycles, by rw [dropped]; exact reports.truncated,
          reports.branch, reports.aborted⟩

theorem Reports.enter (reports : search.Reports limits full) (path : Path) :
    (search.enter path).Reports limits (full.enter path) := by
  refine ⟨reports.cycles, reports.truncated, ?_, reports.aborted⟩
  intro active
  rcases reports.branch active with ⟨visiting, visited⟩
  exact ⟨congrArg (path.components :: ·) visiting, visited⟩

theorem Reports.leave (reports : search.Reports limits full) (path : Path) :
    (search.leave path).Reports limits (full.leave path) := by
  refine ⟨reports.cycles, reports.truncated, ?_, reports.aborted⟩
  intro active
  rcases reports.branch active with ⟨visiting, visited⟩
  simp [Search.leave, visiting, visited]

end

end Search

namespace Graph

/-- Explores a path that is reached by a trail, without limits. -/
def discover (graph : Graph) : Nat → Path → List Path → Search → Search
  | 0, _, _, search => search
  | fuel + 1, path, trail, search =>
    if search.visiting.contains path.components then search.keep trail path
    else if search.visited.contains path.components then search
    else
      ((graph.successors path).foldl
        (fun search next => graph.discover fuel next (trail ++ [path]) search)
        (search.enter path)).leave path

/-- The part of a search without limits that one node adds. -/
def discoverNode (graph : Graph) (search : Search) (node : FileNode) : Search :=
  if search.visited.contains node.path.components then search
  else graph.discover graph.exploreFuel node.path [] search

/-- The cycles that a search without limits finds. -/
def allCycles (graph : Graph) : List Cycle :=
  (graph.nodes.foldl graph.discoverNode Search.start).cycles

variable {graph : Graph} {limits : CycleLimits}

theorem cycles_prefix_discover (fuel : Nat) (path : Path) (trail : List Path) (search : Search) :
    search.cycles <+: (graph.discover fuel path trail search).cycles := by
  induction fuel generalizing path trail search with
  | zero => exact List.prefix_refl _
  | succ fuel ih =>
      rw [discover]
      split
      · unfold Search.keep
        split
        · exact List.prefix_refl _
        · exact List.prefix_append _ _
      · split
        · exact List.prefix_refl _
        · change search.cycles <+: (List.foldl _ (search.enter path) _).cycles
          apply List.foldlRecOn (motive := fun result : Search => search.cycles <+: result.cycles)
          · exact List.prefix_refl _
          · intro result found next _
            exact found.trans (ih next _ result)

theorem reports_explore (fuel : Nat) (path : Path) (trail : List Path) {search full : Search}
    (reports : search.Reports limits full) :
    (graph.explore limits fuel path trail search).Reports limits
      (graph.discover fuel path trail full) := by
  induction fuel generalizing path trail search full with
  | zero => exact reports
  | succ fuel ih =>
      cases active : search.stopped with
      | true =>
          rw [explore_of_stopped active]
          exact reports.of_stopped active (cycles_prefix_discover _ _ _ _)
      | false =>
          -- Both searches go on from the same place, so they take the same way.
          rcases reports.branch active with ⟨visiting, visited⟩
          rw [explore, discover, ← visiting, ← visited, if_neg (by simp [active])]
          split
          · exact reports.close active trail path
          · split
            · exact reports
            · apply Search.Reports.leave
              apply List.foldl_rel (r := fun search full : Search => search.Reports limits full)
              · exact reports.enter path
              · intro next _ search full reports
                exact ih next _ reports

theorem reports_visitNode {search full : Search} (reports : search.Reports limits full)
    (node : FileNode) :
    (graph.visitNode limits search node).Reports limits (graph.discoverNode full node) := by
  unfold visitNode discoverNode
  cases active : search.stopped with
  | true =>
      apply reports.of_stopped active
      split
      · exact List.prefix_refl _
      · exact cycles_prefix_discover _ _ _ _
  | false =>
      rw [← (reports.branch active).2, Bool.false_or]
      split
      · exact reports
      · exact reports_explore _ _ _ reports

theorem reports_searchCycles (graph : Graph) (limits : CycleLimits) :
    (graph.searchCycles limits).Reports limits
      (graph.nodes.foldl graph.discoverNode Search.start) := by
  rw [searchCycles_eq]
  apply List.foldl_rel (r := fun search full : Search => search.Reports limits full)
  · exact Search.reports_start limits
  · intro node _ search full reports
    exact reports_visitNode reports node

/-- A search reports, of all cycles that are short enough, as many as it may, and is stopped exactly
if there are more. -/
theorem searchCycles_eq_take (graph : Graph) (limits : CycleLimits) :
    (graph.searchCycles limits).cycles =
        (graph.allCycles.filter limits.admits).take limits.maxCycles.toNat ∧
      ((graph.searchCycles limits).truncated = true ↔
        limits.maxCycles.toNat < (graph.allCycles.filter limits.admits).length) :=
  ⟨(graph.reports_searchCycles limits).cycles, (graph.reports_searchCycles limits).truncated⟩

theorem searchCycles_of_active (active : (graph.searchCycles limits).truncated = false) :
    (graph.searchCycles limits).cycles = graph.allCycles.filter limits.admits :=
  ((graph.reports_searchCycles limits).cycles_of_active active).1

/-- A limit on the number of cycles takes the first ones of those that are reported with another
limit, if that does not stop the search, and itself stops it exactly if it leaves some out. -/
theorem searchCycles_takes_first_cycles (graph : Graph) (maxLength cap ample : UInt64)
    (complete : (graph.searchCycles ⟨maxLength, ample⟩).truncated = false) :
    (graph.searchCycles ⟨maxLength, cap⟩).cycles =
        (graph.searchCycles ⟨maxLength, ample⟩).cycles.take cap.toNat ∧
      ((graph.searchCycles ⟨maxLength, cap⟩).truncated = true ↔
        cap.toNat < (graph.searchCycles ⟨maxLength, ample⟩).cycles.length) := by
  -- The limit on the length admits the same cycles whatever the limit on their number.
  rw [searchCycles_of_active complete]
  exact graph.searchCycles_eq_take ⟨maxLength, cap⟩

/-- Three files with a loop of two and, around it, a loop of three. -/
def nestedLoops : Graph where
  root := ⟨"/"⟩
  nodes :=
    [.ofImports ⟨"/a"⟩ [⟨"/b"⟩], .ofImports ⟨"/b"⟩ [⟨"/a"⟩, ⟨"/c"⟩], .ofImports ⟨"/c"⟩ [⟨"/a"⟩]]

theorem searchCycles_takes_first_of_nestedLoops :
    (nestedLoops.searchCycles ⟨10, 2⟩).truncated = false ∧
      (nestedLoops.searchCycles ⟨10, 1⟩).cycles =
        (nestedLoops.searchCycles ⟨10, 2⟩).cycles.take 1 ∧
      (nestedLoops.searchCycles ⟨10, 1⟩).truncated = true := by
  have complete : (nestedLoops.searchCycles ⟨10, 2⟩).truncated = false := by decide
  have first := searchCycles_takes_first_cycles nestedLoops 10 1 2 complete
  exact ⟨complete, first.1, first.2.mpr (by decide)⟩

/-- The number of different files in a cycle. -/
def fileCount (cycle : Cycle) : Nat :=
  (cycle.map Path.components).toFinset.card

theorem IsImportCycle.admits_eq {cycle : Cycle} (isCycle : graph.IsImportCycle cycle)
    (representable : limits.maxLength.toNat + 1 < UInt64.size) :
    limits.admits cycle = decide (fileCount cycle ≤ limits.maxLength.toNat) := by
  have long := isCycle.two_le_length
  rw [fileCount, isCycle.card_files, Bool.eq_iff_iff, limits.admits_eq_true_iff, decide_eq_true_eq]
  omega

/-- A higher limit on the length admits more cycles, as long as it can be counted. -/
theorem admits_of_admits {shorter longer : UInt64} (le : shorter ≤ longer)
    (representable : longer.toNat + 1 < UInt64.size) (maxCycles : UInt64) {cycle : Cycle}
    (short : (CycleLimits.mk shorter maxCycles).admits cycle = true) :
    (CycleLimits.mk longer maxCycles).admits cycle = true := by
  have le_toNat := UInt64.le_iff_toNat_le.mp le
  rw [CycleLimits.admits_eq_true_iff] at short ⊢
  exact ⟨representable, short.2.trans (Nat.succ_le_succ le_toNat)⟩

/-- Of the cycles that are reported with a limit on the length, the short ones are those that are
reported with a lower one. -/
theorem searchCycles_filter {shorter longer : UInt64} (le : shorter ≤ longer)
    (representable : longer.toNat + 1 < UInt64.size) {maxCycles : UInt64}
    (complete : (graph.searchCycles ⟨shorter, maxCycles⟩).truncated = false)
    (longerComplete : (graph.searchCycles ⟨longer, maxCycles⟩).truncated = false) :
    (graph.searchCycles ⟨shorter, maxCycles⟩).cycles =
      (graph.searchCycles ⟨longer, maxCycles⟩).cycles.filter
        fun cycle => decide (fileCount cycle ≤ shorter.toNat) := by
  have shorter_representable : shorter.toNat + 1 < UInt64.size :=
    Nat.lt_of_le_of_lt (Nat.succ_le_succ (UInt64.le_iff_toNat_le.mp le)) representable
  have sound := graph.sound_searchCycles ⟨longer, maxCycles⟩
  calc (graph.searchCycles ⟨shorter, maxCycles⟩).cycles
    _ = graph.allCycles.filter (CycleLimits.mk shorter maxCycles).admits :=
        searchCycles_of_active complete
    _ = (graph.allCycles.filter (CycleLimits.mk longer maxCycles).admits).filter
          (CycleLimits.mk shorter maxCycles).admits := by
        rw [List.filter_filter]
        apply List.filter_congr
        intro cycle _
        rw [Bool.eq_self_and]
        exact admits_of_admits le representable maxCycles
    _ = (graph.searchCycles ⟨longer, maxCycles⟩).cycles.filter
          (CycleLimits.mk shorter maxCycles).admits := by
        rw [searchCycles_of_active longerComplete]
    _ = (graph.searchCycles ⟨longer, maxCycles⟩).cycles.filter
          fun cycle => decide (fileCount cycle ≤ shorter.toNat) := by
        apply List.filter_congr
        intro cycle cycle_mem
        exact (sound.isCycle cycle cycle_mem).admits_eq shorter_representable

/-! ## Aborted searches -/

/-- Some file leads back to itself. -/
def HasLoop (graph : Graph) : Prop :=
  ∃ path, Relation.TransGen graph.HasEdge path path

theorem IsImportCycle.hasLoop {cycle : Cycle} (isCycle : graph.IsImportCycle cycle) :
    graph.HasLoop := by
  rcases List.eq_nil_or_concat cycle with rfl | ⟨inner, last, rfl⟩
  · exact absurd isCycle.two_le_length (by simp)
  · have last_mem : last ∈ (inner.concat last).getLast? := by simp
    exact ⟨last, (isCycle.transGen (by simp) last_mem).1⟩

/-- A search that cannot tell short cycles from long ones records none. So if it went on to its end,
no edge would close a cycle. -/
theorem overflowed_of_hasLoop (overflows : limits.maxEntries? = none) (loop : graph.HasLoop) :
    (graph.searchCycles limits).overflowed = true := by
  by_contra running
  rw [Bool.not_eq_true] at running
  have uncounted := (graph.sound_searchCycles limits).uncounted overflows
  have active : (graph.searchCycles limits).stopped = false := by
    simp [Search.stopped, uncounted.2, running]
  have room : Search.LeavesRoom limits graph := by simp [Search.LeavesRoom, overflows]
  rcases loop with ⟨path, loop⟩
  refine not_transGen_keepsEdge room active path (Relation.TransGen.mono ?_ path path loop)
  intro source target edge
  exact ⟨edge, by simp [Closes, uncounted.1]⟩

theorem overflowed_iff (graph : Graph) (limits : CycleLimits) :
    (graph.searchCycles limits).overflowed = true ↔
      ¬limits.maxLength.toNat + 1 < UInt64.size ∧ graph.HasLoop := by
  rw [← limits.maxEntries?_eq_none_iff]
  constructor
  · intro overflowed
    rcases (graph.sound_searchCycles limits).aborted overflowed with ⟨overflows, cycle, isCycle⟩
    exact ⟨overflows, isCycle.hasLoop⟩
  · rintro ⟨overflows, loop⟩
    exact overflowed_of_hasLoop overflows loop

/-- A search is aborted exactly if the entries of cycles cannot be counted and there is a loop. -/
theorem findCycles_eq_error_iff (graph : Graph) (limits : CycleLimits) :
    graph.findCycles limits = .error .overflow ↔
      ¬limits.maxLength.toNat + 1 < UInt64.size ∧ graph.HasLoop := by
  rw [← overflowed_iff]
  simp [findCycles]

/-- A search that is not aborted returns what it has found. -/
theorem findCycles_eq_ok_iff (graph : Graph) (limits : CycleLimits) (search : Search) :
    graph.findCycles limits = .ok search ↔
      (limits.maxLength.toNat + 1 < UInt64.size ∨ ¬graph.HasLoop) ∧
        graph.searchCycles limits = search := by
  rw [← not_not (a := limits.maxLength.toNat + 1 < UInt64.size), ← not_and_or, ← overflowed_iff]
  unfold findCycles
  dsimp only
  split <;> simp [*]

theorem cycles_eq_nil_of_not_hasLoop (acyclic : ¬graph.HasLoop) :
    (graph.searchCycles limits).cycles = [] := by
  apply List.eq_nil_iff_forall_not_mem.mpr
  intro cycle cycle_mem
  exact acyclic ((graph.sound_searchCycles limits).isCycle cycle cycle_mem).hasLoop

/-- A lower limit on the length takes the short ones of the cycles that are reported with a higher
one, in their order. With the largest limit that can be given there is nothing to compare with,
unless the graph has no loop: the search is aborted. -/
theorem findCycles_takes_short_cycles (graph : Graph) (shorter longer maxCycles : UInt64)
    (le : shorter ≤ longer) :
    (graph.findCycles ⟨longer, maxCycles⟩ = .error .overflow ↔
      ¬longer.toNat + 1 < UInt64.size ∧ graph.HasLoop) ∧
      ∀ long, graph.findCycles ⟨longer, maxCycles⟩ = .ok long →
        ∃ short, graph.findCycles ⟨shorter, maxCycles⟩ = .ok short ∧
          (short.truncated = false → long.truncated = false →
            short.cycles =
              long.cycles.filter fun cycle => decide (fileCount cycle ≤ shorter.toNat)) := by
  refine ⟨graph.findCycles_eq_error_iff ⟨longer, maxCycles⟩, ?_⟩
  intro long returned
  rcases (graph.findCycles_eq_ok_iff ⟨longer, maxCycles⟩ long).mp returned with ⟨counts, rfl⟩
  have shorterCounts : shorter.toNat + 1 < UInt64.size ∨ ¬graph.HasLoop := by
    refine counts.imp_left fun representable => ?_
    exact Nat.lt_of_le_of_lt (Nat.succ_le_succ (UInt64.le_iff_toNat_le.mp le)) representable
  refine ⟨graph.searchCycles ⟨shorter, maxCycles⟩, ?_, ?_⟩
  · exact (graph.findCycles_eq_ok_iff ⟨shorter, maxCycles⟩ _).mpr ⟨shorterCounts, rfl⟩
  · intro complete longerComplete
    rcases counts with representable | acyclic
    · exact searchCycles_filter le representable complete longerComplete
    · rw [cycles_eq_nil_of_not_hasLoop acyclic, cycles_eq_nil_of_not_hasLoop acyclic,
        List.filter_nil]

theorem findCycles_takes_short_of_nestedLoops :
    (2 : UInt64) ≤ 3 ∧
      ∃ short long, nestedLoops.findCycles ⟨2, 50⟩ = .ok short ∧
        nestedLoops.findCycles ⟨3, 50⟩ = .ok long ∧
        short.truncated = false ∧ long.truncated = false ∧
        long.cycles = [[⟨"/a"⟩, ⟨"/b"⟩, ⟨"/a"⟩], [⟨"/a"⟩, ⟨"/b"⟩, ⟨"/c"⟩, ⟨"/a"⟩]] ∧
        short.cycles = long.cycles.filter fun cycle => decide (fileCount cycle ≤ 2) := by
  have le : (2 : UInt64) ≤ 3 := by decide
  rcases (findCycles_takes_short_cycles nestedLoops 2 3 50 le).2
    (nestedLoops.searchCycles ⟨3, 50⟩) (by decide) with ⟨short, returned, filters⟩
  have same : nestedLoops.searchCycles ⟨2, 50⟩ = short :=
    ((nestedLoops.findCycles_eq_ok_iff ⟨2, 50⟩ short).mp returned).2
  have complete : short.truncated = false := by
    rw [← same]
    decide
  have longerComplete : (nestedLoops.searchCycles ⟨3, 50⟩).truncated = false := by decide
  exact ⟨le, short, nestedLoops.searchCycles ⟨3, 50⟩, returned, by decide, complete,
    longerComplete, by decide, filters complete longerComplete⟩

/-- The loop of two files is found with the limit of two, and the largest limit aborts the
search. -/
theorem findCycles_largest_limit_aborts_on_nestedLoops :
    (2 : UInt64) ≤ 18446744073709551615 ∧
      nestedLoops.findCycles ⟨18446744073709551615, 50⟩ = .error .overflow ∧
      ∃ short, nestedLoops.findCycles ⟨2, 50⟩ = .ok short ∧ short.truncated = false ∧
        short.cycles = [[⟨"/a"⟩, ⟨"/b"⟩, ⟨"/a"⟩]] := by
  refine ⟨by decide, by decide, nestedLoops.searchCycles ⟨2, 50⟩, by decide, by decide, by decide⟩

end Graph

/-- There is a report on a graph unless the search is aborted. -/
theorem CycleReport.ofGraph_eq_ok_iff (graph : Graph) (limits : CycleLimits)
    (report : CycleReport) :
    CycleReport.ofGraph graph limits = .ok report ↔
      (limits.maxLength.toNat + 1 < UInt64.size ∨ ¬graph.HasLoop) ∧
        CycleReport.ofSearch graph limits (graph.searchCycles limits) = report := by
  rw [CycleReport.ofGraph]
  constructor
  · intro reported
    cases returned : graph.findCycles limits with
    | error cause => simp [returned, Except.map] at reported
    | ok search =>
        rw [returned] at reported
        rcases (graph.findCycles_eq_ok_iff limits search).mp returned with ⟨counts, rfl⟩
        exact ⟨counts, Except.ok.inj reported⟩
  · rintro ⟨counts, rfl⟩
    rw [(graph.findCycles_eq_ok_iff limits _).mpr ⟨counts, rfl⟩]
    rfl

end CodeFacts.Imports
