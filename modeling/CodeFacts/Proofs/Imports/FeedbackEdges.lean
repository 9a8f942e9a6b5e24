import CodeFacts.Proofs.Imports.CycleSoundness
import Mathlib.Logic.Relation

/-!
# Closing edges cut every cycle

A search does not report every cycle: one that passes through a finished path is left out. What a
search that was not stopped does guarantee is that the closing edges of the reported cycles, those
between their last two entries, meet every cycle of the graph. Without them the graph has no cycle.

The proof reads the list of finished paths as an order. When a path is finished, each file that it
imports is either finished already or on the current branch, and in the second case the edge has
just closed a cycle, which was recorded since no cycle of the graph is too long. So the edges that
close nothing lead from a finished path to paths that were finished before it, and no walk along
such edges comes back.
-/

namespace CodeFacts.Imports

/-- An edge closes a reported cycle: the last two entries of the cycle are its ends. -/
def Closes (cycles : List Cycle) (source target : Path) : Prop :=
  ∃ cycle ∈ cycles, [source.components, target.components] <:+ cycle.map Path.components

theorem closes_congr {cycles : List Cycle} {source source' target target' : Path}
    (sameSource : source.components = source'.components)
    (sameTarget : target.components = target'.components) :
    Closes cycles source target ↔ Closes cycles source' target' := by
  simp only [Closes, sameSource, sameTarget]

theorem Closes.mono {cycles more : List Cycle} {source target : Path}
    (closes : Closes cycles source target) (grows : cycles <+: more) :
    Closes more source target := by
  rcases closes with ⟨cycle, cycle_mem, ends⟩
  exact ⟨cycle, grows.subset cycle_mem, ends⟩

namespace Search

/-- The finished paths are in order: an edge from one of them leads to a path that was finished
before it, or closes a reported cycle. -/
structure Ordered (search : Search) (graph : Graph) : Prop where
  nodup : search.visited.Nodup
  settled : ∀ {source target : Path} {older : List (List Component)},
    source.components :: older <:+ search.visited → graph.HasEdge source target →
      target.components ∈ older ∨ Closes search.cycles source target

theorem ordered_start (graph : Graph) : start.Ordered graph := by
  refine ⟨List.nodup_nil, ?_⟩
  intro source target older before _
  simp [start] at before

theorem Ordered.close {search : Search} {graph : Graph} (ordered : search.Ordered graph)
    (limits : CycleLimits) (trail : List Path) (path : Path) :
    (search.close limits trail path).Ordered graph := by
  refine ⟨?_, ?_⟩
  · rw [close_visited]
    exact ordered.nodup
  · intro source target older before edge
    rw [close_visited] at before
    rcases ordered.settled before edge with finished | closes
    · exact Or.inl finished
    · exact Or.inr (closes.mono (grows_close search limits trail path).cycles)

/-- A path is left once everything that it imports is finished or closes a cycle. -/
theorem Ordered.leave {search : Search} {graph : Graph} {path : Path}
    (ordered : search.Ordered graph) (fresh : path.components ∉ search.visited)
    (explored : ∀ next ∈ graph.successors path,
      next.components ∈ search.visited ∨ Closes search.cycles path next) :
    (search.leave path).Ordered graph := by
  refine ⟨List.nodup_cons.mpr ⟨fresh, ordered.nodup⟩, ?_⟩
  intro source target older before edge
  rcases List.suffix_cons_iff.mp before with last | earlier
  · rw [List.cons.injEq] at last
    rcases last with ⟨same, rfl⟩
    rcases edge with ⟨node, node_mem, here, next, next_mem, sameTarget⟩
    have listed : graph.Lists path next := ⟨node, node_mem, here.trans same, next_mem⟩
    rcases explored next ((graph.mem_successors_iff path next).mpr listed) with finished | closes
    · rw [← sameTarget]
      exact Or.inl finished
    · exact Or.inr ((closes_congr same.symm sameTarget).mp closes)
  · exact ordered.settled earlier edge

theorem mem_record_of_active {search : Search} {limits : CycleLimits} {cycle : Cycle}
    (active : (search.record limits cycle).stopped = false) :
    cycle ∈ (search.record limits cycle).cycles := by
  unfold record at active ⊢
  split
  · rename_i full
    rw [if_pos full] at active
    exact absurd active (by simp [stopped])
  · exact List.mem_append_right _ (List.mem_singleton_self cycle)

/-- A limit leaves room for every cycle of a graph, if entries can be counted at all. -/
def LeavesRoom (limits : CycleLimits) (graph : Graph) : Prop :=
  ∀ maxEntries, limits.maxEntries? = some maxEntries → graph.nodes.length < maxEntries

/-- An edge back into the current branch closes a cycle, and the cycle is recorded unless the search
is stopped, provided that the limit leaves room for every cycle. -/
theorem Follows.closes {search : Search} {graph : Graph} {limits : CycleLimits}
    {trail : List Path} {source target : Path}
    (room : LeavesRoom limits graph) (route : graph.IsRoute (trail ++ [source] ++ [target]))
    (follows : search.Follows (trail ++ [source]))
    (visiting : target.components ∈ search.visiting)
    (active : (search.close limits (trail ++ [source]) target).stopped = false) :
    Closes (search.close limits (trail ++ [source]) target).cycles source target := by
  have bounded := follows.length_le route
  rcases follows.close_eq visiting limits with ⟨front, first, rest, split, same, closed⟩
  have recorded : search.consider limits (first :: rest ++ [target]) =
      search.record limits (first :: rest ++ [target]) := by
    rcases search.consider_cases limits (first :: rest ++ [target]) with
      ⟨-, aborted⟩ | ⟨maxEntries, counts, ⟨-, recorded⟩ | ⟨long, -⟩⟩
    · rw [closed, aborted] at active
      exact absurd active (by simp [stopped])
    · exact recorded
    · have enough := room maxEntries counts
      have lengths := congrArg List.length split
      simp only [List.length_append, List.length_cons, List.length_nil] at lengths bounded long
      omega
  rw [closed, recorded] at active ⊢
  refine ⟨first :: rest ++ [target], mem_record_of_active active, ?_⟩
  rcases List.eq_nil_or_concat (first :: rest) with none | ⟨inner, last, ends⟩
  · simp at none
  · rw [List.concat_eq_append] at ends
    rw [ends, ← List.append_assoc] at split
    rcases List.append_inj' split rfl with ⟨-, lastEq⟩
    rw [List.singleton_inj] at lastEq
    refine ⟨inner.map Path.components, ?_⟩
    simp [ends, lastEq]

end Search

namespace Graph

variable {graph : Graph} {limits : CycleLimits}

/-- After an exploration the path is finished, or the edge to it has closed a cycle. -/
theorem explore_settles {fuel : Nat} {trail : List Path} {source target : Path}
    {search : Search} (room : Search.LeavesRoom limits graph)
    (route : graph.IsRoute (trail ++ [source] ++ [target]))
    (follows : search.Follows (trail ++ [source]))
    (active :
      (graph.explore limits (fuel + 1) target (trail ++ [source]) search).stopped = false) :
    target.components ∈
        (graph.explore limits (fuel + 1) target (trail ++ [source]) search).visited ∨
      Closes (graph.explore limits (fuel + 1) target (trail ++ [source]) search).cycles
        source target := by
  rcases explore_cases graph limits fuel target (trail ++ [source]) search with
    ⟨same, reason⟩ | ⟨closed, -, visiting⟩ | ⟨expanded, -, -, -⟩
  · rw [same] at active ⊢
    rcases reason with stopped | visited
    · exact absurd stopped (by simp [active])
    · exact Or.inl visited
  · rw [closed] at active ⊢
    exact Or.inr (follows.closes room route visiting active)
  · rw [expanded]
    exact Or.inl List.mem_cons_self

/-- When everything that a path imports has been explored, each of these files is finished or has
closed a cycle. -/
theorem exploreSuccessors_settles {fuel : Nat} {trail : List Path} {path : Path}
    {search : Search} (room : Search.LeavesRoom limits graph)
    (route : graph.IsRoute (trail ++ [path])) (entered : (search.enter path).Follows (trail ++ [path]))
    (active : (graph.exploreSuccessors limits (fuel + 1) path trail search).stopped = false)
    {next : Path} (next_mem : next ∈ graph.successors path) :
    next.components ∈ (graph.exploreSuccessors limits (fuel + 1) path trail search).visited ∨
      Closes (graph.exploreSuccessors limits (fuel + 1) path trail search).cycles path next := by
  rcases Search.exists_grows_foldl
    (fun search next => graph.explore limits (fuel + 1) next (trail ++ [path]) search)
    entered (fun search next => explore_follows (fuel + 1) next (trail ++ [path]) search)
    (fun search next => grows_explore (fuel + 1) next (trail ++ [path]) search) next_mem with
    ⟨here, follows, grows⟩
  rcases explore_settles room (route.snoc next_mem) follows (grows.active active) with
    finished | closes
  · exact Or.inl (grows.visited.subset finished)
  · exact Or.inr (closes.mono grows.cycles)

/-- A search that is not stopped keeps the finished paths in order. -/
theorem explore_ordered (room : Search.LeavesRoom limits graph) (fuel : Nat)
    {path : Path} {trail : List Path} {search : Search}
    (route : graph.IsRoute (trail ++ [path])) (follows : search.Follows trail)
    (enough : graph.exploreFuel ≤ fuel + trail.length)
    (ordered : search.stopped = false → search.Ordered graph)
    (active : (graph.explore limits fuel path trail search).stopped = false) :
    (graph.explore limits fuel path trail search).Ordered graph := by
  induction fuel generalizing path trail search with
  | zero => exact absurd (fuel_pos route follows enough) (by simp)
  | succ fuel ih =>
      rcases explore_cases graph limits fuel path trail search with
        ⟨same, -⟩ | ⟨closed, running, -⟩ | ⟨expanded, running, notVisiting, notVisited⟩
      · rw [same] at active ⊢
        exact ordered active
      · rw [closed]
        exact (ordered running).close limits trail path
      · rw [expanded] at active ⊢
        have entered := follows.enter notVisiting notVisited
        have explored : (graph.exploreSuccessors limits fuel path trail search).Follows
            (trail ++ [path]) ∧
            ((graph.exploreSuccessors limits fuel path trail search).stopped = false →
              (graph.exploreSuccessors limits fuel path trail search).Ordered graph) := by
          apply exploreSuccessors_induction (motive := fun search =>
            search.Follows (trail ++ [path]) ∧
              (search.stopped = false → search.Ordered graph))
          · exact ⟨entered, fun _ => ⟨(ordered running).nodup, (ordered running).settled⟩⟩
          · intro search inner next next_mem
            refine ⟨explore_follows _ _ _ _ inner.1, ?_⟩
            apply ih (route.snoc next_mem) inner.1 _ inner.2
            simp only [List.length_append, List.length_singleton]
            omega
        apply (explored.2 active).leave
        · exact explored.1.unfinished path (by simp)
        · intro next next_mem
          have positive : 0 < fuel := by
            apply fuel_pos (route.snoc next_mem) entered
            simp only [List.length_append, List.length_singleton]
            omega
          rcases fuel with _ | fuel
          · exact absurd positive (by simp)
          · exact exploreSuccessors_settles room route entered active next_mem

theorem searchCycles_ordered (room : Search.LeavesRoom limits graph)
    (active : (graph.searchCycles limits).stopped = false) :
    (graph.searchCycles limits).Ordered graph := by
  have ordered : (graph.searchCycles limits).stopped = false →
      (graph.searchCycles limits).Ordered graph := by
    apply searchCycles_induction (motive := fun search : Search =>
      search.stopped = false → search.Ordered graph)
    · intro _
      exact Search.ordered_start graph
    · intro search node node_mem follows ordered active
      exact explore_ordered room _ (isRoute_node node_mem) follows (Nat.le_add_right _ _)
        ordered active
  exact ordered active

/-- Exploring a node from the empty trail finishes it, unless the search is stopped. -/
theorem explore_visits_root {path : Path} {search : Search} (follows : search.Follows [])
    (active : (graph.explore limits graph.exploreFuel path [] search).stopped = false) :
    path.components ∈ (graph.explore limits graph.exploreFuel path [] search).visited := by
  unfold exploreFuel at active ⊢
  rcases explore_cases graph limits (graph.nodes.length + graph.edgeCount) path [] search with
    ⟨same, reason⟩ | ⟨-, -, visiting⟩ | ⟨expanded, -, -, -⟩
  · rw [same] at active ⊢
    rcases reason with stopped | visited
    · exact absurd stopped (by simp [active])
    · exact visited
  · rw [follows.visiting_eq] at visiting
    simp at visiting
  · rw [expanded]
    exact List.mem_cons_self

/-- A search that is not stopped finishes every node. -/
theorem searchCycles_visits (active : (graph.searchCycles limits).stopped = false)
    {node : FileNode} (node_mem : node ∈ graph.nodes) :
    node.path.components ∈ (graph.searchCycles limits).visited := by
  rw [searchCycles_eq] at active ⊢
  rcases Search.exists_grows_foldl (graph.visitNode limits) Search.follows_start
    (visitNode_follows graph limits) (grows_visitNode graph limits) node_mem with
    ⟨here, follows, grows⟩
  apply grows.visited.subset
  have running := grows.active active
  unfold visitNode at running ⊢
  split at running
  · rename_i settled
    rw [if_pos settled]
    simpa [running] using settled
  · rename_i fresh
    rw [if_neg fresh]
    exact explore_visits_root follows running

/-- An edge that closes none of the reported cycles. -/
def KeepsEdge (graph : Graph) (cycles : List Cycle) (source target : Path) : Prop :=
  graph.HasEdge source target ∧ ¬Closes cycles source target

/-- Along edges that close nothing, a finished path leads only to paths finished before it. -/
theorem mem_older_of_transGen {search : Search} (ordered : search.Ordered graph)
    {source target : Path} {older : List (List Component)}
    (before : source.components :: older <:+ search.visited)
    (walk : Relation.TransGen (graph.KeepsEdge search.cycles) source target) :
    target.components ∈ older := by
  induction walk with
  | single kept =>
      rcases ordered.settled before kept.1 with finished | closes
      · exact finished
      · exact absurd closes kept.2
  | tail _ kept ih =>
      rcases List.append_of_mem ih with ⟨newer, oldest, rfl⟩
      have suffix := ((List.suffix_append newer _).trans (List.suffix_cons _ _)).trans before
      rcases ordered.settled suffix kept.1 with finished | closes
      · exact List.mem_append_right _ (List.mem_cons_of_mem _ finished)
      · exact absurd closes kept.2

/-- Without the closing edges of the reported cycles the graph has no cycle. -/
theorem not_transGen_keepsEdge (room : Search.LeavesRoom limits graph)
    (active : (graph.searchCycles limits).stopped = false) (path : Path) :
    ¬Relation.TransGen (graph.KeepsEdge (graph.searchCycles limits).cycles) path path := by
  intro loop
  have ordered := searchCycles_ordered room active
  have node : graph.contains path = true := by
    rcases Relation.TransGen.head'_iff.mp loop with ⟨next, kept, -⟩
    exact contains_of_hasEdge kept.1
  rw [contains_iff_mem_locations, locations, List.mem_map] at node
  rcases node with ⟨node, node_mem, same⟩
  have finished := searchCycles_visits active node_mem
  rw [same] at finished
  rcases List.append_of_mem finished with ⟨newer, older, split⟩
  have before : path.components :: older <:+ (graph.searchCycles limits).visited := by
    rw [split]
    exact List.suffix_append newer _
  have again := mem_older_of_transGen ordered before loop
  have nodup := ordered.nodup
  rw [split] at nodup
  exact (List.nodup_cons.mp (List.nodup_append.mp nodup).2.1).1 again

/-- A walk either avoids the closing edges or passes one of them. -/
theorem transGen_keepsEdge_or_closes {cycles : List Cycle} {first last : Path}
    (walk : Relation.TransGen graph.HasEdge first last) :
    Relation.TransGen (graph.KeepsEdge cycles) first last ∨
      ∃ source target, Relation.ReflTransGen graph.HasEdge first source ∧
        graph.HasEdge source target ∧ Closes cycles source target ∧
          Relation.ReflTransGen graph.HasEdge target last := by
  induction walk with
  | @single last edge =>
      by_cases closes : Closes cycles first last
      · exact Or.inr ⟨first, last, .refl, edge, closes, .refl⟩
      · exact Or.inl (.single ⟨edge, closes⟩)
  | @tail middle last before edge ih =>
      rcases ih with kept | ⟨source, target, start, closing, closes, rest⟩
      · by_cases closes : Closes cycles middle last
        · exact Or.inr ⟨middle, last, before.to_reflTransGen, edge, closes, .refl⟩
        · exact Or.inl (kept.tail ⟨edge, closes⟩)
      · exact Or.inr ⟨source, target, start, closing, closes, rest.tail edge⟩

/-- Walks depend on what their ends mean and not on how they are written, if edges do. -/
theorem transGen_congr {Edge : Path → Path → Prop} {first first' last last' : Path}
    (edge_congr : ∀ {source source' target target' : Path},
      source.components = source'.components → target.components = target'.components →
        (Edge source target ↔ Edge source' target'))
    (sameFirst : first.components = first'.components)
    (sameLast : last.components = last'.components)
    (walk : Relation.TransGen Edge first last) : Relation.TransGen Edge first' last' := by
  have started : Relation.TransGen Edge first' last := by
    rcases Relation.TransGen.head'_iff.mp walk with ⟨next, edge, rest⟩
    exact .head' ((edge_congr sameFirst rfl).mp edge) rest
  rcases Relation.TransGen.tail'_iff.mp started with ⟨previous, rest, edge⟩
  exact .tail' rest ((edge_congr rfl sameLast).mp edge)

theorem keepsEdge_congr (graph : Graph) (cycles : List Cycle)
    {source source' target target' : Path}
    (sameSource : source.components = source'.components)
    (sameTarget : target.components = target'.components) :
    graph.KeepsEdge cycles source target ↔ graph.KeepsEdge cycles source' target' :=
  and_congr (graph.hasEdge_congr sameSource sameTarget)
    (not_congr (closes_congr sameSource sameTarget))

/-- Any two entries of a cycle lead to each other. -/
theorem IsImportCycle.transGen {cycle : Cycle} (isCycle : graph.IsImportCycle cycle)
    {entry : Path} (entry_mem : entry ∈ cycle) {last : Path} (last_mem : last ∈ cycle.getLast?) :
    Relation.TransGen graph.HasEdge last entry ∧ Relation.TransGen graph.HasEdge entry last := by
  have ordered : cycle.Pairwise (Relation.TransGen graph.HasEdge) := by
    apply List.IsChain.pairwise
    exact isCycle.chain.imp fun _ _ listed => .single listed.hasEdge
  have long := isCycle.two_le_length
  have closed := isCycle.closed
  rcases List.eq_nil_or_concat cycle with rfl | ⟨loop, final, rfl⟩
  · simp at long
  rw [List.concat_eq_append] at *
  rw [List.getLast?_concat, Option.mem_some_iff] at last_mem
  subst last_mem
  cases loop with
  | nil => simp at long
  | cons first rest =>
      have same : first.components = final.components := by
        simpa [List.getLast?_cons] using closed
      have around : Relation.TransGen graph.HasEdge first final :=
        List.rel_of_pairwise_cons ordered (by simp)
      rcases List.mem_append.mp entry_mem with inner | outer
      · refine ⟨?_, (List.pairwise_append.mp ordered).2.2 entry inner final (by simp)⟩
        rcases List.mem_cons.mp inner with rfl | later
        · exact transGen_congr graph.hasEdge_congr same same.symm around
        · apply transGen_congr graph.hasEdge_congr same rfl
          exact List.rel_of_pairwise_cons ordered (List.mem_append_left _ later)
      · rw [List.mem_singleton.mp outer]
        have whole := transGen_congr graph.hasEdge_congr same rfl around
        exact ⟨whole, whole⟩

/-- A walk along the edges of a graph that comes back to the file at which it starts. -/
structure IsClosedWalk (graph : Graph) (walk : List Path) : Prop where
  two_le_length : 2 ≤ walk.length
  closed : walk.head?.map Path.components = walk.getLast?.map Path.components
  chain : walk.IsChain graph.HasEdge

/-- What it means that the closing edges of some cycles meet every cycle of a graph. -/
structure CutsEveryCycle (graph : Graph) (cycles : List Cycle) : Prop where
  /-- Every closed walk passes a closing edge. -/
  passes : ∀ walk, graph.IsClosedWalk walk →
    ∃ front source target back, walk = front ++ source :: target :: back ∧
      Closes cycles source target
  /-- Without the closing edges no file leads back to itself. -/
  acyclic : ∀ path, ¬Relation.TransGen (graph.KeepsEdge cycles) path path
  /-- A file that leads back to itself is strongly connected with all entries of some cycle. -/
  component : ∀ path, Relation.TransGen graph.HasEdge path path →
    ∃ cycle ∈ cycles, ∀ entry ∈ cycle,
      Relation.TransGen graph.HasEdge path entry ∧ Relation.TransGen graph.HasEdge entry path
  /-- If there are no cycles in the list, no file leads back to itself. -/
  none_of_nil : cycles = [] → ∀ path, ¬Relation.TransGen graph.HasEdge path path

theorem exists_closes_of_isClosedWalk {cycles : List Cycle}
    (acyclic : ∀ path, ¬Relation.TransGen (graph.KeepsEdge cycles) path path)
    {walk : List Path} (closedWalk : graph.IsClosedWalk walk) :
    ∃ front source target back, walk = front ++ source :: target :: back ∧
      Closes cycles source target := by
  by_contra none
  have kept : walk.IsChain (graph.KeepsEdge cycles) := by
    rw [List.isChain_iff_forall_rel_of_append_cons_cons]
    intro source target front back split
    have edge : graph.HasEdge source target :=
      List.isChain_iff_forall_rel_of_append_cons_cons.mp closedWalk.chain split
    exact ⟨edge, fun closes => none ⟨front, source, target, back, split, closes⟩⟩
  have ordered : walk.Pairwise (Relation.TransGen (graph.KeepsEdge cycles)) := by
    apply List.IsChain.pairwise
    exact kept.imp fun _ _ edge => .single edge
  have closed := closedWalk.closed
  have long := closedWalk.two_le_length
  rcases walk with _ | ⟨first, _ | ⟨second, rest⟩⟩
  · simp at long
  · simp at long
  · have around : Relation.TransGen (graph.KeepsEdge cycles) first
        ((second :: rest).getLast (by simp)) :=
      List.rel_of_pairwise_cons ordered (List.getLast_mem _)
    have same : ((second :: rest).getLast (by simp)).components = first.components := by
      simpa [List.getLast?_eq_some_getLast] using closed.symm
    exact acyclic first (transGen_congr (graph.keepsEdge_congr cycles) rfl same around)

theorem exists_cycle_of_transGen {cycles : List Cycle}
    (acyclic : ∀ path, ¬Relation.TransGen (graph.KeepsEdge cycles) path path)
    (isCycle : ∀ cycle ∈ cycles, graph.IsImportCycle cycle) {path : Path}
    (loop : Relation.TransGen graph.HasEdge path path) :
    ∃ cycle ∈ cycles, ∀ entry ∈ cycle,
      Relation.TransGen graph.HasEdge path entry ∧ Relation.TransGen graph.HasEdge entry path := by
  rcases transGen_keepsEdge_or_closes loop with kept | ⟨source, target, start, edge, closes, rest⟩
  · exact absurd kept (acyclic path)
  rcases closes with ⟨cycle, cycle_mem, ends⟩
  refine ⟨cycle, cycle_mem, ?_⟩
  intro entry entry_mem
  rcases List.eq_nil_or_concat cycle with rfl | ⟨inner, last, rfl⟩
  · simp at entry_mem
  have same : last.components = target.components := by
    rcases ends with ⟨front, split⟩
    have lasts := congrArg List.getLast? split
    simpa [List.getLast?_concat, eq_comm] using lasts
  have last_mem : last ∈ (inner.concat last).getLast? := by simp
  have around := (isCycle _ cycle_mem).transGen entry_mem last_mem
  constructor
  · exact (Relation.TransGen.tail' start edge).trans
      (transGen_congr graph.hasEdge_congr same rfl around.1)
  · have back : Relation.TransGen graph.HasEdge target path := Relation.TransGen.trans_right rest loop
    exact (transGen_congr graph.hasEdge_congr rfl same around.2).trans back

/-- When the limit on the length leaves room for all nodes and the search was not stopped, the
closing edges of the reported cycles meet every cycle of the graph. -/
theorem searchCycles_cuts_every_cycle (graph : Graph) (limits : CycleLimits)
    (fits : graph.nodes.length ≤ limits.maxLength.toNat)
    (representable : limits.maxLength.toNat + 1 < UInt64.size)
    (active : (graph.searchCycles limits).truncated = false) :
    graph.CutsEveryCycle (graph.searchCycles limits).cycles := by
  have room : Search.LeavesRoom limits graph := by
    intro maxEntries counts
    have entries := ((limits.maxEntries?_eq_some_iff maxEntries).mp counts).2
    omega
  have running : (graph.searchCycles limits).stopped = false := by
    simp [Search.stopped, active, overflowed_searchCycles representable]
  have acyclic := not_transGen_keepsEdge room running
  have component : ∀ path, Relation.TransGen graph.HasEdge path path →
      ∃ cycle ∈ (graph.searchCycles limits).cycles, ∀ entry ∈ cycle,
        Relation.TransGen graph.HasEdge path entry ∧
          Relation.TransGen graph.HasEdge entry path :=
    fun _ => exists_cycle_of_transGen acyclic (graph.sound_searchCycles limits).isCycle
  refine ⟨fun _ => exists_closes_of_isClosedWalk acyclic, acyclic, component, ?_⟩
  intro empty path loop
  rcases component path loop with ⟨cycle, cycle_mem, -⟩
  rw [empty] at cycle_mem
  simp at cycle_mem

/-- Four files with two loops: `/a`, `/b`, `/c`, and the longer one through `/d`, which is met when
`/c` is finished and is not reported. -/
def overlappingLoops : Graph where
  root := ⟨"/"⟩
  nodes :=
    [.ofImports ⟨"/a"⟩ [⟨"/b"⟩], .ofImports ⟨"/b"⟩ [⟨"/c"⟩, ⟨"/d"⟩], .ofImports ⟨"/c"⟩ [⟨"/a"⟩],
      .ofImports ⟨"/d"⟩ [⟨"/c"⟩]]

/-- The one cycle that is reported of the two loops meets both: it is closed by the edge from `/c`
to `/a`, which the loop through `/d` passes as well. -/
theorem searchCycles_cuts_overlappingLoops :
    overlappingLoops.nodes.length ≤ (⟨10, 50⟩ : CycleLimits).maxLength.toNat ∧
      (⟨10, 50⟩ : CycleLimits).maxLength.toNat + 1 < UInt64.size ∧
      (overlappingLoops.searchCycles ⟨10, 50⟩).truncated = false ∧
      (overlappingLoops.searchCycles ⟨10, 50⟩).cycles = [[⟨"/a"⟩, ⟨"/b"⟩, ⟨"/c"⟩, ⟨"/a"⟩]] ∧
      overlappingLoops.CutsEveryCycle [[⟨"/a"⟩, ⟨"/b"⟩, ⟨"/c"⟩, ⟨"/a"⟩]] := by
  have reported : (overlappingLoops.searchCycles ⟨10, 50⟩).cycles =
      [[⟨"/a"⟩, ⟨"/b"⟩, ⟨"/c"⟩, ⟨"/a"⟩]] := by decide
  refine ⟨by decide, by decide, by decide, reported, ?_⟩
  rw [← reported]
  exact searchCycles_cuts_every_cycle overlappingLoops ⟨10, 50⟩ (by decide) (by decide) (by decide)

end Graph

end CodeFacts.Imports
