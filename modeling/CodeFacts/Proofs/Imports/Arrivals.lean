import CodeFacts.Proofs.Imports.Trail
import Mathlib.Data.List.Dedup
import Mathlib.Data.List.Perm.Basic

/-!
# Where a search arrives

`Graph.explore` bounds the depth of its recursion. Here the same recursion is told without a bound,
as a relation between the search before and after, together with a record of every path at which
the search arrives on the way, with the trail that led there. A derivation of the relation is a
finite tree of explorations. So to find one for the search over a whole graph is to show that the
recursion ends, and that the bound never cuts it short.

Each arrival finds the search in step with its trail, and what is expanded on the way is exactly
what is finished at the end. As nothing is finished twice, nothing is expanded twice.
-/

namespace CodeFacts.Imports

/-- The search goes on to what a path imports: it has not stopped, and the path is neither on the
current branch nor finished. -/
def Search.Opens (search : Search) (path : Path) : Prop :=
  search.stopped = false ∧ path.components ∉ search.visiting ∧ path.components ∉ search.visited

instance (search : Search) (path : Path) : Decidable (search.Opens path) :=
  inferInstanceAs (Decidable (_ ∧ _ ∧ _))

/-- The search goes past a path: it has stopped, or the path is finished. -/
def Search.Passes (search : Search) (path : Path) : Prop :=
  search.stopped = true ∨ path.components ∉ search.visiting ∧ path.components ∈ search.visited

/-- A path at which a search arrives. -/
structure Arrival where
  path : Path
  /-- The paths that led there. -/
  trail : List Path
  /-- The number of explorations that are under way. -/
  depth : Nat
  /-- Where the search stands. -/
  search : Search

/-- The paths that are expanded among those at which a search arrives, in the order of arrival. -/
def expansions (arrivals : List Arrival) : List (List Component) :=
  (arrivals.filter fun arrival => decide (arrival.search.Opens arrival.path)).map
    fun arrival => arrival.path.components

section Expansions

variable {path : Path} {trail : List Path} {depth : Nat} {search : Search}

theorem expansions_cons_of_opens (opens : search.Opens path) (arrivals : List Arrival) :
    expansions (⟨path, trail, depth, search⟩ :: arrivals) =
      path.components :: expansions arrivals := by
  simp [expansions, opens]

theorem expansions_cons_of_not_opens (other : ¬search.Opens path) (arrivals : List Arrival) :
    expansions (⟨path, trail, depth, search⟩ :: arrivals) = expansions arrivals := by
  simp [expansions, other]

theorem expansions_append (arrivals others : List Arrival) :
    expansions (arrivals ++ others) = expansions arrivals ++ expansions others := by
  simp [expansions]

end Expansions

theorem Search.Passes.not_opens {search : Search} {path : Path} (passes : search.Passes path) :
    ¬search.Opens path := by
  rintro ⟨active, -, notVisited⟩
  rcases passes with stopped | ⟨-, visited⟩
  · simp [active] at stopped
  · exact notVisited visited

namespace Graph

/-- From the end of a trail the paths of a list are explored one after the other, to any depth. The
relation tells at which paths the search arrives and where it stands at the end. -/
inductive Explores (graph : Graph) (limits : CycleLimits) :
    Nat → List Path → List Path → Search → List Arrival → Search → Prop
  | done {depth : Nat} {trail : List Path} {search : Search} :
      Explores graph limits depth trail [] search [] search
  | passed {depth : Nat} {trail pending : List Path} {path : Path} {search result : Search}
      {later : List Arrival} (passes : search.Passes path)
      (rest : Explores graph limits depth trail pending search later result) :
      Explores graph limits depth trail (path :: pending) search
        (⟨path, trail, depth, search⟩ :: later) result
  | closed {depth : Nat} {trail pending : List Path} {path : Path} {search result : Search}
      {later : List Arrival} (active : search.stopped = false)
      (visiting : path.components ∈ search.visiting)
      (rest : Explores graph limits depth trail pending (search.close limits trail path) later
        result) :
      Explores graph limits depth trail (path :: pending) search
        (⟨path, trail, depth, search⟩ :: later) result
  | expanded {depth : Nat} {trail pending : List Path} {path : Path}
      {search explored result : Search} {deeper later : List Arrival} (opens : search.Opens path)
      (inner : Explores graph limits (depth + 1) (trail ++ [path]) (graph.successors path)
        (search.enter path) deeper explored)
      (rest : Explores graph limits depth trail pending (explored.leave path) later result) :
      Explores graph limits depth trail (path :: pending) search
        (⟨path, trail, depth, search⟩ :: (deeper ++ later)) result

/-- The nodes of a list are explored one after the other, each from an empty trail, unless the
search has stopped or the node is finished. -/
inductive Runs (graph : Graph) (limits : CycleLimits) :
    List FileNode → Search → List Arrival → Search → Prop
  | done {search : Search} : Runs graph limits [] search [] search
  | skipped {node : FileNode} {nodes : List FileNode} {search result : Search}
      {later : List Arrival}
      (skip : search.stopped = true ∨ node.path.components ∈ search.visited)
      (rest : Runs graph limits nodes search later result) :
      Runs graph limits (node :: nodes) search later result
  | started {node : FileNode} {nodes : List FileNode} {search explored result : Search}
      {first later : List Arrival} (active : search.stopped = false)
      (notVisited : node.path.components ∉ search.visited)
      (inner : Explores graph limits 0 [] [node.path] search first explored)
      (rest : Runs graph limits nodes explored later result) :
      Runs graph limits (node :: nodes) search (first ++ later) result

variable {graph : Graph} {limits : CycleLimits} {depth : Nat} {trail pending : List Path}
  {search result : Search} {arrivals : List Arrival} {nodes : List FileNode}

/-- There is only one way in which an exploration can go. -/
theorem Explores.unique
    (explores : graph.Explores limits depth trail pending search arrivals result)
    {others : List Arrival} {other : Search}
    (again : graph.Explores limits depth trail pending search others other) :
    others = arrivals ∧ other = result := by
  induction explores generalizing others other with
  | done =>
      cases again
      exact ⟨rfl, rfl⟩
  | passed passes _ ih =>
      cases again with
      | passed _ rest =>
          rcases ih rest with ⟨rfl, rfl⟩
          exact ⟨rfl, rfl⟩
      | closed active visiting _ =>
          rcases passes with stopped | ⟨notVisiting, -⟩
          · simp [active] at stopped
          · exact absurd visiting notVisiting
      | expanded opens _ _ => exact absurd opens passes.not_opens
  | closed active visiting _ ih =>
      cases again with
      | passed passes _ =>
          rcases passes with stopped | ⟨notVisiting, -⟩
          · simp [active] at stopped
          · exact absurd visiting notVisiting
      | closed _ _ rest =>
          rcases ih rest with ⟨rfl, rfl⟩
          exact ⟨rfl, rfl⟩
      | expanded opens _ _ => exact absurd visiting opens.2.1
  | expanded opens _ _ ihInner ihRest =>
      cases again with
      | passed passes _ => exact absurd opens passes.not_opens
      | closed _ visiting _ => exact absurd visiting opens.2.1
      | expanded _ inner rest =>
          rcases ihInner inner with ⟨rfl, rfl⟩
          rcases ihRest rest with ⟨rfl, rfl⟩
          exact ⟨rfl, rfl⟩

theorem Runs.unique (runs : graph.Runs limits nodes search arrivals result)
    {others : List Arrival} {other : Search} (again : graph.Runs limits nodes search others other) :
    others = arrivals ∧ other = result := by
  induction runs generalizing others other with
  | done =>
      cases again
      exact ⟨rfl, rfl⟩
  | skipped skip _ ih =>
      cases again with
      | skipped _ rest => exact ih rest
      | started active notVisited _ _ => simp [active, notVisited] at skip
  | started active notVisited inner _ ih =>
      cases again with
      | skipped skip _ => simp [active, notVisited] at skip
      | started _ _ innerAgain rest =>
          rcases inner.unique innerAgain with ⟨rfl, rfl⟩
          rcases ih rest with ⟨rfl, rfl⟩
          exact ⟨rfl, rfl⟩

/-- An exploration comes back to the trail with which it started. -/
theorem Explores.follows
    (explores : graph.Explores limits depth trail pending search arrivals result)
    (follows : search.Follows trail) : result.Follows trail := by
  induction explores with
  | done => exact follows
  | passed _ _ ih => exact ih follows
  | closed _ _ _ ih => exact ih (follows.close limits _)
  | expanded opens _ _ ihInner ihRest =>
      exact ihRest (ihInner (follows.enter opens.2.1 opens.2.2)).leave

theorem Runs.follows (runs : graph.Runs limits nodes search arrivals result)
    (follows : search.Follows []) : result.Follows [] := by
  induction runs with
  | done => exact follows
  | skipped _ _ ih => exact ih follows
  | started _ _ inner _ ih => exact ih (inner.follows follows)

end Graph

/-- The arrival is in step with its trail: a way through the graph led there, the search follows the
trail, and every path of the trail is under way. -/
structure Arrival.InStep (arrival : Arrival) (graph : Graph) : Prop where
  route : graph.IsRoute (arrival.trail ++ [arrival.path])
  follows : arrival.search.Follows arrival.trail
  depth_eq : arrival.depth = arrival.trail.length

namespace Graph

variable {graph : Graph} {limits : CycleLimits} {depth : Nat} {trail pending : List Path}
  {search result : Search} {arrivals : List Arrival} {nodes : List FileNode}

theorem Explores.inStep
    (explores : graph.Explores limits depth trail pending search arrivals result)
    (routes : ∀ path ∈ pending, graph.IsRoute (trail ++ [path])) (follows : search.Follows trail)
    (depth_eq : depth = trail.length) : ∀ arrival ∈ arrivals, arrival.InStep graph := by
  induction explores with
  | done => simp
  | passed _ _ ih =>
      rw [List.forall_mem_cons] at routes ⊢
      exact ⟨⟨routes.1, follows, depth_eq⟩, ih routes.2 follows depth_eq⟩
  | closed _ _ _ ih =>
      rw [List.forall_mem_cons] at routes ⊢
      exact ⟨⟨routes.1, follows, depth_eq⟩, ih routes.2 (follows.close limits _) depth_eq⟩
  | expanded opens inner _ ihInner ihRest =>
      have entered := follows.enter opens.2.1 opens.2.2
      rw [List.forall_mem_cons] at routes ⊢
      rw [List.forall_mem_append]
      refine ⟨⟨routes.1, follows, depth_eq⟩, ihInner ?_ entered ?_, ?_⟩
      · intro next next_mem
        exact routes.1.snoc next_mem
      · simp [depth_eq]
      · exact ihRest routes.2 (inner.follows entered).leave depth_eq

theorem Runs.inStep (runs : graph.Runs limits nodes search arrivals result)
    (known : nodes ⊆ graph.nodes) (follows : search.Follows []) :
    ∀ arrival ∈ arrivals, arrival.InStep graph := by
  induction runs with
  | done => simp
  | skipped _ _ ih => exact ih (List.subset_of_cons_subset known) follows
  | started _ _ inner _ ih =>
      rw [List.forall_mem_append]
      refine ⟨inner.inStep ?_ follows rfl, ?_⟩
      · simpa using isRoute_node (known List.mem_cons_self)
      · exact ih (List.subset_of_cons_subset known) (inner.follows follows)

/-- What is finished after an exploration was finished before, or has been expanded. -/
theorem Explores.perm_visited
    (explores : graph.Explores limits depth trail pending search arrivals result) :
    result.visited.Perm (expansions arrivals ++ search.visited) := by
  induction explores with
  | done => exact List.Perm.refl _
  | passed passes _ ih => rwa [expansions_cons_of_not_opens passes.not_opens]
  | closed _ visiting _ ih =>
      have other := fun opens : Search.Opens _ _ => opens.2.1 visiting
      rw [Search.close_visited] at ih
      rwa [expansions_cons_of_not_opens other]
  | @expanded _ _ _ path search explored result deeper later opens _ _ ihInner ihRest =>
      rw [expansions_cons_of_opens opens, expansions_append]
      have finished : (explored.leave path).visited.Perm
          (path.components :: expansions deeper ++ search.visited) := ihInner.cons _
      have exchanged : (expansions later ++ (path.components :: expansions deeper)).Perm
          (path.components :: expansions deeper ++ expansions later) := List.perm_append_comm
      refine (ihRest.trans (finished.append_left _)).trans ?_
      rw [← List.append_assoc]
      exact exchanged.append_right _

theorem Runs.perm_visited (runs : graph.Runs limits nodes search arrivals result) :
    result.visited.Perm (expansions arrivals ++ search.visited) := by
  induction runs with
  | done => exact List.Perm.refl _
  | skipped _ _ ih => exact ih
  | started _ _ inner _ ih =>
      rw [expansions_append]
      refine (ih.trans (inner.perm_visited.append_left _)).trans ?_
      rw [← List.append_assoc]
      exact List.perm_append_comm.append_right _

/-- No path is finished twice, since a path that is left was on the branch until then. -/
theorem Explores.nodup_visited
    (explores : graph.Explores limits depth trail pending search arrivals result)
    (follows : search.Follows trail) (nodup : search.visited.Nodup) : result.visited.Nodup := by
  induction explores with
  | done => exact nodup
  | passed _ _ ih => exact ih follows nodup
  | closed _ _ _ ih => exact ih (follows.close limits _) (by rwa [Search.close_visited])
  | expanded opens inner _ ihInner ihRest =>
      have entered := follows.enter opens.2.1 opens.2.2
      have explored := inner.follows entered
      have unfinished := explored.unfinished _
        (List.mem_append_right _ (List.mem_singleton_self _))
      exact ihRest explored.leave (List.nodup_cons.mpr ⟨unfinished, ihInner entered nodup⟩)

theorem Runs.nodup_visited (runs : graph.Runs limits nodes search arrivals result)
    (follows : search.Follows []) (nodup : search.visited.Nodup) : result.visited.Nodup := by
  induction runs with
  | done => exact nodup
  | skipped _ _ ih => exact ih follows nodup
  | started _ _ inner _ ih => exact ih (inner.follows follows) (inner.nodup_visited follows nodup)

/-- What is explored first and what is explored next make one exploration. -/
theorem Explores.cons {path : Path} {middle : Search} {first later : List Arrival}
    (explores : graph.Explores limits depth trail [path] search first middle)
    (rest : graph.Explores limits depth trail pending middle later result) :
    graph.Explores limits depth trail (path :: pending) search (first ++ later) result := by
  cases explores with
  | passed passes ended =>
      cases ended
      exact .passed passes rest
  | closed active visiting ended =>
      cases ended
      exact .closed active visiting rest
  | expanded opens inner ended =>
      cases ended
      rw [List.append_nil]
      exact .expanded opens inner rest

/-- A fold over a list of paths is an exploration of them if it is one for each path. -/
theorem exists_explores_foldl {step : Search → Path → Search}
    (explores : ∀ path ∈ pending, ∀ search : Search, search.Follows trail →
      ∃ arrivals, graph.Explores limits depth trail [path] search arrivals (step search path))
    (follows : search.Follows trail) :
    ∃ arrivals, graph.Explores limits depth trail pending search arrivals
      (pending.foldl step search) := by
  induction pending generalizing search with
  | nil => exact ⟨[], .done⟩
  | cons path pending ih =>
      rw [List.forall_mem_cons] at explores
      rcases explores.1 search follows with ⟨first, here⟩
      rcases ih explores.2 (here.follows follows) with ⟨later, rest⟩
      exact ⟨first ++ later, here.cons rest⟩

/-- With enough fuel an exploration goes on to its end. -/
theorem exists_explores_explore (fuel : Nat) {path : Path}
    (route : graph.IsRoute (trail ++ [path])) (follows : search.Follows trail)
    (enough : graph.exploreFuel ≤ fuel + trail.length) :
    ∃ arrivals, graph.Explores limits trail.length trail [path] search arrivals
      (graph.explore limits fuel path trail search) := by
  induction fuel generalizing path trail search with
  | zero => exact absurd (fuel_pos route follows enough) (Nat.lt_irrefl 0)
  | succ fuel ih =>
      by_cases stopped : search.stopped = true
      · rw [explore_of_stopped stopped]
        exact ⟨_, .passed (Or.inl stopped) .done⟩
      rw [Bool.not_eq_true] at stopped
      by_cases visiting : path.components ∈ search.visiting
      · rw [explore_of_visiting stopped visiting]
        exact ⟨_, .closed stopped visiting .done⟩
      by_cases visited : path.components ∈ search.visited
      · rw [explore_of_visited stopped visiting visited]
        exact ⟨_, .passed (Or.inr ⟨visiting, visited⟩) .done⟩
      rw [explore_of_fresh stopped visiting visited]
      have deeper : ∃ arrivals, graph.Explores limits (trail.length + 1) (trail ++ [path])
          (graph.successors path) (search.enter path) arrivals
          (graph.exploreSuccessors limits fuel path trail search) := by
        refine exists_explores_foldl ?_ (follows.enter visiting visited)
        intro next next_mem search follows
        have longer : (trail ++ [path]).length = trail.length + 1 := by simp
        rw [← longer]
        exact ih (route.snoc next_mem) follows (by omega)
      rcases deeper with ⟨arrivals, inner⟩
      exact ⟨_, .expanded ⟨stopped, visiting, visited⟩ inner .done⟩

theorem exists_runs_foldl (known : nodes ⊆ graph.nodes) (follows : search.Follows []) :
    ∃ arrivals, graph.Runs limits nodes search arrivals
      (nodes.foldl (graph.visitNode limits) search) := by
  induction nodes generalizing search with
  | nil => exact ⟨[], .done⟩
  | cons node nodes ih =>
      have node_mem := known List.mem_cons_self
      have others := List.subset_of_cons_subset known
      rw [List.foldl_cons, visitNode]
      split
      · rename_i skip
        rcases ih others follows with ⟨later, rest⟩
        exact ⟨later, .skipped (by simpa using skip) rest⟩
      · rename_i fresh
        simp only [Bool.or_eq_true, List.contains_iff_mem, not_or, Bool.not_eq_true] at fresh
        have reached : ∃ arrivals, graph.Explores limits 0 [] [node.path] search arrivals
            (graph.explore limits graph.exploreFuel node.path [] search) :=
          exists_explores_explore _ (isRoute_node node_mem) follows (Nat.le_refl _)
        rcases reached with ⟨first, inner⟩
        rcases ih others (inner.follows follows) with ⟨later, rest⟩
        exact ⟨first ++ later, .started fresh.1 fresh.2 inner rest⟩

/-- The search over a graph runs to its end. -/
theorem exists_runs_searchCycles (graph : Graph) (limits : CycleLimits) :
    ∃ arrivals, graph.Runs limits graph.nodes Search.start arrivals (graph.searchCycles limits) :=
  exists_runs_foldl (List.Subset.refl _) Search.follows_start

/-- What the paths of a graph mean: those of its nodes, and those at which its edges end. -/
def endpoints (graph : Graph) : List (List Component) :=
  graph.locations ++ (graph.nodes.flatMap FileNode.importsFrom).map Path.components

/-- The number of different paths of a graph. -/
def pathCount (graph : Graph) : Nat :=
  graph.endpoints.dedup.length

theorem Writes.mem_endpoints {path : Path} (writes : graph.Writes path) :
    path.components ∈ graph.endpoints := by
  rw [endpoints, List.mem_append]
  rcases writes with ⟨node, node_mem, written⟩
  rcases List.mem_cons.mp written with rfl | listed
  · exact Or.inl (List.mem_map_of_mem node_mem)
  · exact Or.inr (List.mem_map_of_mem (List.mem_flatMap.mpr ⟨node, node_mem, listed⟩))

/-- Different paths of a graph are not more than it has. -/
theorem length_le_pathCount {entries : List Path} (nodup : (entries.map Path.components).Nodup)
    (writes : ∀ entry ∈ entries, graph.Writes entry) : entries.length ≤ graph.pathCount := by
  have known : entries.map Path.components ⊆ graph.endpoints.dedup := by
    intro location location_mem
    rcases List.mem_map.mp location_mem with ⟨entry, entry_mem, rfl⟩
    exact List.mem_dedup.mpr (writes entry entry_mem).mem_endpoints
  simpa [pathCount] using (nodup.subperm known).length_le

end Graph

/-- What a search can rely on at an arrival. -/
structure Arrival.KeepsBooks (arrival : Arrival) (graph : Graph) : Prop where
  /-- The current branch is the trail. -/
  visiting : ∀ location, location ∈ arrival.search.visiting ↔
    location ∈ arrival.trail.map Path.components
  nodup : (arrival.trail.map Path.components).Nodup
  /-- Each path of the trail imports the next, and the last one the path of the arrival. -/
  chain : (arrival.trail ++ [arrival.path]).IsChain graph.HasEdge
  disjoint : arrival.search.visiting.Disjoint arrival.search.visited
  /-- A path of the current branch is found when its cycle is looked for in the trail. -/
  found : arrival.path.components ∈ arrival.search.visiting →
    ∃ entry ∈ arrival.trail, entry.same arrival.path = true
  depth_le : arrival.depth ≤ graph.pathCount
  /-- Where the search goes deeper there is one more path to go. -/
  depth_lt : arrival.search.Opens arrival.path → arrival.depth < graph.pathCount

theorem Arrival.InStep.keepsBooks {arrival : Arrival} {graph : Graph}
    (inStep : arrival.InStep graph) : arrival.KeepsBooks graph := by
  rcases inStep with ⟨route, follows, depth_eq⟩
  refine ⟨follows.mem_visiting_iff, follows.nodup, ?_, ?_, ?_, ?_, ?_⟩
  · exact route.chain.imp fun _ _ => Graph.Lists.hasEdge
  · intro location visiting visited
    rw [follows.mem_visiting_iff, List.mem_map] at visiting
    rcases visiting with ⟨entry, entry_mem, rfl⟩
    exact follows.unfinished entry entry_mem visited
  · intro visiting
    rw [follows.mem_visiting_iff, List.mem_map] at visiting
    rcases visiting with ⟨entry, entry_mem, same⟩
    exact ⟨entry, entry_mem, by simpa [Path.same] using same⟩
  · rw [depth_eq]
    refine Graph.length_le_pathCount follows.nodup ?_
    intro entry entry_mem
    exact route.writes (List.mem_append_left _ entry_mem)
  · intro opens
    have entered := follows.enter opens.2.1 opens.2.2
    have bound := Graph.length_le_pathCount entered.nodup fun entry => route.writes
    rw [List.length_append, List.length_singleton] at bound
    rw [depth_eq]
    exact bound

/-- The search over any graph, told without a bound on its depth, ends, and it ends as it is
computed. Wherever it arrives on the way its books are kept, and not deeper than the graph has
paths. No path is expanded twice: the expanded paths are those that are finished at the end. -/
theorem Graph.searchCycles_ends_and_keeps_books (graph : Graph) (limits : CycleLimits) :
    ∃ arrivals,
      graph.Runs limits graph.nodes Search.start arrivals (graph.searchCycles limits) ∧
      (∀ others result, graph.Runs limits graph.nodes Search.start others result →
        others = arrivals ∧ result = graph.searchCycles limits) ∧
      (∀ arrival ∈ arrivals, arrival.KeepsBooks graph) ∧
      (expansions arrivals).Nodup ∧
      (graph.searchCycles limits).visited.Perm (expansions arrivals) := by
  rcases graph.exists_runs_searchCycles limits with ⟨arrivals, runs⟩
  have finished : (graph.searchCycles limits).visited.Perm (expansions arrivals) := by
    simpa [Search.start] using runs.perm_visited
  refine ⟨arrivals, runs, ?_, ?_, ?_, finished⟩
  · intro others result again
    exact runs.unique again
  · intro arrival arrival_mem
    exact (runs.inStep (List.Subset.refl _) Search.follows_start arrival arrival_mem).keepsBooks
  · exact finished.nodup_iff.mp (runs.nodup_visited Search.follows_start List.nodup_nil)

end CodeFacts.Imports
