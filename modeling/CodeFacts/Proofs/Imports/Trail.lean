import CodeFacts.Imports.Cycle
import CodeFacts.Proofs.Imports.Nodes
import Mathlib.Data.List.Chain
import Mathlib.Data.List.Perm.Subperm
import Mathlib.Data.List.TakeWhile

/-!
# The trail of a search

A search for cycles carries a trail: the paths from the node where it started to the path that is
explored next. This file states what ties the trail to the search and shows that every step keeps
it. The paths on the current branch are those of the trail, none of them twice and none of them
finished, and each imports the next.

`Graph.explore_induction` turns this into an induction principle. A property of a trail and a
search that survives closing a cycle, entering a path and leaving it holds after a whole
exploration, and each of the three steps may use the invariant of the trail. The invariant also
shows that the fuel of a search is never used up: the paths of a trail are distinct nodes. A search
only grows, so what it has found or finished stays found or finished.
-/

namespace CodeFacts.Imports

namespace Graph

/-- The node of a file lists a path among the files that it imports. -/
def Lists (graph : Graph) (source target : Path) : Prop :=
  ∃ node ∈ graph.nodes, node.location = source.components ∧ target ∈ node.importsFrom

/-- The search goes on to what the node of a path lists. -/
theorem mem_successors_iff (graph : Graph) (source target : Path) :
    target ∈ graph.successors source ↔ graph.Lists source target := by
  unfold successors
  constructor
  · intro target_mem
    cases found : graph.get? source with
    | none => simp [found] at target_mem
    | some node =>
        rcases (graph.get?_eq_some_iff source node).mp found with ⟨node_mem, here⟩
        rw [found] at target_mem
        exact ⟨node, node_mem, here, target_mem⟩
  · rintro ⟨node, node_mem, here, target_mem⟩
    rw [(graph.get?_eq_some_iff source node).mpr ⟨node_mem, here⟩]
    exact target_mem

/-- An edge leads from a file to a file that it imports: one of those that its node lists. -/
def HasEdge (graph : Graph) (source target : Path) : Prop :=
  ∃ node ∈ graph.nodes, node.location = source.components ∧
    ∃ next ∈ node.importsFrom, next.components = target.components

theorem hasEdge_congr (graph : Graph) {source source' target target' : Path}
    (sameSource : source.components = source'.components)
    (sameTarget : target.components = target'.components) :
    graph.HasEdge source target ↔ graph.HasEdge source' target' := by
  simp only [HasEdge, sameSource, sameTarget]

theorem Lists.hasEdge {graph : Graph} {source target : Path} (lists : graph.Lists source target) :
    graph.HasEdge source target := by
  rcases lists with ⟨node, node_mem, here, target_mem⟩
  exact ⟨node, node_mem, here, target, target_mem, rfl⟩

/-- Only nodes import something. -/
theorem contains_of_hasEdge {graph : Graph} {source target : Path}
    (edge : graph.HasEdge source target) : graph.contains source = true := by
  rcases edge with ⟨node, node_mem, here, -⟩
  rw [contains_iff_mem_locations, ← here]
  exact List.mem_map_of_mem node_mem

/-- A way through a graph: it starts at a node, and each path lists the next as it is written. -/
structure IsRoute (graph : Graph) (route : List Path) : Prop where
  start : ∀ path ∈ route.head?, ∃ node ∈ graph.nodes, node.path = path
  chain : route.IsChain graph.Lists

theorem isRoute_node {graph : Graph} {node : FileNode} (node_mem : node ∈ graph.nodes) :
    graph.IsRoute [node.path] := by
  refine ⟨?_, List.IsChain.singleton _⟩
  intro path path_mem
  simp only [List.head?_cons, Option.mem_some_iff] at path_mem
  exact ⟨node, node_mem, path_mem⟩

/-- A route goes on to every file that its last path imports. -/
theorem IsRoute.snoc {graph : Graph} {trail : List Path} {path next : Path}
    (route : graph.IsRoute (trail ++ [path])) (next_mem : next ∈ graph.successors path) :
    graph.IsRoute (trail ++ [path] ++ [next]) := by
  rw [mem_successors_iff] at next_mem
  refine ⟨?_, ?_⟩
  · have start := route.start
    cases trail <;> simpa using start
  · rw [List.isChain_append]
    refine ⟨route.chain, List.IsChain.singleton next, ?_⟩
    intro source source_mem target target_mem
    simp only [List.getLast?_append, List.getLast?_singleton, Option.some_or,
      Option.mem_some_iff] at source_mem
    simp only [List.head?_cons, Option.mem_some_iff] at target_mem
    subst source target
    exact next_mem

/-- All paths of a route are nodes, except perhaps the one at which it ends. -/
theorem IsRoute.contains_of_mem {graph : Graph} {trail : List Path} {path entry : Path}
    (route : graph.IsRoute (trail ++ [path])) (entry_mem : entry ∈ trail) :
    graph.contains entry = true := by
  rcases List.append_of_mem entry_mem with ⟨front, back, rfl⟩
  have chain := route.chain
  rw [List.append_assoc, List.cons_append] at chain
  cases rest : back ++ [path] with
  | nil => simp at rest
  | cons next rest' =>
      rw [rest, List.isChain_append_cons_cons] at chain
      exact contains_of_hasEdge chain.2.1.hasEdge

/-- A path as the graph writes it: that of a node, or one that a node lists. -/
def Writes (graph : Graph) (path : Path) : Prop :=
  ∃ node ∈ graph.nodes, path ∈ node.path :: node.importsFrom

theorem IsRoute.writes {graph : Graph} {route : List Path} (isRoute : graph.IsRoute route)
    {path : Path} (path_mem : path ∈ route) : graph.Writes path := by
  rcases List.append_of_mem path_mem with ⟨front, back, rfl⟩
  rcases List.eq_nil_or_concat front with rfl | ⟨init, previous, rfl⟩
  · rcases isRoute.start path (by simp) with ⟨node, node_mem, rfl⟩
    exact ⟨node, node_mem, List.mem_cons_self⟩
  · have chain := isRoute.chain
    rw [List.concat_eq_append, List.append_assoc, List.singleton_append,
      List.isChain_append_cons_cons] at chain
    rcases chain.2.1 with ⟨node, node_mem, -, listed⟩
    exact ⟨node, node_mem, List.mem_cons_of_mem _ listed⟩

end Graph

namespace Search

/-- What ties a search to its trail: the current branch is the trail, the trail has no path twice,
and none of its paths is finished. -/
structure Follows (search : Search) (trail : List Path) : Prop where
  visiting_eq : search.visiting = (trail.map Path.components).reverse
  nodup : (trail.map Path.components).Nodup
  unfinished : ∀ entry ∈ trail, entry.components ∉ search.visited

theorem follows_start : start.Follows [] :=
  ⟨rfl, List.nodup_nil, by simp⟩

theorem Follows.mem_visiting_iff {search : Search} {trail : List Path}
    (follows : search.Follows trail) (location : List Component) :
    location ∈ search.visiting ↔ location ∈ trail.map Path.components := by
  rw [follows.visiting_eq, List.mem_reverse]

/-- A trail is not longer than there are nodes, since all its paths are different nodes. -/
theorem Follows.length_le {graph : Graph} {search : Search} {trail : List Path} {path : Path}
    (follows : search.Follows trail) (route : graph.IsRoute (trail ++ [path])) :
    trail.length ≤ graph.nodes.length := by
  have known : trail.map Path.components ⊆ graph.locations := by
    intro location location_mem
    rcases List.mem_map.mp location_mem with ⟨entry, entry_mem, rfl⟩
    rw [← Graph.contains_iff_mem_locations]
    exact route.contains_of_mem entry_mem
  have bounded := (follows.nodup.subperm known).length_le
  simpa [Graph.locations] using bounded

/-- What considering a cycle does: it aborts the search, records the cycle or passes it over. -/
theorem consider_cases (search : Search) (limits : CycleLimits) (cycle : Cycle) :
    (limits.maxEntries? = none ∧
      search.consider limits cycle = { search with overflowed := true }) ∨
    ∃ maxEntries, limits.maxEntries? = some maxEntries ∧
      (cycle.length ≤ maxEntries ∧ search.consider limits cycle = search.record limits cycle ∨
        maxEntries < cycle.length ∧ search.consider limits cycle = search) := by
  unfold consider
  cases limits.maxEntries? with
  | none => exact Or.inl ⟨rfl, rfl⟩
  | some maxEntries =>
      refine Or.inr ⟨maxEntries, rfl, ?_⟩
      dsimp only
      split
      · rename_i short
        exact Or.inl ⟨short, rfl⟩
      · rename_i long
        exact Or.inr ⟨Nat.lt_of_not_le long, rfl⟩

/-- Recording a cycle touches neither the branch nor the finished paths. -/
@[simp]
theorem record_visiting (search : Search) (limits : CycleLimits) (cycle : Cycle) :
    (search.record limits cycle).visiting = search.visiting := by
  unfold record
  split <;> rfl

@[simp]
theorem record_visited (search : Search) (limits : CycleLimits) (cycle : Cycle) :
    (search.record limits cycle).visited = search.visited := by
  unfold record
  split <;> rfl

@[simp]
theorem consider_visiting (search : Search) (limits : CycleLimits) (cycle : Cycle) :
    (search.consider limits cycle).visiting = search.visiting := by
  rcases search.consider_cases limits cycle with
    ⟨-, aborted⟩ | ⟨_, -, ⟨-, recorded⟩ | ⟨-, passed⟩⟩
  · rw [aborted]
  · rw [recorded, record_visiting]
  · rw [passed]

@[simp]
theorem consider_visited (search : Search) (limits : CycleLimits) (cycle : Cycle) :
    (search.consider limits cycle).visited = search.visited := by
  rcases search.consider_cases limits cycle with
    ⟨-, aborted⟩ | ⟨_, -, ⟨-, recorded⟩ | ⟨-, passed⟩⟩
  · rw [aborted]
  · rw [recorded, record_visited]
  · rw [passed]

@[simp]
theorem close_visiting (search : Search) (limits : CycleLimits) (trail : List Path)
    (path : Path) : (search.close limits trail path).visiting = search.visiting := by
  unfold close
  split
  · rfl
  · exact consider_visiting search limits _

@[simp]
theorem close_visited (search : Search) (limits : CycleLimits) (trail : List Path)
    (path : Path) : (search.close limits trail path).visited = search.visited := by
  unfold close
  split
  · rfl
  · exact consider_visited search limits _

theorem Follows.close {search : Search} {trail : List Path} (follows : search.Follows trail)
    (limits : CycleLimits) (path : Path) :
    (search.close limits trail path).Follows trail := by
  refine ⟨?_, follows.nodup, ?_⟩
  · rw [close_visiting, follows.visiting_eq]
  · intro entry entry_mem
    rw [close_visited]
    exact follows.unfinished entry entry_mem

theorem Follows.enter {search : Search} {trail : List Path} {path : Path}
    (follows : search.Follows trail) (notVisiting : path.components ∉ search.visiting)
    (notVisited : path.components ∉ search.visited) :
    (search.enter path).Follows (trail ++ [path]) := by
  refine ⟨?_, ?_, ?_⟩
  · simp [Search.enter, follows.visiting_eq]
  · rw [follows.mem_visiting_iff] at notVisiting
    rw [List.map_append, List.map_singleton, List.nodup_append]
    refine ⟨follows.nodup, by simp, ?_⟩
    intro location location_mem other other_mem same
    rw [List.mem_singleton] at other_mem
    subst same other_mem
    exact notVisiting location_mem
  · intro entry entry_mem
    rcases List.mem_append.mp entry_mem with earlier | here
    · exact follows.unfinished entry earlier
    · rw [List.mem_singleton] at here
      subst here
      exact notVisited

theorem Follows.leave {search : Search} {trail : List Path} {path : Path}
    (follows : search.Follows (trail ++ [path])) : (search.leave path).Follows trail := by
  have nodup := follows.nodup
  rw [List.map_append, List.map_singleton, List.nodup_append] at nodup
  rcases nodup with ⟨trailNodup, -, apart⟩
  have differs : ∀ entry ∈ trail, entry.components ≠ path.components := by
    intro entry entry_mem
    exact apart _ (List.mem_map_of_mem entry_mem) _ (List.mem_singleton_self _)
  refine ⟨?_, trailNodup, ?_⟩
  · have kept : (trail.map Path.components).reverse.filter
        (fun other => other != path.components) = (trail.map Path.components).reverse := by
      rw [List.filter_eq_self]
      intro other other_mem
      rw [List.mem_reverse, List.mem_map] at other_mem
      rcases other_mem with ⟨entry, entry_mem, rfl⟩
      simpa using differs entry entry_mem
    simp [Search.leave, follows.visiting_eq, kept]
  · intro entry entry_mem finished
    simp only [Search.leave, List.mem_cons] at finished
    rcases finished with here | earlier
    · exact differs entry entry_mem here
    · exact follows.unfinished entry (List.mem_append_left _ entry_mem) earlier

/-- A path of the current branch closes a cycle: the trail from its first occurrence on, and the path
once more. -/
theorem Follows.close_eq {search : Search} {trail : List Path} {path : Path}
    (follows : search.Follows trail) (visiting : path.components ∈ search.visiting)
    (limits : CycleLimits) :
    ∃ front first rest, trail = front ++ first :: rest ∧ first.components = path.components ∧
      search.close limits trail path = search.consider limits (first :: rest ++ [path]) := by
  rw [follows.mem_visiting_iff, List.mem_map] at visiting
  rcases visiting with ⟨entry, entry_mem, same⟩
  cases loop : trail.dropWhile fun entry => !entry.same path with
  | nil =>
      rw [List.dropWhile_eq_nil_iff] at loop
      have differs := loop entry entry_mem
      simp [Path.same, same] at differs
  | cons first rest =>
      refine ⟨trail.takeWhile fun entry => !entry.same path, first, rest, ?_, ?_, ?_⟩
      · rw [← loop, List.takeWhile_append_dropWhile]
      · have stops := List.head?_dropWhile_not (fun entry => !entry.same path) trail
        rw [loop] at stops
        simpa [Path.same] using stops
      · simp only [Search.close, loop]

/-- How a search changes: more paths are finished, more cycles are found after the old ones, and
once it has stopped it does not go on. -/
structure Grows (search result : Search) : Prop where
  visited : search.visited <:+ result.visited
  cycles : search.cycles <+: result.cycles
  stopped : search.stopped = true → result.stopped = true

theorem Grows.refl (search : Search) : search.Grows search :=
  ⟨List.suffix_refl _, List.prefix_refl _, id⟩

theorem Grows.trans {first second third : Search} (before : first.Grows second)
    (after : second.Grows third) : first.Grows third :=
  ⟨before.visited.trans after.visited, before.cycles.trans after.cycles,
    fun stopped => after.stopped (before.stopped stopped)⟩

theorem Grows.active {search result : Search} (grows : search.Grows result)
    (active : result.stopped = false) : search.stopped = false := by
  cases stopped : search.stopped with
  | false => rfl
  | true => rw [grows.stopped stopped] at active; exact active

theorem grows_record (search : Search) (limits : CycleLimits) (cycle : Cycle) :
    search.Grows (search.record limits cycle) := by
  unfold record
  split
  · exact ⟨List.suffix_refl _, List.prefix_refl _, fun _ => by simp [stopped]⟩
  · exact ⟨List.suffix_refl _, List.prefix_append _ _, id⟩

theorem grows_consider (search : Search) (limits : CycleLimits) (cycle : Cycle) :
    search.Grows (search.consider limits cycle) := by
  rcases search.consider_cases limits cycle with
    ⟨-, aborted⟩ | ⟨_, -, ⟨-, recorded⟩ | ⟨-, passed⟩⟩
  · rw [aborted]
    exact ⟨List.suffix_refl _, List.prefix_refl _, fun _ => by simp [stopped]⟩
  · rw [recorded]
    exact grows_record search limits cycle
  · rw [passed]
    exact Grows.refl search

theorem grows_close (search : Search) (limits : CycleLimits) (trail : List Path) (path : Path) :
    search.Grows (search.close limits trail path) := by
  unfold close
  split
  · exact Grows.refl search
  · exact grows_consider search limits _

/-- In a run of growing steps, each step stands at a state that keeps the invariant of the run, and
what it brings about is not lost. -/
theorem exists_grows_foldl {Item : Type} (step : Search → Item → Search) {Keeps : Search → Prop}
    {items : List Item} {initial : Search} (initially : Keeps initial)
    (keeps : ∀ (search : Search) (item : Item), Keeps search → Keeps (step search item))
    (grows : ∀ (search : Search) (item : Item), search.Grows (step search item))
    {item : Item} (item_mem : item ∈ items) :
    ∃ here, Keeps here ∧ (step here item).Grows (items.foldl step initial) := by
  rcases List.append_of_mem item_mem with ⟨before, after, rfl⟩
  refine ⟨before.foldl step initial, ?_, ?_⟩
  · exact List.foldlRecOn _ _ initially fun search kept item _ => keeps search item kept
  · rw [List.foldl_append, List.foldl_cons]
    exact List.foldlRecOn _ _ (Grows.refl _)
      fun result before item _ => before.trans (grows result item)

theorem grows_enter (search : Search) (path : Path) : search.Grows (search.enter path) :=
  ⟨List.suffix_refl _, List.prefix_refl _, id⟩

theorem grows_leave (search : Search) (path : Path) : search.Grows (search.leave path) :=
  ⟨List.suffix_cons _ _, List.prefix_refl _, id⟩

end Search

namespace Graph

variable {graph : Graph} {limits : CycleLimits}

theorem explore_of_stopped {search : Search} (stopped : search.stopped = true)
    (fuel : Nat) (path : Path) (trail : List Path) :
    graph.explore limits fuel path trail search = search := by
  cases fuel with
  | zero => rfl
  | succ fuel => rw [explore, if_pos stopped]

theorem explore_of_visiting {search : Search} {path : Path}
    (active : search.stopped = false) (visiting : path.components ∈ search.visiting)
    (fuel : Nat) (trail : List Path) :
    graph.explore limits (fuel + 1) path trail search = search.close limits trail path := by
  rw [explore, if_neg (by simp [active]), if_pos (by simpa using visiting)]

theorem explore_of_visited {search : Search} {path : Path}
    (active : search.stopped = false) (notVisiting : path.components ∉ search.visiting)
    (visited : path.components ∈ search.visited) (fuel : Nat) (trail : List Path) :
    graph.explore limits (fuel + 1) path trail search = search := by
  rw [explore, if_neg (by simp [active]), if_neg (by simpa using notVisiting),
    if_pos (by simpa using visited)]

/-- The search after the files that a path imports have been explored, before it is left. -/
def exploreSuccessors (graph : Graph) (limits : CycleLimits) (fuel : Nat) (path : Path)
    (trail : List Path) (search : Search) : Search :=
  (graph.successors path).foldl
    (fun search next => graph.explore limits fuel next (trail ++ [path]) search)
    (search.enter path)

theorem explore_of_fresh {search : Search} {path : Path}
    (active : search.stopped = false) (notVisiting : path.components ∉ search.visiting)
    (notVisited : path.components ∉ search.visited) (fuel : Nat) (trail : List Path) :
    graph.explore limits (fuel + 1) path trail search =
      (graph.exploreSuccessors limits fuel path trail search).leave path := by
  rw [explore, if_neg (by simp [active]), if_neg (by simpa using notVisiting),
    if_neg (by simpa using notVisited)]
  rfl

/-- What holds on entering a path, and is kept by exploring each file that it imports, holds when
all of them are explored. -/
theorem exploreSuccessors_induction {motive : Search → Prop} {fuel : Nat} {path : Path}
    {trail : List Path} {search : Search} (entered : motive (search.enter path))
    (step : ∀ search, motive search → ∀ next ∈ graph.successors path,
      motive (graph.explore limits fuel next (trail ++ [path]) search)) :
    motive (graph.exploreSuccessors limits fuel path trail search) :=
  List.foldlRecOn _ _ entered step

/-- The ways in which an exploration goes: nothing is done, a cycle is closed, or the path is
entered, all it imports is explored, and it is left. -/
theorem explore_cases (graph : Graph) (limits : CycleLimits) (fuel : Nat) (path : Path)
    (trail : List Path) (search : Search) :
    (graph.explore limits (fuel + 1) path trail search = search ∧
      (search.stopped = true ∨ path.components ∈ search.visited)) ∨
    (graph.explore limits (fuel + 1) path trail search = search.close limits trail path ∧
      search.stopped = false ∧ path.components ∈ search.visiting) ∨
    (graph.explore limits (fuel + 1) path trail search =
        (graph.exploreSuccessors limits fuel path trail search).leave path ∧
      search.stopped = false ∧ path.components ∉ search.visiting ∧
      path.components ∉ search.visited) := by
  cases active : search.stopped with
  | true => exact Or.inl ⟨explore_of_stopped active _ _ _, Or.inl rfl⟩
  | false =>
      by_cases visiting : path.components ∈ search.visiting
      · exact Or.inr (Or.inl ⟨explore_of_visiting active visiting _ _, rfl, visiting⟩)
      · by_cases visited : path.components ∈ search.visited
        · exact Or.inl ⟨explore_of_visited active visiting visited _ _, Or.inr visited⟩
        · exact Or.inr (Or.inr ⟨explore_of_fresh active visiting visited _ _, rfl,
            visiting, visited⟩)

/-- An exploration comes back to the trail with which it started. -/
theorem explore_follows (fuel : Nat) (path : Path) (trail : List Path) (search : Search)
    (follows : search.Follows trail) :
    (graph.explore limits fuel path trail search).Follows trail := by
  induction fuel generalizing path trail search with
  | zero => exact follows
  | succ fuel ih =>
      rcases explore_cases graph limits fuel path trail search with
        ⟨same, -⟩ | ⟨closed, -, -⟩ | ⟨expanded, -, notVisiting, notVisited⟩
      · rw [same]
        exact follows
      · rw [closed]
        exact follows.close limits path
      · rw [expanded]
        apply Search.Follows.leave
        apply exploreSuccessors_induction (motive := fun search => search.Follows (trail ++ [path]))
        · exact follows.enter notVisiting notVisited
        · intro search follows next _
          exact ih next _ search follows

theorem grows_explore (fuel : Nat) (path : Path) (trail : List Path) (search : Search) :
    search.Grows (graph.explore limits fuel path trail search) := by
  induction fuel generalizing path trail search with
  | zero => exact Search.Grows.refl search
  | succ fuel ih =>
      rcases explore_cases graph limits fuel path trail search with
        ⟨same, -⟩ | ⟨closed, -, -⟩ | ⟨expanded, -, -, -⟩
      · rw [same]
        exact Search.Grows.refl search
      · rw [closed]
        exact Search.grows_close search limits trail path
      · rw [expanded]
        have explored : search.Grows (graph.exploreSuccessors limits fuel path trail search) := by
          apply exploreSuccessors_induction (motive := fun result => search.Grows result)
          · exact Search.grows_enter search path
          · intro result grows next _
            exact grows.trans (ih next _ result)
        exact explored.trans (Search.grows_leave _ path)

/-- The fuel with which a search starts is not used up on any trail. -/
theorem fuel_pos {fuel : Nat} {path : Path} {trail : List Path} {search : Search}
    (route : graph.IsRoute (trail ++ [path])) (follows : search.Follows trail)
    (enough : graph.exploreFuel ≤ fuel + trail.length) : 0 < fuel := by
  have bounded := follows.length_le route
  unfold exploreFuel at enough
  omega

/-- A property of a trail and a search holds after a whole exploration if every step keeps it. -/
theorem explore_induction {motive : List Path → Search → Prop}
    (close : ∀ {trail : List Path} {path : Path} {search : Search},
      graph.IsRoute (trail ++ [path]) → search.Follows trail →
        path.components ∈ search.visiting → motive trail search →
          motive trail (search.close limits trail path))
    (enter : ∀ {trail : List Path} {path : Path} {search : Search},
      graph.IsRoute (trail ++ [path]) → search.Follows trail →
        path.components ∉ search.visiting → path.components ∉ search.visited →
          motive trail search → motive (trail ++ [path]) (search.enter path))
    (leave : ∀ {trail : List Path} {path : Path} {search : Search},
      graph.IsRoute (trail ++ [path]) → search.Follows (trail ++ [path]) →
        motive (trail ++ [path]) search → motive trail (search.leave path))
    (fuel : Nat) {path : Path} {trail : List Path} {search : Search}
    (route : graph.IsRoute (trail ++ [path])) (follows : search.Follows trail)
    (holds : motive trail search) :
    motive trail (graph.explore limits fuel path trail search) := by
  induction fuel generalizing path trail search with
  | zero => exact holds
  | succ fuel ih =>
      rcases explore_cases graph limits fuel path trail search with
        ⟨same, -⟩ | ⟨closed, -, visiting⟩ | ⟨expanded, -, notVisiting, notVisited⟩
      · rw [same]
        exact holds
      · rw [closed]
        exact close route follows visiting holds
      · rw [expanded]
        -- The invariant of the longer trail is carried along with the property.
        have explored : (graph.exploreSuccessors limits fuel path trail search).Follows
            (trail ++ [path]) ∧
            motive (trail ++ [path]) (graph.exploreSuccessors limits fuel path trail search) := by
          apply exploreSuccessors_induction (motive := fun search =>
            search.Follows (trail ++ [path]) ∧ motive (trail ++ [path]) search)
          · exact ⟨follows.enter notVisiting notVisited,
              enter route follows notVisiting notVisited holds⟩
          · intro search inner next next_mem
            exact ⟨explore_follows _ _ _ _ inner.1,
              ih (route.snoc next_mem) inner.1 inner.2⟩
        exact leave route explored.1 explored.2

/-- The part of a search that one node adds. -/
def visitNode (graph : Graph) (limits : CycleLimits) (search : Search) (node : FileNode) : Search :=
  if search.stopped || search.visited.contains node.path.components then search
  else graph.explore limits graph.exploreFuel node.path [] search

theorem searchCycles_eq (graph : Graph) (limits : CycleLimits) :
    graph.searchCycles limits = graph.nodes.foldl (graph.visitNode limits) Search.start :=
  rfl

theorem visitNode_follows (graph : Graph) (limits : CycleLimits) (search : Search)
    (node : FileNode) (follows : search.Follows []) :
    (graph.visitNode limits search node).Follows [] := by
  unfold visitNode
  split
  · exact follows
  · exact explore_follows _ _ _ _ follows

theorem grows_visitNode (graph : Graph) (limits : CycleLimits) (search : Search)
    (node : FileNode) :
    search.Grows (graph.visitNode limits search node) := by
  unfold visitNode
  split
  · exact Search.Grows.refl search
  · exact grows_explore _ _ _ _

/-- What holds at the start, and is kept by exploring any node, holds of the whole search. -/
theorem searchCycles_induction {motive : Search → Prop} (start : motive Search.start)
    (step : ∀ {search : Search} {node : FileNode}, node ∈ graph.nodes → search.Follows [] →
      motive search → motive (graph.explore limits graph.exploreFuel node.path [] search)) :
    motive (graph.searchCycles limits) := by
  have both : (graph.searchCycles limits).Follows [] ∧ motive (graph.searchCycles limits) := by
    rw [searchCycles_eq]
    refine List.foldlRecOn (motive := fun search => search.Follows [] ∧ motive search) _ _
      ⟨Search.follows_start, start⟩ ?_
    intro search inner node node_mem
    refine ⟨visitNode_follows graph limits search node inner.1, ?_⟩
    unfold visitNode
    split
    · exact inner.2
    · exact step node_mem inner.1 inner.2
  exact both.2

end Graph

end CodeFacts.Imports
