import CodeFacts.Proofs.Imports.CycleSoundness
import Mathlib.Data.List.Rotate

/-!
# No cycle is reported twice

A path is entered at most once, so each of its edges is followed at most once, and an edge that
closes a cycle closes no other one. This bounds the number of cycles by the number of edges.

Two cycles with different closing edges could still pass the same files in the same order, from
different starts. They do not, since the start is not arbitrary: the first file of a cycle is
entered before the others and left after them. `Search.Nested` says so by the order in which paths
are finished. The files of a cycle determine therefore at which of them it starts.
-/

namespace CodeFacts.Imports

/-- The edge that closes a cycle, from its last entry but one to its last entry. -/
def closingEdge (cycle : Cycle) : List Component × List Component :=
  let ends := (cycle.map Path.components).reverse
  (ends.getD 1 [], ends.getD 0 [])

theorem closingEdge_concat {loop : List Path} {source : Path} (last : source ∈ loop.getLast?)
    (target : Path) : closingEdge (loop ++ [target]) = (source.components, target.components) := by
  rcases List.getLast?_eq_some_iff.mp last with ⟨front, rfl⟩
  simp [closingEdge]

/-- Two cycles pass the same files in the same order, whichever of them they start from. -/
def IsRotation (first second : Cycle) : Prop :=
  (first.dropLast.map Path.components).IsRotated (second.dropLast.map Path.components)

/-- A rotation that keeps the first entry of a list without repetitions keeps the list. -/
theorem eq_of_isRotated_cons {α : Type} {head : α} {rest others : List α}
    (nodup : (head :: rest).Nodup) (rotated : (head :: rest).IsRotated (head :: others)) :
    rest = others := by
  rcases rotated with ⟨count, rotate⟩
  have small : count % (head :: rest).length < (head :: rest).length :=
    Nat.mod_lt _ (by simp)
  have first := List.head?_rotate small
  rw [List.rotate_mod, rotate, List.head?_cons, List.getElem?_eq_getElem small] at first
  have same : (head :: rest)[0] = (head :: rest)[count % (head :: rest).length] :=
    Option.some.inj first
  have zero : 0 = count % (head :: rest).length := nodup.getElem_inj_iff.mp same
  rw [← List.rotate_mod, ← zero, List.rotate_zero] at rotate
  exact (List.cons.inj rotate).2

namespace Search

/-- The closing edges of the cycles that are found. -/
def closingEdges (search : Search) : List (List Component × List Component) :=
  search.cycles.map closingEdge

theorem Follows.close_cycles {search : Search} {trail : List Path} {path : Path}
    (follows : search.Follows trail) (visiting : path.components ∈ search.visiting)
    (limits : CycleLimits) :
    (search.close limits trail path).cycles = search.cycles ∨
      ∃ front first rest, trail = front ++ first :: rest ∧ first.components = path.components ∧
        (search.close limits trail path).cycles = search.cycles ++ [first :: rest ++ [path]] := by
  rcases follows.close_eq visiting limits with ⟨front, first, rest, split, same, closed⟩
  rw [closed]
  rcases search.consider_cases limits (first :: rest ++ [path]) with
    ⟨-, aborted⟩ | ⟨_, -, ⟨-, recorded⟩ | ⟨-, passed⟩⟩
  · rw [aborted]
    exact Or.inl rfl
  · rw [recorded]
    unfold record
    split
    · exact Or.inl rfl
    · exact Or.inr ⟨front, first, rest, split, same, rfl⟩
  · rw [passed]
    exact Or.inl rfl

/-- No edge closes two of the cycles that are found, and the closing edges start at paths that have
been entered. -/
structure ClosesOnce (search : Search) (trail : List Path) : Prop where
  nodup : search.closingEdges.Nodup
  entered : ∀ edge ∈ search.closingEdges,
    edge.1 ∈ search.visited ∨ edge.1 ∈ trail.map Path.components

/-- What exploring a path adds to the closing edges: the edge from the end of the trail to the path,
and edges from paths that are not on the trail. -/
structure AddsClosing (search result : Search) (trail : List Path) (path : Path) : Prop where
  once : result.ClosesOnce trail
  added : ∀ edge ∈ result.closingEdges,
    edge ∈ search.closingEdges ∨ edge.1 ∉ trail.map Path.components ∨
      ∃ source ∈ trail.getLast?, edge = (source.components, path.components)

theorem closesOnce_start : start.ClosesOnce [] := by
  refine ⟨?_, ?_⟩
  · simp [closingEdges, start]
  · simp [closingEdges, start]

theorem ClosesOnce.enter {search : Search} {trail : List Path} (once : search.ClosesOnce trail)
    (path : Path) : (search.enter path).ClosesOnce (trail ++ [path]) := by
  refine ⟨once.nodup, ?_⟩
  intro edge edge_mem
  rw [List.map_append, List.mem_append, ← or_assoc]
  exact Or.inl (once.entered edge edge_mem)

theorem ClosesOnce.leave {search : Search} {trail : List Path} {path : Path}
    (once : search.ClosesOnce (trail ++ [path])) : (search.leave path).ClosesOnce trail := by
  refine ⟨once.nodup, ?_⟩
  intro edge edge_mem
  rcases once.entered edge edge_mem with visited | on_trail
  · exact Or.inl (List.mem_cons_of_mem _ visited)
  · rw [List.map_append, List.mem_append, List.map_singleton, List.mem_singleton] at on_trail
    rcases on_trail with earlier | here
    · exact Or.inr earlier
    · rw [here]
      exact Or.inl List.mem_cons_self

/-- Nothing has been closed from a path that was never entered. -/
theorem ClosesOnce.notMem_closingEdges {search : Search} {trail : List Path} {path : Path}
    (once : search.ClosesOnce trail) (notOnTrail : path.components ∉ trail.map Path.components)
    (notVisited : path.components ∉ search.visited) (target : List Component) :
    (path.components, target) ∉ search.closingEdges := by
  intro edge_mem
  rcases once.entered _ edge_mem with visited | on_trail
  · exact notVisited visited
  · exact notOnTrail on_trail

theorem Follows.end_notMem {search : Search} {trail : List Path} {path : Path}
    (follows : search.Follows (trail ++ [path])) :
    path.components ∉ trail.map Path.components := by
  have nodup := follows.nodup
  rw [List.map_append, List.map_singleton, List.nodup_append] at nodup
  intro on_trail
  exact nodup.2.2 _ on_trail _ (List.mem_singleton_self _) rfl

theorem ClosesOnce.addsClosing_self {search : Search} {trail : List Path}
    (once : search.ClosesOnce trail) (path : Path) : search.AddsClosing search trail path :=
  ⟨once, fun _ old => Or.inl old⟩

theorem ClosesOnce.addsClosing_close {search : Search} {trail : List Path} {path : Path}
    (once : search.ClosesOnce trail) (follows : search.Follows trail)
    (visiting : path.components ∈ search.visiting)
    (fresh : ∀ source ∈ trail.getLast?,
      (source.components, path.components) ∉ search.closingEdges) (limits : CycleLimits) :
    search.AddsClosing (search.close limits trail path) trail path := by
  rcases follows.close_cycles visiting limits with same | ⟨front, first, rest, rfl, -, grown⟩
  · have edges : (search.close limits trail path).closingEdges = search.closingEdges := by
      rw [closingEdges, same, closingEdges]
    refine ⟨⟨?_, ?_⟩, ?_⟩
    · rw [edges]
      exact once.nodup
    · rw [edges, close_visited]
      exact once.entered
    · rw [edges]
      intro edge old
      exact Or.inl old
  · -- The new cycle is closed by the edge from the end of the trail.
    obtain ⟨source, last⟩ : ∃ source, (first :: rest).getLast? = some source :=
      ⟨_, List.getLast?_cons⟩
    have end_mem : source ∈ (front ++ first :: rest).getLast? := by
      simpa [List.getLast?_append] using last
    have edges : (search.close limits (front ++ first :: rest) path).closingEdges =
        search.closingEdges ++ [(source.components, path.components)] := by
      rw [closingEdges, grown, List.map_append, List.map_singleton, closingEdge_concat last]
      rfl
    refine ⟨⟨?_, ?_⟩, ?_⟩
    · rw [edges, ← List.concat_eq_append]
      exact once.nodup.concat (fresh source end_mem)
    · rw [edges, close_visited]
      refine List.forall_mem_append.mpr ⟨once.entered, ?_⟩
      intro edge edge_mem
      rw [List.mem_singleton.mp edge_mem]
      exact Or.inr (List.mem_map_of_mem (List.mem_of_getLast? end_mem))
    · rw [edges]
      intro edge edge_mem
      rcases List.mem_append.mp edge_mem with old | new
      · exact Or.inl old
      · exact Or.inr (Or.inr ⟨source, end_mem, List.mem_singleton.mp new⟩)

end Search

namespace Graph

variable {graph : Graph} {limits : CycleLimits}

/-- Exploring, one after the other, the files that the end of the trail imports adds closing edges
from paths that are not on the trail before that. -/
theorem foldl_addsClosing {path : Path} {trail : List Path} (step : Search → Path → Search)
    (keeps : ∀ (search : Search) (next : Path), search.Follows (trail ++ [path]) →
      (step search next).Follows (trail ++ [path]))
    (adds : ∀ (search : Search) (next : Path), search.Follows (trail ++ [path]) →
      search.ClosesOnce (trail ++ [path]) →
        (path.components, next.components) ∉ search.closingEdges →
          search.AddsClosing (step search next) (trail ++ [path]) next)
    {todo : List Path} (distinct : (todo.map Path.components).Nodup) {search : Search}
    (follows : search.Follows (trail ++ [path])) (once : search.ClosesOnce (trail ++ [path]))
    (pending : ∀ next ∈ todo, (path.components, next.components) ∉ search.closingEdges) :
    (todo.foldl step search).ClosesOnce (trail ++ [path]) ∧
      ∀ edge ∈ (todo.foldl step search).closingEdges,
        edge ∈ search.closingEdges ∨ edge.1 ∉ trail.map Path.components := by
  induction todo generalizing search with
  | nil => exact ⟨once, fun _ old => Or.inl old⟩
  | cons next rest ih =>
      rw [List.map_cons, List.nodup_cons] at distinct
      have adding := adds search next follows once (pending next List.mem_cons_self)
      have here : path.components ∈ (trail ++ [path]).map Path.components := by simp
      have still : ∀ other ∈ rest,
          (path.components, other.components) ∉ (step search next).closingEdges := by
        intro other other_mem edge_mem
        rcases adding.added _ edge_mem with old | away | ⟨source, -, same⟩
        · exact pending other (List.mem_cons_of_mem next other_mem) old
        · exact away here
        · apply distinct.1
          rw [← (Prod.mk.inj same).2]
          exact List.mem_map_of_mem other_mem
      rcases ih distinct.2 (keeps search next follows) adding.once still with ⟨later, added⟩
      refine ⟨later, ?_⟩
      intro edge edge_mem
      rcases added edge edge_mem with before | away
      · rcases adding.added edge before with old | away | ⟨source, source_mem, same⟩
        · exact Or.inl old
        · right
          intro on_trail
          apply away
          rw [List.map_append]
          exact List.mem_append_left _ on_trail
        · right
          rw [List.getLast?_concat, Option.mem_some_iff] at source_mem
          subst source_mem same
          exact follows.end_notMem
      · exact Or.inr away

theorem explore_addsClosing
    (distinct : ∀ path, ((graph.successors path).map Path.components).Nodup) (fuel : Nat)
    {path : Path} {trail : List Path} {search : Search} (follows : search.Follows trail)
    (once : search.ClosesOnce trail)
    (fresh : ∀ source ∈ trail.getLast?,
      (source.components, path.components) ∉ search.closingEdges) :
    search.AddsClosing (graph.explore limits fuel path trail search) trail path := by
  induction fuel generalizing path trail search with
  | zero => exact once.addsClosing_self path
  | succ fuel ih =>
      rcases explore_cases graph limits fuel path trail search with
        ⟨same, -⟩ | ⟨closed, -, visiting⟩ | ⟨expanded, -, notVisiting, notVisited⟩
      · rw [same]
        exact once.addsClosing_self path
      · rw [closed]
        exact once.addsClosing_close follows visiting fresh limits
      · rw [expanded]
        have entered := follows.enter notVisiting notVisited
        rcases foldl_addsClosing
          (fun search next => graph.explore limits fuel next (trail ++ [path]) search)
          (fun search next follows => explore_follows fuel next _ search follows)
          (fun search next follows once fresh => ih follows once (by simpa using fresh))
          (distinct path) entered (once.enter path)
          (fun next _ => once.notMem_closingEdges entered.end_notMem notVisited next.components)
          with ⟨later, added⟩
        refine ⟨later.leave, ?_⟩
        intro edge edge_mem
        rcases added edge edge_mem with old | away
        · exact Or.inl old
        · exact Or.inr (Or.inl away)

theorem searchCycles_closesOnce
    (distinct : ∀ path, ((graph.successors path).map Path.components).Nodup)
    (limits : CycleLimits) :
    (graph.searchCycles limits).ClosesOnce [] := by
  apply searchCycles_induction (motive := fun search => search.ClosesOnce [])
  · exact Search.closesOnce_start
  · intro search node _ follows once
    exact (explore_addsClosing distinct _ follows once (by simp)).once

end Graph

namespace Search

/-- The first file of a cycle stands around the others. Once it is finished they were finished
before it; until then they are finished or come after it on the trail. -/
inductive Encloses (search : Search) (trail : List Path) (first : Path) (rest : List Path) : Prop
  | finished {older : List (List Component)}
      (left : first.components :: older <:+ search.visited)
      (others : ∀ entry ∈ rest, entry.components ∈ older)
  | unfinished {front back : List Path} (split : trail = front ++ first :: back)
      (others : ∀ entry ∈ rest, entry.components ∈ search.visited ∨ entry ∈ back)

/-- Each cycle that is found is a closed loop that its first file encloses. -/
structure Nested (search : Search) (trail : List Path) : Prop where
  nodup : search.visited.Nodup
  encloses : ∀ cycle ∈ search.cycles, ∃ first rest last, cycle = first :: rest ++ [last] ∧
    first.components = last.components ∧ search.Encloses trail first rest

theorem nested_start : start.Nested [] :=
  ⟨List.nodup_nil, by simp [start]⟩

/-- A cycle that was found stays enclosed by whatever step keeps loops enclosed. -/
theorem Nested.encloses_after {search result : Search} {trail after : List Path}
    (nested : search.Nested trail)
    (keeps : ∀ first rest, search.Encloses trail first rest → result.Encloses after first rest)
    {cycle : Cycle} (found : cycle ∈ search.cycles) :
    ∃ first rest last, cycle = first :: rest ++ [last] ∧
      first.components = last.components ∧ result.Encloses after first rest := by
  rcases nested.encloses cycle found with ⟨first, rest, last, shape, same, encloses⟩
  exact ⟨first, rest, last, shape, same, keeps first rest encloses⟩

theorem Encloses.enter {search : Search} {trail : List Path} {first : Path} {rest : List Path}
    (encloses : search.Encloses trail first rest) (path : Path) :
    (search.enter path).Encloses (trail ++ [path]) first rest := by
  cases encloses with
  | finished left others => exact .finished left others
  | @unfinished front back split others =>
      have longer : trail ++ [path] = front ++ first :: (back ++ [path]) := by
        rw [split, List.append_assoc, List.cons_append]
      apply Encloses.unfinished longer
      intro entry entry_mem
      exact (others entry entry_mem).imp id (List.mem_append_left _)

theorem Encloses.leave {search : Search} {trail : List Path} {path first : Path}
    {rest : List Path} (encloses : search.Encloses (trail ++ [path]) first rest) :
    (search.leave path).Encloses trail first rest := by
  cases encloses with
  | finished left others => exact .finished (left.trans (List.suffix_cons _ _)) others
  | @unfinished front back split others =>
      rcases List.eq_nil_or_concat back with rfl | ⟨init, last, rfl⟩
      · -- The path that is left is the first file of the cycle.
        rcases List.append_inj' split rfl with ⟨-, same⟩
        rw [List.singleton_inj] at same
        subst same
        apply Encloses.finished (List.suffix_refl _)
        intro entry entry_mem
        simpa using others entry entry_mem
      · rw [List.concat_eq_append, ← List.cons_append, ← List.append_assoc] at split
        rcases List.append_inj' split rfl with ⟨trail_eq, same⟩
        rw [List.singleton_inj] at same
        subst same
        apply Encloses.unfinished trail_eq
        intro entry entry_mem
        rcases others entry entry_mem with visited | after
        · exact Or.inl (List.mem_cons_of_mem _ visited)
        · rw [List.concat_eq_append, List.mem_append, List.mem_singleton] at after
          rcases after with before | rfl
          · exact Or.inr before
          · exact Or.inl List.mem_cons_self

theorem Nested.close {search : Search} {trail : List Path} {path : Path}
    (nested : search.Nested trail) (follows : search.Follows trail)
    (visiting : path.components ∈ search.visiting) (limits : CycleLimits) :
    (search.close limits trail path).Nested trail := by
  have kept : ∀ first rest, search.Encloses trail first rest →
      (search.close limits trail path).Encloses trail first rest := by
    intro first rest encloses
    cases encloses with
    | finished left others => exact .finished (by rwa [close_visited]) others
    | unfinished split others => exact .unfinished split (by rwa [close_visited])
  refine ⟨by rw [close_visited]; exact nested.nodup, ?_⟩
  intro cycle cycle_mem
  rcases follows.close_cycles visiting limits with same | ⟨front, first, rest, split, same, grown⟩
  · rw [same] at cycle_mem
    exact nested.encloses_after kept cycle_mem
  · rw [grown] at cycle_mem
    rcases List.mem_append.mp cycle_mem with found | new
    · exact nested.encloses_after kept found
    · refine ⟨first, rest, path, List.mem_singleton.mp new, same, ?_⟩
      exact .unfinished split fun _ entry_mem => Or.inr entry_mem

end Search

namespace Graph

variable {graph : Graph} {limits : CycleLimits}

theorem searchCycles_nested (graph : Graph) (limits : CycleLimits) :
    (graph.searchCycles limits).Nested [] := by
  apply searchCycles_induction (motive := fun search => search.Nested [])
  · exact Search.nested_start
  · intro search node node_mem follows nested
    apply explore_induction (motive := fun trail search => search.Nested trail)
    · intro trail path search _ follows visiting nested
      exact nested.close follows visiting limits
    · intro trail path search _ _ _ _ nested
      refine ⟨nested.nodup, ?_⟩
      intro cycle found
      exact nested.encloses_after (fun _ _ encloses => encloses.enter path) found
    · intro trail path search _ follows nested
      refine ⟨List.nodup_cons.mpr ⟨follows.unfinished path (by simp), nested.nodup⟩, ?_⟩
      intro cycle found
      exact nested.encloses_after (fun _ _ encloses => encloses.leave) found
    · exact isRoute_node node_mem
    · exact follows
    · exact nested

/-- After the search, the other files of a cycle have been finished before its first one. -/
theorem exists_older_of_mem_cycles {cycle : Cycle}
    (cycle_mem : cycle ∈ (graph.searchCycles limits).cycles) :
    ∃ first rest last older, cycle = first :: rest ++ [last] ∧
      first.components = last.components ∧
        first.components :: older <:+ (graph.searchCycles limits).visited ∧
          ∀ location ∈ rest.map Path.components, location ∈ older := by
  rcases (graph.searchCycles_nested limits).encloses cycle cycle_mem with
    ⟨first, rest, last, shape, same, encloses⟩
  cases encloses with
  | finished left others =>
      exact ⟨first, rest, last, _, shape, same, left, by simpa using others⟩
  | unfinished split => simp at split

/-- Of two different entries of a list without repetitions, not each can come after the other. -/
theorem eq_of_mem_older {α : Type} {list older others : List α} {first second : α}
    (nodup : list.Nodup) (left : first :: older <:+ list) (right : second :: others <:+ list)
    (second_mem : second ∈ first :: older) (first_mem : first ∈ second :: others) :
    first = second := by
  by_contra differ
  have first_later : first ∈ others := (List.mem_cons.mp first_mem).resolve_left differ
  have second_later : second ∈ older := (List.mem_cons.mp second_mem).resolve_left (Ne.symm differ)
  have first_once := (List.nodup_cons.mp (nodup.sublist left.sublist)).1
  have second_once := (List.nodup_cons.mp (nodup.sublist right.sublist)).1
  rcases List.suffix_or_suffix_of_suffix left right with inner | inner
  · rcases List.suffix_cons_iff.mp inner with same | inside
    · exact differ (List.cons.inj same).1
    · exact second_once (inside.subset (List.mem_cons_of_mem _ second_later))
  · rcases List.suffix_cons_iff.mp inner with same | inside
    · exact differ (List.cons.inj same).1.symm
    · exact first_once (inside.subset (List.mem_cons_of_mem _ first_later))

/-- Reported cycles that pass the same files in the same order start at the same file, and so are
closed by the same edge. -/
theorem closingEdge_eq_of_isRotation {first second : Cycle}
    (first_mem : first ∈ (graph.searchCycles limits).cycles)
    (second_mem : second ∈ (graph.searchCycles limits).cycles)
    (rotated : IsRotation first second) : closingEdge first = closingEdge second := by
  have distinct := ((graph.sound_searchCycles limits).isCycle first first_mem).distinct
  have nodup := (graph.searchCycles_nested limits).nodup
  rcases exists_older_of_mem_cycles first_mem with ⟨head, rest, last, older, rfl, same, left, inner⟩
  rcases exists_older_of_mem_cycles second_mem with
    ⟨head', rest', last', older', rfl, same', left', inner'⟩
  rw [List.dropLast_concat, List.map_cons] at distinct
  rw [IsRotation, List.dropLast_concat, List.dropLast_concat, List.map_cons,
    List.map_cons] at rotated
  have start : head.components = head'.components := by
    apply eq_of_mem_older nodup left left'
    · rcases List.mem_cons.mp (rotated.perm.mem_iff.mpr List.mem_cons_self) with here | later
      · exact here ▸ List.mem_cons_self
      · exact List.mem_cons_of_mem _ (inner _ later)
    · rcases List.mem_cons.mp (rotated.perm.mem_iff.mp List.mem_cons_self) with here | later
      · exact here ▸ List.mem_cons_self
      · exact List.mem_cons_of_mem _ (inner' _ later)
  rw [← start] at rotated
  have others := eq_of_isRotated_cons distinct rotated
  simp only [closingEdge, List.map_append, List.map_cons, List.map_nil, others, start, ← same,
    ← same']

/-- The edges of a graph, by the locations of their ends. -/
def edges (graph : Graph) : List (List Component × List Component) :=
  graph.nodes.flatMap fun node =>
    node.importsFrom.map fun target => (node.location, target.components)

theorem length_edges (graph : Graph) : graph.edges.length = graph.edgeCount := by
  rw [edges, edgeCount, List.length_flatMap, List.sum_eq_foldl, List.foldl_map]
  simp

theorem Lists.mem_edges {source target : Path} (lists : graph.Lists source target) :
    (source.components, target.components) ∈ graph.edges := by
  rcases lists with ⟨node, node_mem, here, target_mem⟩
  rw [← here]
  exact List.mem_flatMap.mpr ⟨node, node_mem, List.mem_map_of_mem target_mem⟩

theorem IsImportCycle.closingEdge_mem {cycle : Cycle} (isCycle : graph.IsImportCycle cycle) :
    closingEdge cycle ∈ graph.edges := by
  have long := isCycle.two_le_length
  have chain := isCycle.chain
  rcases List.eq_nil_or_concat cycle with rfl | ⟨loop, target, rfl⟩
  · simp at long
  rcases List.eq_nil_or_concat loop with rfl | ⟨front, source, rfl⟩
  · simp at long
  rw [List.concat_eq_append, List.concat_eq_append] at chain ⊢
  rw [List.append_assoc, List.singleton_append, List.isChain_append_cons_cons] at chain
  rw [closingEdge_concat (by simp : source ∈ (front ++ [source]).getLast?)]
  exact chain.2.1.mem_edges

/-- No file is listed twice among the imports of another. -/
theorem nodup_successors (graph : Graph) (path : Path) :
    ((graph.successors path).map Path.components).Nodup := by
  unfold successors
  cases graph.get? path with
  | none => exact List.nodup_nil
  | some node => exact node.ordered.importsFrom.nodup_keys Path.isKey_components

/-- No two reported cycles pass the same files in the same order, wherever they start, and no two
are closed by the same edge of the graph, so there are at most as many as there are edges. -/
theorem searchCycles_reports_each_cycle_once (graph : Graph) (limits : CycleLimits) :
    (graph.searchCycles limits).cycles.Pairwise (fun first second => ¬IsRotation first second) ∧
      (graph.searchCycles limits).cycles.Pairwise
        (fun first second => closingEdge first ≠ closingEdge second) ∧
      (∀ cycle ∈ (graph.searchCycles limits).cycles, closingEdge cycle ∈ graph.edges) ∧
      (graph.searchCycles limits).cycles.length ≤ graph.edgeCount := by
  have once := (searchCycles_closesOnce graph.nodup_successors limits).nodup
  have apart : (graph.searchCycles limits).cycles.Pairwise
      (fun first second => closingEdge first ≠ closingEdge second) := List.pairwise_map.mp once
  have isEdge : ∀ cycle ∈ (graph.searchCycles limits).cycles, closingEdge cycle ∈ graph.edges := by
    intro cycle cycle_mem
    exact ((graph.sound_searchCycles limits).isCycle cycle cycle_mem).closingEdge_mem
  refine ⟨?_, apart, isEdge, ?_⟩
  · apply apart.imp_of_mem
    intro first second first_mem second_mem differ rotated
    exact differ (closingEdge_eq_of_isRotation first_mem second_mem rotated)
  · have bounded := (once.subperm (List.forall_mem_map.mpr isEdge)).length_le
    rwa [length_edges, Search.closingEdges, List.length_map] at bounded

/-- Three files, each of which imports the two others. -/
def mutualGraph : Graph where
  root := ⟨"/"⟩
  nodes :=
    [.ofImports ⟨"/a"⟩ [⟨"/b"⟩, ⟨"/c"⟩], .ofImports ⟨"/b"⟩ [⟨"/a"⟩, ⟨"/c"⟩],
      .ofImports ⟨"/c"⟩ [⟨"/a"⟩, ⟨"/b"⟩]]

theorem searchCycles_reports_cycles_of_mutualGraph_once :
    (mutualGraph.searchCycles ⟨10, 50⟩).cycles =
        [[⟨"/a"⟩, ⟨"/b"⟩, ⟨"/a"⟩], [⟨"/a"⟩, ⟨"/b"⟩, ⟨"/c"⟩, ⟨"/a"⟩],
          [⟨"/b"⟩, ⟨"/c"⟩, ⟨"/b"⟩]] ∧
      (mutualGraph.searchCycles ⟨10, 50⟩).cycles.Pairwise
        (fun first second => ¬IsRotation first second) ∧
      (mutualGraph.searchCycles ⟨10, 50⟩).cycles.length ≤ mutualGraph.edgeCount := by
  have once := searchCycles_reports_each_cycle_once mutualGraph ⟨10, 50⟩
  exact ⟨by decide, once.1, once.2.2.2⟩

end Graph

end CodeFacts.Imports
