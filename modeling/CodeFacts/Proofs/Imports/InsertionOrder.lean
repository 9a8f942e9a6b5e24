import CodeFacts.Proofs.Imports.Build

/-!
# The order of insertion

A graph that is made from nodes of different files is the same whatever the order of the nodes: the
nodes are kept in the order of their paths, and there is one such order. From then on nothing tells
in which order they were inserted, neither the edges that are linked nor the cycles that a search
meets, wherever its limits stop it. Linking moves no node, so the files are listed in this one
order at any time.
-/

namespace CodeFacts.Imports

/-- What can be asked of a graph. -/
inductive Request where
  /-- To turn specifiers into edges. -/
  | link
  | resolve (importer : Path) (specifier : String)
  | countEdges
  | listNodes
  | findCycles (limits : CycleLimits)
deriving DecidableEq, Repr

/-- What a graph answers. -/
inductive Reply where
  | linked
  | target (found : Option Path)
  | edges (count : Nat)
  | nodes (listed : List FileNode)
  | cycles (found : List Cycle) (truncated : Bool)
  | aborted (cause : Abort)
deriving DecidableEq, Repr

namespace Graph

/-- The answer to a request. -/
def reply (graph : Graph) : Request → Reply
  | .link => .linked
  | .resolve importer specifier => .target (graph.resolve? importer specifier)
  | .countEdges => .edges graph.edgeCount
  | .listNodes => .nodes graph.nodes
  | .findCycles limits =>
    match graph.findCycles limits with
    | .error cause => .aborted cause
    | .ok search => .cycles search.cycles search.truncated

/-- The graph after a request. -/
def after (graph : Graph) : Request → Graph
  | .link => graph.link
  | _ => graph

/-- The answers to requests that are made one after the other. -/
def replies (graph : Graph) : List Request → List Reply
  | [] => []
  | request :: rest => graph.reply request :: (graph.after request).replies rest

/-- The graph of given nodes, inserted one after the other. -/
def ofNodes (root : Path) (nodes : List FileNode) : Graph :=
  nodes.foldl insert (empty root)

/-- The paths of the nodes, in their order. -/
def paths (graph : Graph) : List Path :=
  graph.nodes.map FileNode.path

theorem paths_after (graph : Graph) (request : Request) :
    (graph.after request).paths = graph.paths := by
  cases request with
  | link =>
      change graph.link.paths = graph.paths
      rw [paths, link_nodes, paths, List.map_map]
      apply List.map_congr_left
      intro node _
      exact (node.foldl_record_fixed graph.resolved).1
  | _ => rfl

/-- Whenever the nodes are listed, their paths are those that the graph started with. -/
theorem paths_of_mem_replies {graph : Graph} {requests : List Request} {listed : List FileNode}
    (listed_mem : Reply.nodes listed ∈ graph.replies requests) :
    listed.map FileNode.path = graph.paths := by
  induction requests generalizing graph with
  | nil => simp [replies] at listed_mem
  | cons request rest ih =>
      rcases List.mem_cons.mp listed_mem with now | later
      · cases request with
        | listNodes =>
            simp only [reply, Reply.nodes.injEq] at now
            rw [now, paths]
        | findCycles limits =>
            simp only [reply] at now
            split at now <;> contradiction
        | _ => simp [reply] at now
      · rw [ih later, paths_after]

/-- Nodes of different files make one graph, in whatever order they are inserted. -/
theorem ofNodes_eq_of_perm (root : Path) {first second : List FileNode}
    (distinct : (first.map FileNode.location).Nodup) (same : first.Perm second) :
    ofNodes root first = ofNodes root second := by
  have second_distinct : (second.map FileNode.location).Nodup :=
    (same.map FileNode.location).nodup_iff.mp distinct
  have root_eq : (ofNodes root first).root = (ofNodes root second).root := by
    rw [ofNodes, ofNodes, foldl_insert_root, foldl_insert_root]
  have nodes_eq : (ofNodes root first).nodes = (ofNodes root second).nodes := by
    apply (ofNodes root first).ordered.eq_of_mem_iff (ofNodes root second).ordered
    intro node
    calc node ∈ (ofNodes root first).nodes
      _ ↔ node ∈ first := (foldl_insert_perm root distinct).mem_iff
      _ ↔ node ∈ second := same.mem_iff
      _ ↔ node ∈ (ofNodes root second).nodes :=
          (foldl_insert_perm root second_distinct).mem_iff.symm
  exact Graph.ext root_eq nodes_eq

/-- Whatever is asked of a graph, the answers do not tell in which order its nodes were inserted,
and whenever they list the nodes, these are in the order of their paths. -/
theorem replies_after_insertions_in_any_order (root : Path) (first second : List FileNode)
    (distinct : (first.map FileNode.location).Nodup) (same : first.Perm second) :
    ∃ ordered : List Path,
      ordered.Perm (first.map FileNode.path) ∧
      OrderedList.Increasing Path.compare ordered ∧
      ∀ requests,
        (ofNodes root first).replies requests = (ofNodes root second).replies requests ∧
        ∀ listed, Reply.nodes listed ∈ (ofNodes root first).replies requests →
          listed.map FileNode.path = ordered := by
  refine ⟨(ofNodes root first).paths, ?_, ?_, ?_⟩
  · exact (foldl_insert_perm root distinct).map FileNode.path
  · exact List.pairwise_map.mpr (ofNodes root first).ordered
  · intro requests
    refine ⟨?_, fun listed => paths_of_mem_replies⟩
    rw [ofNodes_eq_of_perm root distinct same]

/-- Three files, each of which imports the two others. -/
def mutualFiles : List FileNode :=
  [⟨⟨"/p/a.ts"⟩, [], ["./b", "./c"], [], [], by decide⟩,
    ⟨⟨"/p/b.ts"⟩, [], ["./a", "./c"], [], [], by decide⟩,
    ⟨⟨"/p/c.ts"⟩, [], ["./a", "./b"], [], [], by decide⟩]

theorem replies_after_inserting_mutualFiles_in_any_order :
    let one := ofNodes ⟨"/p"⟩ mutualFiles
    let other := ofNodes ⟨"/p"⟩ mutualFiles.reverse
    let requests : List Request := [.link, .countEdges, .findCycles { maxCycles := 1 }]
    (mutualFiles.map FileNode.location).Nodup ∧
      one.replies requests =
        [.linked, .edges 6, .cycles [[⟨"/p/a.ts"⟩, ⟨"/p/b.ts"⟩, ⟨"/p/a.ts"⟩]] true] ∧
      one.replies requests = other.replies requests := by
  intro one other requests
  have distinct : (mutualFiles.map FileNode.location).Nodup := by decide
  rcases replies_after_insertions_in_any_order ⟨"/p"⟩ mutualFiles mutualFiles.reverse distinct
    mutualFiles.reverse_perm.symm with ⟨ordered, -, -, alike⟩
  exact ⟨distinct, by decide +kernel, (alike requests).1⟩

end Graph

end CodeFacts.Imports
