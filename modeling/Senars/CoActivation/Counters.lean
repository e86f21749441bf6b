/-
This file is the counters of the concept graph. After any sequence of activations, decays and
restorations from its own serialised form, the graph counts as many nodes and edges as its
trie has, and there are no more nodes than it may have.

What one operation does to the trie is told by sums over all nodes: a child that is set in the
place of another exchanges the sums of the two.
-/

import Senars.CoActivation.ConceptGraph

namespace Senars.CoActivation

open Library Containers Terms

/-! ### Sums over the nodes of a trie -/

namespace ConceptNode

variable {weight : ConceptNode → ℕ} {options : ConceptGraphOptions}

/-- A number of a node that does not depend on its children. -/
def Flat (weight : ConceptNode → ℕ) : Prop :=
  ∀ node children, weight { node with children } = weight node

/-- How many edges a node has. -/
def edges (node : ConceptNode) : ℕ := node.coActivations.size

theorem flat_one : Flat fun _ => 1 := fun _ _ => rfl

theorem flat_edges : Flat edges := fun _ _ => rfl

theorem walkTrie_eq (node : ConceptNode) :
    node.walkTrie = node :: walkChildren node.children := by
  cases node
  rfl

/-- The sum over some children and what is below them. -/
def countChildren (children : List (String × ConceptNode)) (weight : ConceptNode → ℕ) : ℕ :=
  (children.map fun entry => entry.2.count weight).sum

theorem sum_walkChildren (children : List (String × ConceptNode)) (weight : ConceptNode → ℕ) :
    ((walkChildren children).map weight).sum = countChildren children weight := by
  induction children with
  | nil => rfl
  | cons entry rest ih =>
    have walked : walkChildren (entry :: rest) = entry.2.walkTrie ++ walkChildren rest := rfl
    rw [walked, List.map_append, List.sum_append, ih]
    rfl

theorem count_eq (node : ConceptNode) (weight : ConceptNode → ℕ) :
    node.count weight = weight node + countChildren node.children weight := by
  unfold count
  rw [walkTrie_eq, List.map_cons, List.sum_cons, sum_walkChildren]

variable {node : ConceptNode}

theorem count_setChild_of_present (flat : Flat weight) {old key}
    (present : OrderedMap.getEntry key node.children = some old) (child : ConceptNode) :
    (node.setChild key child).count weight + old.count weight =
      node.count weight + child.count weight := by
  have exchanged :=
    OrderedMap.sum_setEntry_of_present (fun node : ConceptNode => node.count weight) child present
  have same : weight (node.setChild key child) = weight node := flat _ _
  rw [count_eq, count_eq node, same]
  unfold countChildren setChild
  dsimp only
  omega

theorem count_setChild_of_absent (flat : Flat weight) {key}
    (absent : OrderedMap.getEntry key node.children = none) (child : ConceptNode) :
    (node.setChild key child).count weight = node.count weight + child.count weight := by
  have added :=
    OrderedMap.sum_setEntry_of_absent (fun node : ConceptNode => node.count weight) child absent
  have same : weight (node.setChild key child) = weight node := flat _ _
  rw [count_eq, count_eq node, same]
  unfold countChildren setChild
  dsimp only
  omega

theorem count_replaceAt (flat : Flat weight) {old path} (found : node.nodeAt path = some old)
    (replacement : ConceptNode) :
    (replaceAt replacement node path).count weight + old.count weight =
      node.count weight + replacement.count weight := by
  induction path generalizing node with
  | nil =>
    cases found
    exact Nat.add_comm _ _
  | cons arg rest ih =>
    obtain ⟨child, present, below⟩ := Option.bind_eq_some_iff.mp found
    have exchanged := ih below
    have outer := count_setChild_of_present flat present (replaceAt replacement child rest)
    rw [replaceAt, present]
    simp only
    omega

theorem count_activated (now : JsNumber) (bag : EdgeBag) (node : ConceptNode) :
    (node.activated now bag).count (fun _ => 1) = node.count (fun _ => 1) ∧
      (node.activated now bag).count edges + node.coActivations.size =
        node.count edges + bag.size := by
  rw [count_eq, count_eq, count_eq, count_eq]
  unfold activated edges
  dsimp only
  omega

theorem count_createNode (now : JsNumber) (term : Term) :
    (createNode options now term).count weight = weight (createNode options now term) := by
  rfl

theorem count_createPath (options : ConceptGraphOptions) (now : JsNumber) (node : ConceptNode)
    (nodeCount : ℕ) (path : List Term) :
    (createPath options now node nodeCount path).1.count (fun _ => 1) + nodeCount =
        node.count (fun _ => 1) + (createPath options now node nodeCount path).2.1 ∧
      (createPath options now node nodeCount path).1.count edges = node.count edges ∧
      (nodeCount ≤ options.maxNodes →
        (createPath options now node nodeCount path).2.1 ≤ options.maxNodes) := by
  induction path generalizing node nodeCount with
  | nil => exact ⟨rfl, rfl, id⟩
  | cons arg rest ih =>
    unfold createPath
    split
    · rename_i child present
      obtain ⟨nodes, sameEdges, bounded⟩ := ih child nodeCount
      have outerNodes := count_setChild_of_present flat_one present
        (createPath options now child nodeCount rest).1
      have outerEdges := count_setChild_of_present flat_edges present
        (createPath options now child nodeCount rest).1
      refine ⟨?_, ?_, bounded⟩
      · simp only
        omega
      · simp only
        omega
    · rename_i absent
      split
      · exact ⟨rfl, rfl, id⟩
      · rename_i room
        obtain ⟨nodes, sameEdges, bounded⟩ :=
          ih (createNode options now arg) (nodeCount + 1)
        have outerNodes := count_setChild_of_absent flat_one absent
          (createPath options now (createNode options now arg) (nodeCount + 1) rest).1
        have outerEdges := count_setChild_of_absent flat_edges absent
          (createPath options now (createNode options now arg) (nodeCount + 1) rest).1
        have newNode : (createNode options now arg).count (fun _ => 1) = 1 :=
          count_createNode now arg
        have noEdges : (createNode options now arg).count edges = 0 :=
          count_createNode now arg
        refine ⟨?_, ?_, fun _ => bounded (by omega)⟩
        · simp only
          omega
        · simp only
          omega

end ConceptNode

/-! ### What happens to the edges of a node -/

theorem size_recordCoActivation (now : JsNumber) (coActiveWith : Term) (edges : EdgeBag) :
    ((recordCoActivation now coActiveWith edges).1.size : ℤ) =
      edges.size + (recordCoActivation now coActiveWith edges).2 := by
  have read := edges.balance_get now (termKey coActiveWith)
  unfold recordCoActivation
  dsimp only
  split
  · dsimp only
    rw [BoundedMap.size_mutate]
    omega
  · rename_i nothing
    have added := BoundedMap.balance_set (BoundedMap.absent_of_get nothing) now 0
      { targetTerm := coActiveWith, weight := 1, evidenceCount := 1, lastUpdated := now }
    dsimp only
    omega

theorem size_coActivate (now : JsNumber) (node : ConceptNode) (coActiveWith : Option Term) :
    ((node.coActivate now coActiveWith).1.size : ℤ) =
      node.coActivations.size + (node.coActivate now coActiveWith).2 := by
  cases coActiveWith with
  | none => exact (Int.add_zero _).symm
  | some other => exact size_recordCoActivation now other node.coActivations

theorem size_decayEdge (options : ConceptGraphOptions) (key : String) (edges : EdgeBag) :
    ((decayEdge options key edges).1.size : ℤ) =
      edges.size + (decayEdge options key edges).2 := by
  have same := edges.size_mutate key (.decay options.decayRate)
  unfold decayEdge
  dsimp only
  split
  · rename_i weak
    obtain ⟨entry, found, _⟩ := (Option.any_eq_true _ _).mp weak
    have shorter : ((edges.mutate key (.decay options.decayRate)).delete key).size + 1 =
        (edges.mutate key (.decay options.decayRate)).size := OrderedMap.size_delete found
    dsimp only
    omega
  · dsimp only
    omega

theorem size_decayEdges (options : ConceptGraphOptions) (keys : List String) (edges : EdgeBag) :
    ((decayEdges options keys edges).1.size : ℤ) =
      edges.size + (decayEdges options keys edges).2 := by
  induction keys generalizing edges with
  | nil => exact (Int.add_zero _).symm
  | cons key rest ih =>
    have here := size_decayEdge options key edges
    have later := ih (decayEdge options key edges).1
    unfold decayEdges
    dsimp only
    omega

namespace ConceptNode

mutual

theorem count_decay (options : ConceptGraphOptions) : ∀ node : ConceptNode,
    (node.decay options).1.count (fun _ => 1) = node.count (fun _ => 1) ∧
      ((node.decay options).1.count edges : ℤ) = node.count edges + (node.decay options).2
  | ⟨term, children, coActivations, activationCount, lastActivated⟩ => by
    obtain ⟨nodes, below⟩ := count_decayChildren options children
    have here :=
      size_decayEdges options (coActivations.entries.entries.map Prod.fst) coActivations
    rw [count_eq, count_eq, count_eq, count_eq]
    unfold decay edges
    unfold edges at below
    dsimp only
    omega

theorem count_decayChildren (options : ConceptGraphOptions) :
    ∀ children : List (String × ConceptNode),
      countChildren (decayChildren options children).1 (fun _ => 1) =
          countChildren children (fun _ => 1) ∧
        (countChildren (decayChildren options children).1 edges : ℤ) =
          countChildren children edges + (decayChildren options children).2
  | [] => ⟨rfl, rfl⟩
  | (key, child) :: rest => by
    obtain ⟨nodes, here⟩ := count_decay options child
    obtain ⟨otherNodes, later⟩ := count_decayChildren options rest
    unfold decayChildren
    unfold countChildren at *
    simp only [List.map_cons, List.sum_cons]
    omega

end

/-! ### Restored tries -/

theorem countChildren_setEntry_le (key : String) (child : ConceptNode)
    (children : List (String × ConceptNode)) (weight : ConceptNode → ℕ) :
    countChildren (OrderedMap.setEntry key child children) weight ≤
      countChildren children weight + child.count weight := by
  unfold countChildren
  cases found : OrderedMap.getEntry key children with
  | none =>
    exact (OrderedMap.sum_setEntry_of_absent
      (fun node : ConceptNode => node.count weight) child found).le
  | some old =>
    have exchanged := OrderedMap.sum_setEntry_of_present
      (fun node : ConceptNode => node.count weight) child found
    omega

mutual

theorem count_deserializeNode_le (options : ConceptGraphOptions) (now : JsNumber) :
    ∀ node : ConceptNode,
      (deserializeNode options now (serializeNode node)).count (fun _ => 1) ≤
        node.count fun _ => 1
  | ⟨term, children, coActivations, activationCount, lastActivated⟩ => by
    have below := count_deserializeChildren_le options now children []
    rw [count_eq, count_eq]
    exact Nat.add_le_add_left (below.trans (Nat.zero_add _).le) 1

theorem count_deserializeChildren_le (options : ConceptGraphOptions) (now : JsNumber) :
    ∀ children restored : List (String × ConceptNode),
      countChildren (deserializeChildren options now (serializeChildren children) restored)
          (fun _ => 1) ≤
        countChildren restored (fun _ => 1) + countChildren children fun _ => 1
  | [], restored => le_refl _
  | (key, child) :: rest, restored => by
    have here := count_deserializeNode_le options now child
    have set := countChildren_setEntry_le key (deserializeNode options now (serializeNode child))
      restored fun _ => 1
    have later := count_deserializeChildren_le options now rest
      (OrderedMap.setEntry key (deserializeNode options now (serializeNode child)) restored)
    have whole : countChildren ((key, child) :: rest) (fun _ => 1) =
        child.count (fun _ => 1) + countChildren rest fun _ => 1 := rfl
    unfold serializeChildren deserializeChildren
    omega

end

end ConceptNode

/-! ### Runs -/

/-- What may be done to a graph; at each time the clock is read. -/
inductive GraphEvent where
  | activate (now : JsNumber) (term : Term) (coActiveWith : Option Term)
  | decay
  | reload (now : JsNumber)

namespace ConceptGraph

variable {options : ConceptGraphOptions} {graph : ConceptGraph}

def apply (graph : ConceptGraph) : GraphEvent → ConceptGraph
  | .activate now term coActiveWith => graph.activate now term coActiveWith
  | .decay => graph.decay
  | .reload now => deserialize graph.serialize now

/-- A graph as a machine. -/
def machine : Machine ConceptGraph GraphEvent := fun graph event => some (graph.apply event)

/-- The counters are the numbers of nodes and edges of the trie, and there are not too many
nodes. -/
structure Counted (options : ConceptGraphOptions) (graph : ConceptGraph) : Prop where
  sameOptions : graph.options = options
  nodes : graph.nodeCount = graph.root.walkTrie.length
  edges : graph.edgeCount = (graph.root.walkTrie.map fun node => node.coActivations.size).sum
  bounded : graph.nodeCount ≤ options.maxNodes

theorem count_one (node : ConceptNode) : node.count (fun _ => 1) = node.walkTrie.length := by
  simp [ConceptNode.count]

theorem counted_iff : Counted options graph ↔
    graph.options = options ∧ graph.nodeCount = graph.root.count (fun _ => 1) ∧
      graph.edgeCount = graph.root.count ConceptNode.edges ∧
      graph.nodeCount ≤ options.maxNodes := by
  rw [count_one]
  exact ⟨fun ⟨same, nodes, edges, bounded⟩ => ⟨same, nodes, edges, bounded⟩,
    fun ⟨same, nodes, edges, bounded⟩ => ⟨same, nodes, edges, bounded⟩⟩

theorem counted_new (some : 1 ≤ options.maxNodes) (now : JsNumber) :
    Counted options (new options now) :=
  ⟨rfl, rfl, rfl, some⟩

theorem counted_activate (counted : Counted options graph) (now : JsNumber) (term : Term)
    (coActiveWith : Option Term) : Counted options (graph.activate now term coActiveWith) := by
  obtain ⟨rfl, nodes, edges, bounded⟩ := counted_iff.mp counted
  obtain ⟨newNodes, sameEdges, stays⟩ :=
    ConceptNode.count_createPath graph.options now graph.root graph.nodeCount (getArgs term)
  have stays := stays bounded
  rw [counted_iff]
  unfold activate
  dsimp only
  split
  · exact ⟨rfl, by dsimp only; omega, by dsimp only; omega, stays⟩
  · split
    · exact ⟨rfl, by dsimp only; omega, by dsimp only; omega, stays⟩
    · rename_i node found
      have changed := size_coActivate now node coActiveWith
      obtain ⟨sameNodes, exchanged⟩ :=
        node.count_activated now (node.coActivate now coActiveWith).1
      have outerNodes := ConceptNode.count_replaceAt ConceptNode.flat_one found
        (node.activated now (node.coActivate now coActiveWith).1)
      have outerEdges := ConceptNode.count_replaceAt ConceptNode.flat_edges found
        (node.activated now (node.coActivate now coActiveWith).1)
      refine ⟨rfl, ?_, ?_, stays⟩
      · dsimp only
        omega
      · dsimp only
        omega

theorem counted_decay (counted : Counted options graph) : Counted options graph.decay := by
  obtain ⟨rfl, nodes, edges, bounded⟩ := counted_iff.mp counted
  obtain ⟨sameNodes, changed⟩ := graph.root.count_decay graph.options
  rw [counted_iff]
  unfold decay
  dsimp only
  exact ⟨rfl, nodes.trans sameNodes.symm, by omega, bounded⟩

theorem counted_reload (counted : Counted options graph) (now : JsNumber) :
    Counted options (deserialize graph.serialize now) := by
  obtain ⟨rfl, nodes, edges, bounded⟩ := counted_iff.mp counted
  have fewer := ConceptNode.count_deserializeNode_le graph.options now graph.root
  rw [counted_iff]
  exact ⟨rfl, rfl, rfl, fewer.trans (nodes.symm.trans_le bounded)⟩

/-- In every run of a new graph that may have a node, the counters are the numbers of nodes and
edges of the trie, and there are no more nodes than it may have. -/
theorem counted_of_run (some : 1 ≤ options.maxNodes) {start : JsNumber} {last : ConceptGraph}
    {events : List GraphEvent} (run : Run machine (new options start) events last) :
    Counted options last := by
  refine run.keeps ?_ (counted_new some start)
  intro graph event next counted taken
  cases Option.some.inj taken
  cases event with
  | activate now term coActiveWith => exact counted_activate counted now term coActiveWith
  | decay => exact counted_decay counted
  | reload now => exact counted_reload counted now

theorem counted_of_run_full : ∃ last, Run machine (new { maxNodes := 2 } 0)
      [.activate 0 (.compound .product [.atom "a", .atom "b"]) (some (.atom "c")), .decay] last ∧
    Counted { maxNodes := 2 } last :=
  ⟨_, .cons rfl (.cons rfl (.nil _)),
    counted_of_run (by decide) (.cons rfl (.cons rfl (.nil _)))⟩

end ConceptGraph

end Senars.CoActivation
