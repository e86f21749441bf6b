/-
This file is the concept graph: a trie whose nodes carry co-activation edges. The path to a
term goes by the keys of its arguments, so an atom is at the root. An activation makes the
nodes of its path as long as there is room for them, counts at the node it reaches, and adds
weight to an edge, which a bag of bounded size holds. Decay takes weight from all edges and
prunes the weak ones.

The graph counts its nodes and edges as it goes: a new node and a new edge add one, an edge
that is pruned or evicted takes one away. A graph that is restored counts them anew. During a
call the clock answers the same.
-/

import Senars.Containers.BoundedMap
import Senars.Learning.Bag
import Senars.Terms.Term

namespace Senars.CoActivation

open Library Containers Terms
open Learning (retain)

/-! ### The best of a list -/

section

variable {Item Key : Type}

/-- An item comes to its place in the buffer of the best, which is kept with the worst first. -/
def insertBest (better : Key → Key → Bool) (item : Item × Key) :
    List (Item × Key) → List (Item × Key)
  | [] => [item]
  | incumbent :: rest =>
    if better item.2 incumbent.2 then incumbent :: insertBest better item rest
    else item :: incumbent :: rest

/-- The one bounded-buffer selection; the buffer is kept with the worst first. -/
def selectBest (count : ℕ) (key : Item → Key) (better : Key → Key → Bool) (eligible : Item → Bool) :
    List Item → List (Item × Key) → List Item
  | [], kept => (kept.map Prod.fst).reverse
  | item :: rest, kept =>
    if !eligible item then selectBest count key better eligible rest kept
    else if kept.length = count then
      match kept with
      | [] => selectBest count key better eligible rest kept
      | worst :: others =>
        if better (key item) worst.2 then
          selectBest count key better eligible rest (insertBest better (item, key item) others)
        else selectBest count key better eligible rest kept
    else selectBest count key better eligible rest (insertBest better (item, key item) kept)

/-- The top items by score, the highest first. -/
def selectTopN (items : List Item) (count : ℕ) (score : Item → JsNumber) (eligible : Item → Bool) :
    List Item :=
  if count = 0 then []
  else selectBest count score (fun candidate incumbent => JsNumber.less incumbent candidate)
    eligible items []

end

/-! ### Nodes and edges -/

structure CoActivationEdge where
  targetTerm : Term
  weight : JsNumber
  evidenceCount : ℕ
  lastUpdated : JsNumber

namespace CoActivationEdge

/-- An edge that is co-activated again. -/
def again (now : JsNumber) (edge : CoActivationEdge) : CoActivationEdge :=
  { edge with
    weight := edge.weight + 1, evidenceCount := edge.evidenceCount + 1, lastUpdated := now }

def decay (decayRate : JsNumber) (edge : CoActivationEdge) : CoActivationEdge :=
  { edge with weight := retain edge.weight decayRate }

end CoActivationEdge

abbrev EdgeBag := BoundedMap String CoActivationEdge

structure ConceptNode where
  term : Term
  children : List (String × ConceptNode)
  coActivations : EdgeBag
  activationCount : ℕ
  lastActivated : JsNumber

structure ConceptGraphOptions where
  maxNodes : ℕ := 10000
  maxEdgesPerNode : ℕ := 50
  decayRate : JsNumber := .finite (1 / 1000)
  minEdgeWeight : JsNumber := .finite (1 / 100)

/-- Per-node edge budget: the weakest edge loses the slot. -/
def createEdgeBag (options : ConceptGraphOptions) : EdgeBag :=
  .new { maxSize := options.maxEdgesPerNode, eviction := .byScore fun edge => edge.weight }

def createNode (options : ConceptGraphOptions) (now : JsNumber) (term : Term) : ConceptNode where
  term := term
  children := []
  coActivations := createEdgeBag options
  activationCount := 0
  lastActivated := now

/-- A co-activation is recorded in the bag of edges; the number is the change of the count of
edges, which goes up with a new edge and down with each evicted one. -/
def recordCoActivation (now : JsNumber) (coActiveWith : Term) (edges : EdgeBag) : EdgeBag × ℤ :=
  let read := edges.get now (termKey coActiveWith)
  match read.2 with
  | some _ =>
    (read.1.mutate (termKey coActiveWith) (.again now),
      edges.reported.length - read.1.reported.length)
  | none =>
    let next := read.1.set now 0 (termKey coActiveWith)
      { targetTerm := coActiveWith, weight := 1, evidenceCount := 1, lastUpdated := now }
    (next, 1 + edges.reported.length - next.reported.length)

/-- One edge decays, and is pruned where it comes to be weak. -/
def decayEdge (options : ConceptGraphOptions) (key : String) (edges : EdgeBag) : EdgeBag × ℤ :=
  let decayed := edges.mutate key (.decay options.decayRate)
  if (decayed.entries.get key).any fun entry =>
      JsNumber.less entry.value.weight options.minEdgeWeight then
    (decayed.delete key, -1)
  else (decayed, 0)

def decayEdges (options : ConceptGraphOptions) : List String → EdgeBag → EdgeBag × ℤ
  | [], edges => (edges, 0)
  | key :: rest, edges =>
    let next := decayEdge options key edges
    let last := decayEdges options rest next.1
    (last.1, next.2 + last.2)

namespace ConceptNode

/-- The node at the end of a path. -/
def nodeAt : ConceptNode → List Term → Option ConceptNode
  | node, [] => some node
  | node, arg :: rest =>
    (OrderedMap.getEntry (termKey arg) node.children).bind fun child => child.nodeAt rest

/-- The edges of a node after an activation, and the change of the count of edges. -/
def coActivate (now : JsNumber) (node : ConceptNode) : Option Term → EdgeBag × ℤ
  | none => (node.coActivations, 0)
  | some other => recordCoActivation now other node.coActivations

/-- A node that is activated once more, with its edges after that. -/
def activated (now : JsNumber) (edges : EdgeBag) (node : ConceptNode) : ConceptNode :=
  { node with
    activationCount := node.activationCount + 1, lastActivated := now, coActivations := edges }

/-- The node with a child in the place of the one under the key. -/
def setChild (node : ConceptNode) (key : String) (child : ConceptNode) : ConceptNode :=
  { node with children := OrderedMap.setEntry key child node.children }

/-- The trie with another node at the end of a path. -/
def replaceAt (replacement : ConceptNode) : ConceptNode → List Term → ConceptNode
  | _, [] => replacement
  | node, arg :: rest =>
    match OrderedMap.getEntry (termKey arg) node.children with
    | none => node
    | some child => node.setChild (termKey arg) (replaceAt replacement child rest)

/-- The walk along a path that makes the nodes it misses while there is room: the trie, the count of
nodes, and whether the end was reached. -/
def createPath (options : ConceptGraphOptions) (now : JsNumber) :
    ConceptNode → ℕ → List Term → ConceptNode × ℕ × Bool
  | node, nodeCount, [] => (node, nodeCount, true)
  | node, nodeCount, arg :: rest =>
    match OrderedMap.getEntry (termKey arg) node.children with
    | some child =>
      let made := createPath options now child nodeCount rest
      (node.setChild (termKey arg) made.1, made.2)
    | none =>
      if options.maxNodes ≤ nodeCount then (node, nodeCount, false)
      else
        let made := createPath options now (createNode options now arg) (nodeCount + 1) rest
        (node.setChild (termKey arg) made.1, made.2)

mutual

/-- Every node in the trie below a node, itself included, in pre-order. -/
def walkTrie : ConceptNode → List ConceptNode
  | ⟨term, children, coActivations, activationCount, lastActivated⟩ =>
    ⟨term, children, coActivations, activationCount, lastActivated⟩ :: walkChildren children

def walkChildren : List (String × ConceptNode) → List ConceptNode
  | [] => []
  | (_, child) :: rest => walkTrie child ++ walkChildren rest

end

def count (node : ConceptNode) (weight : ConceptNode → ℕ) : ℕ := (node.walkTrie.map weight).sum

mutual

/-- All edges decay; the number is the change of the count of edges. -/
def decay (options : ConceptGraphOptions) : ConceptNode → ConceptNode × ℤ
  | ⟨term, children, coActivations, activationCount, lastActivated⟩ =>
    let edges := decayEdges options (coActivations.entries.entries.map Prod.fst) coActivations
    let decayed := decayChildren options children
    (⟨term, decayed.1, edges.1, activationCount, lastActivated⟩, edges.2 + decayed.2)

def decayChildren (options : ConceptGraphOptions) :
    List (String × ConceptNode) → List (String × ConceptNode) × ℤ
  | [] => ([], 0)
  | (key, child) :: rest =>
    let decayed := decay options child
    let others := decayChildren options rest
    ((key, decayed.1) :: others.1, decayed.2 + others.2)

end

end ConceptNode

/-! ### The graph -/

structure ConceptGraph where
  options : ConceptGraphOptions
  root : ConceptNode
  nodeCount : ℕ := 1
  edgeCount : ℤ := 0

structure SerializedConceptNode where
  term : Term
  activationCount : ℕ
  lastActivated : JsNumber
  children : List (String × SerializedConceptNode)
  coActivations : List (String × CoActivationEdge)

structure SerializedConceptGraph where
  nodes : SerializedConceptNode
  options : ConceptGraphOptions

mutual

def serializeNode : ConceptNode → SerializedConceptNode
  | ⟨term, children, coActivations, activationCount, lastActivated⟩ =>
    ⟨term, activationCount, lastActivated, serializeChildren children,
      coActivations.entries.entries.map fun entry => (entry.1, entry.2.value)⟩

def serializeChildren : List (String × ConceptNode) → List (String × SerializedConceptNode)
  | [] => []
  | (key, child) :: rest => (key, serializeNode child) :: serializeChildren rest

end

/-- The edges of a list, set one after the other in a new bag. -/
def restoreEdges (options : ConceptGraphOptions) (now : JsNumber)
    (edges : List (String × CoActivationEdge)) : EdgeBag :=
  edges.foldl (fun bag edge => bag.set now 0 edge.1 edge.2) (createEdgeBag options)

mutual

def deserializeNode (options : ConceptGraphOptions) (now : JsNumber) :
    SerializedConceptNode → ConceptNode
  | ⟨term, activationCount, lastActivated, children, coActivations⟩ =>
    ⟨term, deserializeChildren options now children [], restoreEdges options now coActivations,
      activationCount, lastActivated⟩

def deserializeChildren (options : ConceptGraphOptions) (now : JsNumber) :
    List (String × SerializedConceptNode) → List (String × ConceptNode) →
      List (String × ConceptNode)
  | [], restored => restored
  | (key, child) :: rest, restored =>
    deserializeChildren options now rest
      (OrderedMap.setEntry key (deserializeNode options now child) restored)

end

namespace ConceptGraph

/-- A new graph. -/
def new (options : ConceptGraphOptions) (now : JsNumber) : ConceptGraph where
  options := options
  root := createNode options now (.atom "ROOT")

/-- Activate a concept and record its co-activation with another one. -/
def activate (graph : ConceptGraph) (now : JsNumber) (term : Term) (coActiveWith : Option Term) :
    ConceptGraph :=
  let path := graph.root.createPath graph.options now graph.nodeCount (getArgs term)
  let made := { graph with root := path.1, nodeCount := path.2.1 }
  if !path.2.2 then made
  else
    match path.1.nodeAt (getArgs term) with
    | none => made
    | some node =>
      let edges := node.coActivate now coActiveWith
      { made with
        root := .replaceAt (node.activated now edges.1) path.1 (getArgs term)
        edgeCount := graph.edgeCount + edges.2 }

/-- The co-activation edges of a concept, the heaviest first. -/
def getCoActivations (graph : ConceptGraph) (term : Term) (limit : ℕ) : List CoActivationEdge :=
  match graph.root.nodeAt (getArgs term) with
  | none => []
  | some node =>
    selectTopN node.coActivations.values limit (fun edge => edge.weight) fun edge =>
      JsNumber.lessEq graph.options.minEdgeWeight edge.weight

def decay (graph : ConceptGraph) : ConceptGraph :=
  let decayed := graph.root.decay graph.options
  { graph with root := decayed.1, edgeCount := graph.edgeCount + decayed.2 }

def serialize (graph : ConceptGraph) : SerializedConceptGraph where
  nodes := serializeNode graph.root
  options := graph.options

def deserialize (data : SerializedConceptGraph) (now : JsNumber) : ConceptGraph :=
  let root := deserializeNode data.options now data.nodes
  { options := data.options
    root
    nodeCount := root.count fun _ => 1
    edgeCount := root.count fun node => node.coActivations.size }

end ConceptGraph

end Senars.CoActivation
