/-
This file is the reasoning trace: the recorded derivations, the tree that is built of a
task's recorded ancestors, and the explanation of a conclusion.

The nodes of a tree are those of the record, and the children hung on them stay there. So
a tree is the walk over the ancestors exactly where none of them was walked over before. The
explanation does not walk at all. Times, the neighbours of a concept and the text of an
explanation are left out.
-/

import Mathlib.Data.Finset.Card
import Mathlib.Data.Finset.Dedup
import Senars.Containers.BoundedMap
import Senars.Library.DepthFirst
import Senars.Terms.Stamp

namespace Senars.Query

open Library Library.DepthFirst Containers Terms

/-- A task: its stamp, and what a trace does not read. -/
structure TracedTask (Content : Type) where
  content : Content
  stamp : Stamp
  deriving DecidableEq

/-- A node: which object it is, and its fields that do not change. Its children are with the
trace. -/
structure DerivationNode (Content : Type) where
  ref : ℕ
  task : TracedTask Content
  rule : Option String
  deriving DecidableEq

structure ReasoningTrace (Content : Type) where
  derivationHistory : BoundedMap String (DerivationNode Content)
  children : ℕ → List (DerivationNode Content)
  allocated : ℕ

structure DerivationTree (Content : Type) where
  root : Forest (DerivationNode Content)
  depth : ℕ
  nodeCount : ℕ

structure ExplainResult (Content : Type) where
  conclusion : TracedTask Content
  premises : List (TracedTask Content)
  rules : List String

/-- The children so far, and the ids of the nodes that were walked over. -/
structure TraceWalk (Content : Type) where
  children : ℕ → List (DerivationNode Content)
  visited : List String

namespace ReasoningTrace

variable {Content : Type}

def new (maxDerivations : ℕ) : ReasoningTrace Content where
  derivationHistory := .new { maxSize := maxDerivations, eviction := .fifo }
  children _ := []
  allocated := 0

/-- `derivationHistory.get`: the entries do not expire, and a read leaves them in their order. -/
def find (trace : ReasoningTrace Content) (id : String) : Option (DerivationNode Content) :=
  (trace.derivationHistory.get 0 id).2

def recordDerivation (trace : ReasoningTrace Content) (task : TracedTask Content)
    (rule : Option String) : ReasoningTrace Content :=
  { trace with
    derivationHistory :=
      trace.derivationHistory.set 0 0 task.stamp.id ⟨trace.allocated, task, rule⟩
    allocated := trace.allocated + 1 }

/-- One turn of the loop in `populateChildren`, which goes on with a parent that was not visited. -/
def visitParent (find : String → Option (DerivationNode Content))
    (populate : DerivationNode Content → TraceWalk Content → TraceWalk Content)
    (node : DerivationNode Content) (walk : TraceWalk Content) (derivId : String) :
    TraceWalk Content :=
  match find derivId with
  | none => walk
  | some parent =>
    if derivId ∈ walk.visited then walk
    else populate parent
      { walk with children := push DerivationNode.ref walk.children node parent }

def populateChildren (find : String → Option (DerivationNode Content)) :
    ℕ → DerivationNode Content → TraceWalk Content → TraceWalk Content
  | 0, _, walk => walk
  | fuel + 1, node, walk =>
    if node.task.stamp.id = "" then walk
    else if node.task.stamp.id ∈ walk.visited then walk
    else node.task.stamp.derivations.foldl (visitParent find (populateChildren find fuel) node)
      { walk with visited := node.task.stamp.id :: walk.visited }

/-- The trace after a tree was built, and the root of the tree. No way down is longer than the
record. -/
def buildDerivationTree (trace : ReasoningTrace Content) (task : TracedTask Content) :
    ReasoningTrace Content × DerivationNode Content :=
  let root : DerivationNode Content := ⟨trace.allocated, task, none⟩
  let walk := populateChildren trace.find (trace.derivationHistory.size + 1) root
    ⟨trace.children, []⟩
  ({ trace with children := walk.children, allocated := trace.allocated + 1 }, root)

/-- The tree below a node, by following the children. Where they lead round there is none, and the
source runs out of stack. -/
def readTree (trace : ReasoningTrace Content) (fuel : ℕ) (root : DerivationNode Content) :
    Option (DerivationTree Content) :=
  (grow DerivationNode.ref trace.children fuel [root]).map fun tree =>
    ⟨tree, tree.depth, tree.nodes.length⟩

def collectDerivationHistory (task : TracedTask Content)
    (history : List (TracedTask Content)) (visited : List String) :
    List (TracedTask Content) × List String :=
  if task.stamp.id = "" then (history, visited)
  else if task.stamp.id ∈ visited then (history, visited)
  else (history ++ [task], task.stamp.id :: visited)

def getDerivationHistory (task : TracedTask Content) : List (TracedTask Content) :=
  (collectDerivationHistory task [] []).1

def explain (trace : ReasoningTrace Content) (conclusion : TracedTask Content) :
    ExplainResult Content :=
  let history := getDerivationHistory conclusion
  { conclusion
    premises := history.filter fun task => task.stamp.id ≠ conclusion.stamp.id
    rules := uniqueBy id <| history.filterMap fun task =>
      ((trace.find task.stamp.id).bind (·.rule)).filter (· ≠ "") }

/-! ### Calls -/

inductive Call (Content : Type) where
  | recordDerivation (task : TracedTask Content) (rule : Option String)
  | buildDerivationTree (task : TracedTask Content)
  | explain (conclusion : TracedTask Content)

def call : Machine (ReasoningTrace Content) (Call Content)
  | trace, .recordDerivation task rule => some (trace.recordDerivation task rule)
  | trace, .buildDerivationTree task => some (trace.buildDerivationTree task).1
  | trace, .explain _ => some trace

/-- What is recorded has an id, and does not go past the capacity. -/
def Fits (trace : ReasoningTrace Content) : Call Content → Prop
  | .recordDerivation task _ => task.stamp.id ≠ "" ∧
      (trace.derivationHistory.size < trace.derivationHistory.maxSize ∨
        trace.find task.stamp.id ≠ none)
  | _ => True

/-- The id of a recorded ancestor: the task lists it, or another recorded ancestor does. The task
itself stands for its own id. -/
def Ancestor (trace : ReasoningTrace Content) (task : TracedTask Content) (id : String) : Prop :=
  id ≠ task.stamp.id ∧ trace.find id ≠ none ∧
    Reaches trace.find (fun node => node.task.stamp.derivations) task.stamp.id
      task.stamp.derivations id

/-- The tree that is built has the task and each recorded ancestor, once. -/
def BuildsAncestors (trace : ReasoningTrace Content) (task : TracedTask Content) : Prop :=
  ∃ fuel tree,
    (trace.buildDerivationTree task).1.readTree fuel (trace.buildDerivationTree task).2 =
      some tree ∧
    tree.root.nodes.Nodup ∧
    ∀ node, node ∈ tree.root.nodes ↔ node = (trace.buildDerivationTree task).2 ∨
      ∃ id, trace.Ancestor task id ∧ trace.find id = some node

/-- The explanation has the recorded ancestors as premises, and their rules and the task's own. -/
def ExplainsAncestors (trace : ReasoningTrace Content) (task : TracedTask Content) : Prop :=
  (∀ premise, premise ∈ (trace.explain task).premises ↔
    ∃ id node, trace.Ancestor task id ∧ trace.find id = some node ∧ node.task = premise) ∧
  ∀ rule, rule ∈ (trace.explain task).rules ↔
    rule ≠ "" ∧ ∃ id node, (id = task.stamp.id ∨ trace.Ancestor task id) ∧
      trace.find id = some node ∧ node.rule = some rule

end ReasoningTrace

/-! ### The record -/

namespace ReasoningTrace

section Record

variable {Content : Type} {trace next : ReasoningTrace Content}

theorem find_eq (lasting : trace.derivationHistory.neverExpires = true) (id : String) :
    trace.find id = (trace.derivationHistory.entries.get id).map (·.value) :=
  (BoundedMap.get_of_neverExpires lasting 0 id).1

/-- Recorded nodes are under their ids, and are objects of their own. No node that is not made yet
has children. -/
structure Consistent (trace : ReasoningTrace Content) : Prop where
  lasting : trace.derivationHistory.neverExpires = true
  keyed : ∀ id node, trace.find id = some node → node.task.stamp.id = id
  named : trace.find "" = none
  allocated : ∀ id node, trace.find id = some node → node.ref < trace.allocated
  apart : ∀ first second one two, trace.find first = some one → trace.find second = some two →
    one.ref = two.ref → one = two
  bare : ∀ ref, trace.allocated ≤ ref → trace.children ref = []

theorem consistent_new (maxDerivations : ℕ) :
    (new maxDerivations : ReasoningTrace Content).Consistent where
  lasting := decide_eq_true rfl
  keyed _ _ found := nomatch found
  named := rfl
  allocated _ _ found := nomatch found
  apart _ _ _ _ found := nomatch found
  bare _ _ := rfl

theorem find_recordDerivation (consistent : trace.Consistent) {task rule}
    (fits : trace.Fits (.recordDerivation task rule)) (id : String) :
    (trace.recordDerivation task rule).find id =
      if id = task.stamp.id then some ⟨trace.allocated, task, rule⟩ else trace.find id := by
  have lasting : (trace.recordDerivation task rule).derivationHistory.neverExpires = true := by
    unfold BoundedMap.neverExpires recordDerivation BoundedMap.set
    rw [BoundedMap.options_makeRoom]
    exact consistent.lasting
  rw [find_eq lasting, recordDerivation, BoundedMap.get_set, find_eq consistent.lasting]
  split_ifs with own
  · rfl
  · obtain ⟨_, _, made⟩ | ⟨_, _, absent, full, _⟩ | ⟨_, made, _⟩ :=
      trace.derivationHistory.makeRoom_cases 0 task.stamp.id
    · rw [made, OrderedMap.get_delete, if_neg own]
    · rw [Fits, find_eq consistent.lasting, absent] at fits
      exact absurd full (not_le.mpr (fits.2.resolve_right fun present => present rfl))
    · rw [made]

theorem Consistent.recordDerivation (consistent : trace.Consistent) {task rule}
    (fits : trace.Fits (.recordDerivation task rule)) :
    (trace.recordDerivation task rule).Consistent where
  lasting := by
    unfold BoundedMap.neverExpires ReasoningTrace.recordDerivation BoundedMap.set
    rw [BoundedMap.options_makeRoom]
    exact consistent.lasting
  keyed id node found := by
    rw [find_recordDerivation consistent fits] at found
    split_ifs at found with own
    · cases found
      exact own.symm
    · exact consistent.keyed id node found
  named := by
    rw [find_recordDerivation consistent fits, if_neg (Ne.symm fits.1)]
    exact consistent.named
  allocated id node found := by
    rw [find_recordDerivation consistent fits] at found
    split_ifs at found with own
    · cases found
      exact Nat.lt_succ_self _
    · exact Nat.lt_succ_of_lt (consistent.allocated id node found)
  apart first second one two firstFound secondFound same := by
    rw [find_recordDerivation consistent fits] at firstFound secondFound
    split_ifs at firstFound secondFound
    · exact (Option.some.inj firstFound).symm.trans (Option.some.inj secondFound)
    · cases firstFound
      exact absurd same (consistent.allocated _ _ secondFound).ne'
    · cases secondFound
      exact absurd same (consistent.allocated _ _ firstFound).ne
    · exact consistent.apart _ _ _ _ firstFound secondFound same
  bare ref past := consistent.bare ref (Nat.le_of_succ_le past)

end Record

/-! ### The walk -/

section Walk

variable {Content : Type} {find : String → Option (DerivationNode Content)}

/-- What a walk along some ids does: it enters a forest, and hangs it on the node. -/
def Walks (find : String → Option (DerivationNode Content)) (node : DerivationNode Content)
    (derivations : List String) (walk later : TraceWalk Content) : Prop :=
  ∃ forest, Enters find (fun node => node.task.stamp.derivations) derivations walk.visited forest
      later.visited ∧
    later.children = hang DerivationNode.ref walk.children node forest

/-- How many of some ids were not visited. -/
def unvisited (ids : Finset String) (visited : List String) : ℕ := (ids.filter (· ∉ visited)).card

theorem unvisited_mono {ids visited later} (within : ∀ id ∈ visited, id ∈ later) :
    unvisited ids later ≤ unvisited ids visited :=
  Finset.card_le_card (Finset.monotone_filter_right ids fun _ _ fresh old => fresh (within _ old))

theorem unvisited_cons_lt {ids visited id} (isIn : id ∈ ids) (fresh : id ∉ visited) :
    unvisited ids (id :: visited) < unvisited ids visited := by
  refine Finset.card_lt_card ⟨?_, fun within => ?_⟩
  · exact Finset.monotone_filter_right ids fun _ _ unseen old => unseen (List.mem_cons_of_mem _ old)
  · have kept := within (Finset.mem_filter.mpr ⟨isIn, fresh⟩)
    exact (Finset.mem_filter.mp kept).2 List.mem_cons_self

variable {ids : Finset String}

theorem walks_populateChildren (keyed : ∀ id node, find id = some node → node.task.stamp.id = id)
    (named : find "" = none) (among : ∀ id, find id ≠ none → id ∈ ids) {fuel}
    (node : DerivationNode Content) (walk : TraceWalk Content) (hasId : node.task.stamp.id ≠ "")
    (fresh : node.task.stamp.id ∉ walk.visited)
    (enough : unvisited ids (node.task.stamp.id :: walk.visited) < fuel) :
    Walks find node node.task.stamp.derivations
      ⟨walk.children, node.task.stamp.id :: walk.visited⟩
      (populateChildren find fuel node walk) := by
  induction fuel generalizing node walk with
  | zero => exact absurd enough (Nat.not_lt_zero _)
  | succ fuel induction =>
    rw [populateChildren, if_neg hasId, if_neg fresh]
    have enough : unvisited ids (node.task.stamp.id :: walk.visited) ≤ fuel :=
      Nat.le_of_lt_succ enough
    generalize node.task.stamp.derivations = derivations
    generalize node.task.stamp.id :: walk.visited = visited at enough
    generalize walk.children = children
    induction derivations generalizing visited children with
    | nil => exact ⟨.nil, .nil visited, rfl⟩
    | cons derivId derivations along =>
      rw [List.foldl_cons]
      cases found : find derivId with
      | none =>
        obtain ⟨forest, enters, hung⟩ := along visited enough children
        rw [visitParent, found]
        exact ⟨forest, .skip (.inl found) enters, hung⟩
      | some parent =>
        by_cases old : derivId ∈ visited
        · obtain ⟨forest, enters, hung⟩ := along visited enough children
          rw [visitParent, found]
          dsimp only
          rw [if_pos old]
          exact ⟨forest, .skip (.inr old) enters, hung⟩
        · have own := keyed _ _ found
          have less := unvisited_cons_lt (among derivId (by simp [found])) old
          have parentId : parent.task.stamp.id ≠ "" := by
            rintro empty
            rw [own] at empty
            rw [empty, named] at found
            cases found
          obtain ⟨below, entersBelow, hungBelow⟩ := induction parent
            ⟨push DerivationNode.ref children node parent, visited⟩ parentId (own.symm ▸ old)
            (own.symm ▸ less.trans_le enough)
          rw [visitParent, found]
          dsimp only
          rw [if_neg old]
          generalize populateChildren find fuel parent _ = between at entersBelow hungBelow ⊢
          obtain ⟨betweenChildren, betweenVisited⟩ := between
          have keeps {id : String} (isIn : id ∈ visited) : id ∈ betweenVisited :=
            (entersBelow.mem_later keyed).mpr (.inl (List.mem_cons_of_mem _ isIn))
          obtain ⟨after, enters, hung⟩ := along betweenVisited
            ((unvisited_mono fun _ => keeps).trans enough) betweenChildren
          rw [own] at entersBelow
          refine ⟨.cons parent below after, .enter found old entersBelow enters, ?_⟩
          rw [hung, hungBelow, hang]

end Walk

/-! ### The tree -/

section Tree

variable {Content : Type} {trace : ReasoningTrace Content} {task : TracedTask Content}

/-- The ids of the record. -/
def recordedIds (trace : ReasoningTrace Content) : Finset String :=
  (trace.derivationHistory.entries.entries.map Prod.fst).toFinset

theorem mem_recordedIds (consistent : trace.Consistent) {id} (found : trace.find id ≠ none) :
    id ∈ trace.recordedIds := by
  rw [find_eq consistent.lasting] at found
  obtain ⟨entry, has⟩ := Option.ne_none_iff_exists'.mp fun absent =>
    found (Option.map_eq_none_iff.mpr absent)
  have isIn := List.mem_map_of_mem (f := Prod.fst) ((OrderedMap.get_eq_some_iff _ _ _).mp has)
  exact List.mem_toFinset.mpr isIn

theorem unvisited_recordedIds_le (trace : ReasoningTrace Content) (visited : List String) :
    unvisited trace.recordedIds visited ≤ trace.derivationHistory.size :=
  (Finset.card_filter_le _ _).trans
    ((List.toFinset_card_le _).trans_eq (List.length_map _))

theorem walks_buildDerivationTree (consistent : trace.Consistent) (hasId : task.stamp.id ≠ "") :
    ∃ forest later,
      Enters trace.find (fun node => node.task.stamp.derivations) task.stamp.derivations
        [task.stamp.id] forest later ∧
      (trace.buildDerivationTree task).1.children =
        hang DerivationNode.ref trace.children (trace.buildDerivationTree task).2 forest := by
  have walks := walks_populateChildren consistent.keyed consistent.named
    (fun _ => mem_recordedIds consistent) ⟨trace.allocated, task, none⟩ ⟨trace.children, []⟩
    hasId List.not_mem_nil (Nat.lt_succ_of_le (trace.unvisited_recordedIds_le _))
  obtain ⟨forest, enters, hung⟩ := walks
  exact ⟨forest, _, enters, hung⟩

theorem children_buildDerivationTree (hasNoId : task.stamp.id = "") :
    (trace.buildDerivationTree task).1.children = trace.children := by
  show (populateChildren _ _ _ _).children = _
  rw [populateChildren, if_pos hasNoId]

theorem Consistent.buildDerivationTree (consistent : trace.Consistent)
    (task : TracedTask Content) : (trace.buildDerivationTree task).1.Consistent where
  lasting := consistent.lasting
  keyed := consistent.keyed
  named := consistent.named
  allocated id node found := Nat.lt_succ_of_lt (consistent.allocated id node found)
  apart := consistent.apart
  bare ref past := by
    have past : trace.allocated < ref := past
    by_cases hasId : task.stamp.id = ""
    · rw [children_buildDerivationTree hasId]
      exact consistent.bare ref past.le
    · obtain ⟨forest, later, enters, hung⟩ := walks_buildDerivationTree consistent hasId
      have other : ref ≠ (trace.buildDerivationTree task).2.ref := past.ne'
      rw [hung, hang_of_notMem other]
      · exact consistent.bare ref past.le
      · intro isIn
        obtain ⟨node, nodeIn, rfl⟩ := List.mem_map.mp isIn
        exact absurd (consistent.allocated _ _ (enters.found consistent.keyed nodeIn))
          (not_lt.mpr past.le)

theorem consistent_of_calls {maxDerivations calls}
    (run : Run call (new maxDerivations) calls trace)
    (fits : Run.Meets call Fits (new maxDerivations) calls) : trace.Consistent := by
  refine run.keeps_of_meets (fun trace called next consistent fits taken => ?_) fits
    (consistent_new maxDerivations)
  cases called with
  | recordDerivation task rule =>
    cases taken
    exact consistent.recordDerivation fits
  | buildDerivationTree task =>
    cases taken
    exact consistent.buildDerivationTree task
  | explain conclusion =>
    cases taken
    exact consistent

/-- The stored node of an ancestor has no children. -/
def NothingHung (trace : ReasoningTrace Content) (task : TracedTask Content) : Prop :=
  ∀ id node, trace.Ancestor task id → trace.find id = some node → trace.children node.ref = []

theorem mem_nodes_iff_ancestor (consistent : trace.Consistent) {forest later}
    (enters : Enters trace.find (fun node => node.task.stamp.derivations) task.stamp.derivations
      [task.stamp.id] forest later) {node} :
    node ∈ forest.nodes ↔ ∃ id, trace.Ancestor task id ∧ trace.find id = some node := by
  rw [enters.mem_nodes_iff consistent.keyed]
  constructor
  · rintro ⟨id, other, reaches, found⟩
    exact ⟨id, ⟨other, by simp [found], reaches⟩, found⟩
  · rintro ⟨id, ⟨other, _, reaches⟩, found⟩
    exact ⟨id, other, reaches, found⟩

theorem refs_of_walk (consistent : trace.Consistent) {forest later}
    (enters : Enters trace.find (fun node => node.task.stamp.derivations) task.stamp.derivations
      [task.stamp.id] forest later) :
    (forest.nodes.map DerivationNode.ref).Nodup ∧
      trace.allocated ∉ forest.nodes.map DerivationNode.ref := by
  have found {node : DerivationNode Content} (isIn : node ∈ forest.nodes) :=
    enters.found consistent.keyed isIn
  have nodup : forest.nodes.Nodup := (enters.nodup consistent.keyed).1.of_map _
  refine ⟨nodup.map_on fun one oneIn two twoIn same => ?_, fun isIn => ?_⟩
  · exact consistent.apart _ _ one two (found oneIn) (found twoIn) same
  · obtain ⟨node, nodeIn, same⟩ := List.mem_map.mp isIn
    exact absurd same (consistent.allocated _ _ (found nodeIn)).ne

theorem children_allocated (consistent : trace.Consistent) :
    trace.children (trace.buildDerivationTree task).2.ref = [] :=
  consistent.bare trace.allocated le_rfl

theorem buildsAncestors_iff_of_id (consistent : trace.Consistent) (hasId : task.stamp.id ≠ "") :
    trace.BuildsAncestors task ↔ trace.NothingHung task := by
  obtain ⟨forest, later, enters, hung⟩ := walks_buildDerivationTree consistent hasId
  obtain ⟨refs, fresh⟩ := refs_of_walk consistent enters
  have freshRoot : (trace.buildDerivationTree task).2.ref ∉ forest.nodes.map DerivationNode.ref :=
    fresh
  have hungThere : hang DerivationNode.ref trace.children (trace.buildDerivationTree task).2 forest
      (trace.buildDerivationTree task).2.ref =
        trace.children (trace.buildDerivationTree task).2.ref ++ forest.roots ∧ _ :=
    hangs_hang _ _ refs freshRoot
  rw [← hung] at hungThere
  obtain ⟨rootHas, hangs⟩ := hungThere
  have rootBare : trace.children (trace.buildDerivationTree task).2.ref = [] :=
    children_allocated consistent
  have wholeHangs : Hangs DerivationNode.ref trace.children
      (trace.buildDerivationTree task).1.children
      (.cons (trace.buildDerivationTree task).2 forest .nil) := ⟨rootHas, hangs, trivial⟩
  have isAncestor {node : DerivationNode Content} : node ∈ forest.nodes ↔ _ :=
    mem_nodes_iff_ancestor consistent enters
  constructor
  · rintro ⟨fuel, tree, read, nodup, mem⟩ id node ancestor found
    obtain ⟨whole, grown, rfl⟩ := Option.map_eq_some_iff.mp read
    have longer := wholeHangs.length_le grown
    have shorter : whole.nodes.length ≤ forest.nodes.length + 1 := by
      have within : whole.nodes ⊆ (trace.buildDerivationTree task).2 :: forest.nodes :=
        fun other isIn => List.mem_cons.mpr (((mem other).mp isIn).imp_right isAncestor.mpr)
      exact (nodup.subperm within).length_le
    have none : (forest.nodes.map fun node => (trace.children node.ref).length).sum = 0 := by
      rw [Forest.nodes, Forest.nodes, List.append_nil, List.map_cons, List.sum_cons,
        List.length_cons] at longer
      omega
    have isIn : node ∈ forest.nodes := isAncestor.mpr ⟨id, ancestor, found⟩
    exact List.length_eq_zero_iff.mp (List.sum_eq_zero_iff_forall_eq_nat.mp none _
      (List.mem_map_of_mem isIn))
  · intro nothing
    have bare : ∀ node ∈ (Forest.cons (trace.buildDerivationTree task).2 forest .nil).nodes,
        trace.children node.ref = [] := by
      rw [Forest.nodes, Forest.nodes, List.append_nil, List.forall_mem_cons]
      refine ⟨rootBare, fun node isIn => ?_⟩
      obtain ⟨id, ancestor, found⟩ := isAncestor.mp isIn
      exact nothing id node ancestor found
    have grown := wholeHangs.grow_eq bare le_rfl
    refine ⟨_, _, congrArg (Option.map _) grown, ?_, fun node => ?_⟩
    · rw [Forest.nodes, Forest.nodes, List.append_nil, List.nodup_cons]
      exact ⟨fun isIn => fresh (List.mem_map_of_mem isIn), refs.of_map _⟩
    · rw [Forest.nodes, Forest.nodes, List.append_nil, List.mem_cons, isAncestor]

theorem buildsAncestors_iff_of_noId (consistent : trace.Consistent) (noId : task.stamp.id = "") :
    trace.BuildsAncestors task ↔ ∀ id, ¬ trace.Ancestor task id := by
  have rootBare : (trace.buildDerivationTree task).1.children
      (trace.buildDerivationTree task).2.ref = [] := by
    rw [children_buildDerivationTree noId]
    exact children_allocated consistent
  have grown (fuel : ℕ) : grow DerivationNode.ref (trace.buildDerivationTree task).1.children
      (fuel + 1) [(trace.buildDerivationTree task).2] =
        some (.cons (trace.buildDerivationTree task).2 .nil .nil) := by
    rw [grow, rootBare]
    cases fuel <;> rfl
  constructor
  · rintro ⟨fuel, tree, read, _, mem⟩ id ancestor
    cases fuel with
    | zero => cases read
    | succ fuel =>
      rw [readTree, grown] at read
      cases read
      obtain ⟨node, found⟩ := Option.ne_none_iff_exists'.mp ancestor.2.1
      obtain rfl : node = _ := List.mem_singleton.mp ((mem node).mpr (.inr ⟨id, ancestor, found⟩))
      exact absurd (consistent.allocated _ _ found) (lt_irrefl _)
  · intro none
    refine ⟨1, _, congrArg (Option.map _) (grown 0), List.nodup_singleton _, fun node => ?_⟩
    refine List.mem_singleton.trans (or_iff_left ?_).symm
    rintro ⟨id, ancestor, _⟩
    exact none id ancestor

theorem premises_explain : (trace.explain task).premises = [] := by
  rw [explain, getDerivationHistory, collectDerivationHistory]
  split_ifs <;> simp

theorem mem_rules_explain (consistent : trace.Consistent) {rule} :
    rule ∈ (trace.explain task).rules ↔
      rule ≠ "" ∧ ∃ node, trace.find task.stamp.id = some node ∧ node.rule = some rule := by
  rw [explain, mem_uniqueBy_id, getDerivationHistory, collectDerivationHistory]
  by_cases noId : task.stamp.id = ""
  · rw [noId, consistent.named]
    simp
  · rw [if_neg noId, List.mem_filterMap]
    constructor
    · rintro ⟨other, isIn, has⟩
      obtain rfl := List.mem_singleton.mp isIn
      obtain ⟨has, isRule⟩ := Option.filter_eq_some_iff.mp has
      obtain ⟨node, found, has⟩ := Option.bind_eq_some_iff.mp has
      exact ⟨of_decide_eq_true isRule, node, found, has⟩
    · rintro ⟨isRule, node, found, has⟩
      refine ⟨task, List.mem_singleton_self task, Option.filter_eq_some_iff.mpr ⟨?_, ?_⟩⟩
      · rw [found]
        exact has
      · exact decide_eq_true isRule

theorem explainsAncestors_iff (consistent : trace.Consistent) :
    trace.ExplainsAncestors task ↔ ∀ id, ¬ trace.Ancestor task id := by
  constructor
  · rintro ⟨premises, _⟩ id ancestor
    obtain ⟨node, found⟩ := Option.ne_none_iff_exists'.mp ancestor.2.1
    have isPremise := (premises node.task).mpr ⟨id, node, ancestor, found, rfl⟩
    rw [premises_explain] at isPremise
    cases isPremise
  · intro none
    refine ⟨fun premise => ?_, fun rule => ?_⟩
    · rw [premises_explain]
      refine ⟨nofun, ?_⟩
      rintro ⟨id, _, ancestor, _⟩
      exact absurd ancestor (none id)
    · rw [mem_rules_explain consistent]
      constructor
      · rintro ⟨isRule, node, found, has⟩
        exact ⟨isRule, _, node, .inl rfl, found, has⟩
      · rintro ⟨isRule, id, node, own, found, has⟩
        obtain rfl := own.resolve_right (none id)
        exact ⟨isRule, node, found, has⟩

/-- Below its capacity, a trace builds the tree of a task's recorded ancestors exactly where nothing
was hung on their nodes before, and the task has an id if it has ancestors; and it explains the task
by its ancestors exactly where there are none. -/
theorem trace_reports_iff {maxDerivations : ℕ} {calls : List (Call Content)}
    (run : Run call (new maxDerivations) calls trace)
    (fits : Run.Meets call Fits (new maxDerivations) calls) (task : TracedTask Content) :
    (trace.BuildsAncestors task ↔
      trace.NothingHung task ∧ (task.stamp.id = "" → ∀ id, ¬ trace.Ancestor task id)) ∧
      (trace.ExplainsAncestors task ↔ ∀ id, ¬ trace.Ancestor task id) := by
  have consistent := consistent_of_calls run fits
  refine ⟨?_, explainsAncestors_iff consistent⟩
  by_cases noId : task.stamp.id = ""
  · rw [buildsAncestors_iff_of_noId consistent noId]
    refine ⟨fun none => ⟨fun id _ ancestor => absurd ancestor (none id), fun _ => none⟩, ?_⟩
    exact fun both => both.2 noId
  · rw [buildsAncestors_iff_of_id consistent noId]
    exact ⟨fun nothing => ⟨nothing, fun isEmpty => absurd isEmpty noId⟩, And.left⟩

end Tree

/-- A task with a parent that was not recorded. -/
theorem trace_reports_iff_unrecorded :
    (recordDerivation (new 1000) ⟨(), ⟨"0:1", ["0:0"]⟩⟩ (some "deduction")).BuildsAncestors
      ⟨(), ⟨"0:1", ["0:0"]⟩⟩ := by
  have fits : Fits (new 1000) (.recordDerivation ⟨(), ⟨"0:1", ["0:0"]⟩⟩ (some "deduction")) :=
    ⟨by decide, .inl (by decide)⟩
  refine (trace_reports_iff (.cons rfl (.nil _)) (.cons fits rfl (.nil _)) _).1.mpr
    ⟨fun _ _ _ _ => rfl, fun noId => absurd noId (by decide)⟩

/-- A second tree has a grandparent twice, and no explanation has premises. -/
theorem second_tree_repeats :
    ∃ trace : ReasoningTrace Unit,
      Run call (new 1000) [.recordDerivation ⟨(), ⟨"0:0", []⟩⟩ none,
        .recordDerivation ⟨(), ⟨"0:1", ["0:0"]⟩⟩ (some "deduction"),
        .buildDerivationTree ⟨(), ⟨"0:2", ["0:1"]⟩⟩] trace ∧
      Run.Meets call Fits (new 1000) [.recordDerivation ⟨(), ⟨"0:0", []⟩⟩ none,
        .recordDerivation ⟨(), ⟨"0:1", ["0:0"]⟩⟩ (some "deduction"),
        .buildDerivationTree ⟨(), ⟨"0:2", ["0:1"]⟩⟩] ∧
      ¬ trace.BuildsAncestors ⟨(), ⟨"0:3", ["0:1"]⟩⟩ ∧
      ¬ trace.ExplainsAncestors ⟨(), ⟨"0:3", ["0:1"]⟩⟩ := by
  have fits : Run.Meets call Fits (new 1000 : ReasoningTrace Unit)
      [.recordDerivation ⟨(), ⟨"0:0", []⟩⟩ none,
        .recordDerivation ⟨(), ⟨"0:1", ["0:0"]⟩⟩ (some "deduction"),
        .buildDerivationTree ⟨(), ⟨"0:2", ["0:1"]⟩⟩] :=
    .cons ⟨by decide, .inl (by decide)⟩ rfl (.cons ⟨by decide, .inl (by decide)⟩ rfl
      (.cons trivial rfl (.nil _)))
  have run := run_of_execute (rfl : execute call (new 1000 : ReasoningTrace Unit)
    [.recordDerivation ⟨(), ⟨"0:0", []⟩⟩ none,
      .recordDerivation ⟨(), ⟨"0:1", ["0:0"]⟩⟩ (some "deduction"),
      .buildDerivationTree ⟨(), ⟨"0:2", ["0:1"]⟩⟩] = some _)
  have consistent := consistent_of_calls run fits
  refine ⟨_, run, fits, fun builds => ?_, fun explains => ?_⟩
  · have nothing := (buildsAncestors_iff_of_id consistent (by decide)).mp builds
    have bare := nothing "0:1" _ ⟨by decide, by decide, .here List.mem_cons_self⟩ rfl
    exact absurd bare (by decide)
  · exact (explainsAncestors_iff consistent).mp explains "0:1"
      ⟨by decide, by decide, .here List.mem_cons_self⟩

end ReasoningTrace

end Senars.Query
