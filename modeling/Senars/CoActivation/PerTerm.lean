/-
This file is what the co-activations of a term depend on. The edges of a term are at the node
that its argument keys lead to, and an activation changes the bag of the one node its own keys
lead to; the nodes made on the way have empty bags. So while no node is refused, the answer for
a term is told by the activations of all terms with its argument keys, and it is told by its
own ones alone exactly where no other activated term has these keys. All atoms have the same:
none.
-/

import Senars.CoActivation.ConceptGraph
import Mathlib.Data.Set.Basic

namespace Senars.CoActivation

open Library Containers Terms

/-- The keys that lead to the node of a term. -/
def argumentKeys (term : Term) : List String := (getArgs term).map termKey

namespace ConceptNode

variable {options : ConceptGraphOptions} {node : ConceptNode}

/-! ### The bag at the end of a path -/

/-- The edges at the end of a path, which are none where there is no node. -/
def bagAt (options : ConceptGraphOptions) (node : ConceptNode) (path : List Term) : EdgeBag :=
  ((node.nodeAt path).map (·.coActivations)).getD (createEdgeBag options)

theorem nodeAt_setChild (node child : ConceptNode) (key : String) (arg : Term) (rest : List Term) :
    (node.setChild key child).nodeAt (arg :: rest) =
      if termKey arg = key then child.nodeAt rest else node.nodeAt (arg :: rest) := by
  rw [nodeAt]
  unfold setChild
  rw [OrderedMap.getEntry_setEntry]
  split <;> rfl

variable {path : List Term}

theorem nodeAt_congr {other} (sameKeys : path.map termKey = other.map termKey) :
    node.nodeAt path = node.nodeAt other := by
  induction path generalizing node other with
  | nil => rw [List.map_eq_nil_iff.mp sameKeys.symm]
  | cons arg rest ih =>
    obtain ⟨otherArg, otherRest, rfl, sameArg, sameRest⟩ := List.map_eq_cons_iff.mp sameKeys.symm
    rw [nodeAt, nodeAt, sameArg]
    exact congrArg _ (funext fun child => ih sameRest.symm)

theorem bagAt_setChild (node child : ConceptNode) (key : String) (arg : Term) (rest : List Term) :
    (node.setChild key child).bagAt options (arg :: rest) =
      if termKey arg = key then child.bagAt options rest else node.bagAt options (arg :: rest) := by
  unfold bagAt
  rw [nodeAt_setChild]
  split <;> rfl

theorem bagAt_cons_of_present {arg child}
    (present : OrderedMap.getEntry (termKey arg) node.children = some child) (rest : List Term) :
    node.bagAt options (arg :: rest) = child.bagAt options rest := by
  unfold bagAt
  rw [nodeAt, present]
  rfl

theorem bagAt_cons_of_absent {arg}
    (absent : OrderedMap.getEntry (termKey arg) node.children = none) (rest : List Term) :
    node.bagAt options (arg :: rest) = createEdgeBag options := by
  unfold bagAt
  rw [nodeAt, absent]
  rfl

theorem bagAt_createNode (now : JsNumber) (term : Term) (path : List Term) :
    (createNode options now term).bagAt options path = createEdgeBag options := by
  cases path with
  | nil => rfl
  | cons arg rest => exact bagAt_cons_of_absent rfl rest

theorem bagAt_createPath (options : ConceptGraphOptions) (now : JsNumber) (node : ConceptNode)
    (nodeCount : ℕ) (made path : List Term) :
    (createPath options now node nodeCount made).1.bagAt options path =
      node.bagAt options path := by
  induction made generalizing node nodeCount path with
  | nil => rfl
  | cons arg rest ih =>
    unfold createPath
    split
    · rename_i child present
      cases path with
      | nil => rfl
      | cons other others =>
        rw [bagAt_setChild]
        split
        · next same => rw [ih, bagAt_cons_of_present (same ▸ present)]
        · rfl
    · rename_i absent
      split
      · rfl
      · cases path with
        | nil => rfl
        | cons other others =>
          rw [bagAt_setChild]
          split
          · next same =>
            rw [ih, bagAt_createNode, bagAt_cons_of_absent (same ▸ absent)]
          · rfl

theorem nodeAt_createPath {now nodeCount}
    (reached : (createPath options now node nodeCount path).2.2 = true) :
    ∃ last, (createPath options now node nodeCount path).1.nodeAt path = some last := by
  induction path generalizing node nodeCount with
  | nil => exact ⟨node, rfl⟩
  | cons arg rest ih =>
    unfold createPath at reached ⊢
    split at reached
    · dsimp only at reached ⊢
      rw [nodeAt_setChild, if_pos rfl]
      exact ih reached
    · split at reached
      · cases reached
      · rename_i room
        rw [if_neg room]
        rw [nodeAt_setChild, if_pos rfl]
        exact ih reached

theorem full_of_not_reached {now nodeCount}
    (refused : (createPath options now node nodeCount path).2.2 = false) :
    options.maxNodes ≤ (createPath options now node nodeCount path).2.1 := by
  induction path generalizing node nodeCount with
  | nil => cases refused
  | cons arg rest ih =>
    unfold createPath at refused ⊢
    split at refused
    · exact ih refused
    · split at refused
      · rename_i full
        rw [if_pos full]
        exact full
      · rename_i room
        rw [if_neg room]
        exact ih refused

theorem nodeCount_createPath_le (options : ConceptGraphOptions) (now : JsNumber)
    (node : ConceptNode) (nodeCount : ℕ) (path : List Term) :
    nodeCount ≤ (createPath options now node nodeCount path).2.1 ∧
      (createPath options now node nodeCount path).2.1 ≤ nodeCount + path.length := by
  induction path generalizing node nodeCount with
  | nil => exact ⟨le_refl _, le_refl _⟩
  | cons arg rest ih =>
    unfold createPath
    split
    · rename_i child _
      obtain ⟨grows, bounded⟩ := ih child nodeCount
      exact ⟨grows, bounded.trans (Nat.add_le_add_left (Nat.le_succ _) _)⟩
    · split
      · exact ⟨le_refl _, Nat.le_add_right _ _⟩
      · obtain ⟨grows, bounded⟩ :=
          ih (createNode options now arg) (nodeCount + 1)
        refine ⟨(Nat.le_succ _).trans grows, bounded.trans ?_⟩
        rw [List.length_cons, Nat.add_right_comm, Nat.add_assoc]

theorem bagAt_replaceAt {old replacement replaced} (found : node.nodeAt replaced = some old)
    (sameChildren : replacement.children = old.children) (path : List Term) :
    (replaceAt replacement node replaced).bagAt options path =
      if path.map termKey = replaced.map termKey then replacement.coActivations
      else node.bagAt options path := by
  induction replaced generalizing node path with
  | nil =>
    cases found
    cases path with
    | nil => rfl
    | cons arg rest =>
      show replacement.bagAt options (arg :: rest) = _
      rw [if_neg (by simp)]
      unfold bagAt nodeAt
      rw [sameChildren]
  | cons arg rest ih =>
    obtain ⟨child, present, below⟩ := Option.bind_eq_some_iff.mp found
    rw [replaceAt, present]
    cases path with
    | nil => rfl
    | cons other others =>
      rw [bagAt_setChild]
      by_cases same : termKey other = termKey arg
      · rw [ih below, bagAt_cons_of_present (same ▸ present)]
        simp [same]
      · rw [if_neg same]
        simp [same]

end ConceptNode

/-! ### Sequences of activations -/

/-- A call of `activate`, with what the clock answers. -/
structure Activation where
  now : JsNumber
  term : Term
  coActiveWith : Option Term

/-- What a call does to the bag of edges it reaches. -/
def Activation.record (edges : EdgeBag) (call : Activation) : EdgeBag :=
  match call.coActiveWith with
  | none => edges
  | some other => (recordCoActivation call.now other edges).1

theorem coActivate_eq (call : Activation) (node : ConceptNode) :
    (node.coActivate call.now call.coActiveWith).1 =
      Activation.record node.coActivations call := by
  obtain ⟨now, term, coActiveWith⟩ := call
  cases coActiveWith <;> rfl

namespace ConceptGraph

variable {options : ConceptGraphOptions} {graph : ConceptGraph}

def activateAll (graph : ConceptGraph) (calls : List Activation) : ConceptGraph :=
  calls.foldl (fun graph call => graph.activate call.now call.term call.coActiveWith) graph

/-- The edges at the node of a term. -/
def bag (graph : ConceptGraph) (term : Term) : EdgeBag :=
  graph.root.bagAt graph.options (getArgs term)

/-- The graph has not reached its node limit. -/
def HasRoom (graph : ConceptGraph) : Prop := graph.nodeCount < graph.options.maxNodes

/-- The trie with the path of a call, as far as there is room for it. -/
def pathOf (graph : ConceptGraph) (call : Activation) : ConceptNode × ℕ × Bool :=
  graph.root.createPath graph.options call.now graph.nodeCount (getArgs call.term)

theorem activate_of_refused {call} (refused : (graph.pathOf call).2.2 = false) :
    graph.activate call.now call.term call.coActiveWith =
      { graph with root := (graph.pathOf call).1, nodeCount := (graph.pathOf call).2.1 } := by
  unfold activate
  unfold pathOf at refused
  dsimp only
  rw [refused]
  rfl

theorem activate_of_reached {call node} (reached : (graph.pathOf call).2.2 = true)
    (found : (graph.pathOf call).1.nodeAt (getArgs call.term) = some node) :
    graph.activate call.now call.term call.coActiveWith =
      { graph with
        root := ConceptNode.replaceAt
          (node.activated call.now (node.coActivate call.now call.coActiveWith).1)
          (graph.pathOf call).1 (getArgs call.term)
        nodeCount := (graph.pathOf call).2.1
        edgeCount := graph.edgeCount + (node.coActivate call.now call.coActiveWith).2 } := by
  unfold activate
  unfold pathOf at reached found
  dsimp only
  rw [reached, found]
  rfl

theorem activate_counts (graph : ConceptGraph) (call : Activation) :
    (graph.activate call.now call.term call.coActiveWith).options = graph.options ∧
      (graph.activate call.now call.term call.coActiveWith).nodeCount =
        (graph.pathOf call).2.1 := by
  cases reached : (graph.pathOf call).2.2 with
  | false =>
    rw [activate_of_refused reached]
    exact ⟨rfl, rfl⟩
  | true =>
    obtain ⟨node, found⟩ := ConceptNode.nodeAt_createPath reached
    rw [activate_of_reached reached found]
    exact ⟨rfl, rfl⟩

theorem bag_activate {call} (room : (graph.activate call.now call.term call.coActiveWith).HasRoom)
    (term : Term) :
    (graph.activate call.now call.term call.coActiveWith).bag term =
      if argumentKeys term = argumentKeys call.term then Activation.record (graph.bag term) call
      else graph.bag term := by
  obtain ⟨sameOptions, counted⟩ := graph.activate_counts call
  have reached : (graph.pathOf call).2.2 = true := by
    by_contra refused
    have full := ConceptNode.full_of_not_reached (Bool.eq_false_iff.mpr refused)
    unfold HasRoom at room
    rw [sameOptions, counted] at room
    exact absurd room (Nat.not_lt.mpr full)
  obtain ⟨node, found⟩ := ConceptNode.nodeAt_createPath reached
  have found : (graph.pathOf call).1.nodeAt (getArgs call.term) = some node := found
  have sameBag : ∀ path, (graph.pathOf call).1.bagAt graph.options path =
      graph.root.bagAt graph.options path :=
    ConceptNode.bagAt_createPath graph.options call.now graph.root graph.nodeCount
      (getArgs call.term)
  have here : node.coActivations = graph.root.bagAt graph.options (getArgs call.term) := by
    rw [← sameBag]
    unfold ConceptNode.bagAt
    rw [found]
    rfl
  have sameChildren : (node.activated call.now
      (node.coActivate call.now call.coActiveWith).1).children = node.children := rfl
  rw [activate_of_reached reached found]
  unfold bag argumentKeys
  rw [ConceptNode.bagAt_replaceAt found sameChildren, sameBag]
  split
  · next sameKeys =>
    show (node.coActivate call.now call.coActiveWith).1 = _
    rw [coActivate_eq, here]
    unfold ConceptNode.bagAt
    rw [ConceptNode.nodeAt_congr sameKeys]
  · rfl

/-! ### What an answer depends on -/

/-- The calls whose term has the argument keys of a term. -/
def sharing (term : Term) (calls : List Activation) : List Activation :=
  calls.filter fun call => argumentKeys term = argumentKeys call.term

/-- The calls that activate a term. -/
def activationsOf (term : Term) (calls : List Activation) : List Activation :=
  calls.filter fun call => call.term = term

variable {calls : List Activation} {term : Term}

theorem room_of_activateAll (room : (graph.activateAll calls).HasRoom) : graph.HasRoom := by
  induction calls generalizing graph with
  | nil => exact room
  | cons call rest ih =>
    have next : (graph.activate call.now call.term call.coActiveWith).HasRoom :=
      ih room
    obtain ⟨sameOptions, counted⟩ := graph.activate_counts call
    obtain ⟨grows, _⟩ := ConceptNode.nodeCount_createPath_le graph.options call.now graph.root
      graph.nodeCount (getArgs call.term)
    unfold HasRoom at next ⊢
    rw [sameOptions, counted] at next
    exact grows.trans_lt next

theorem options_activateAll (graph : ConceptGraph) (calls : List Activation) :
    (graph.activateAll calls).options = graph.options := by
  induction calls generalizing graph with
  | nil => rfl
  | cons call rest ih =>
    exact (ih _).trans (graph.activate_counts call).1

theorem bag_activateAll (room : (graph.activateAll calls).HasRoom) (term : Term) :
    (graph.activateAll calls).bag term =
      (sharing term calls).foldl Activation.record (graph.bag term) := by
  induction calls generalizing graph with
  | nil => rfl
  | cons call rest ih =>
    have next : (graph.activate call.now call.term call.coActiveWith).HasRoom :=
      room_of_activateAll room
    have later : (graph.activateAll (call :: rest)).bag term = _ := ih room
    rw [later, bag_activate next]
    unfold sharing
    by_cases same : argumentKeys term = argumentKeys call.term
    · rw [if_pos same, List.filter_cons_of_pos (by simpa using same), List.foldl_cons]
    · rw [if_neg same, List.filter_cons_of_neg (by simpa using same)]

theorem bag_new (options : ConceptGraphOptions) (start : JsNumber) (term : Term) :
    (new options start).bag term = createEdgeBag options :=
  ConceptNode.bagAt_createNode start _ _

theorem getCoActivations_eq (graph : ConceptGraph) (term : Term) (limit : ℕ) :
    graph.getCoActivations term limit =
      selectTopN (graph.bag term).values limit (fun edge => edge.weight) fun edge =>
        JsNumber.lessEq graph.options.minEdgeWeight edge.weight := by
  unfold getCoActivations bag ConceptNode.bagAt
  split
  · rename_i absent
    rw [absent]
    unfold selectTopN
    split <;> rfl
  · rename_i node found
    rw [found]
    rfl

theorem getCoActivations_new (options : ConceptGraphOptions) (start : JsNumber) (term : Term)
    (limit : ℕ) : (new options start).getCoActivations term limit = [] := by
  rw [getCoActivations_eq, bag_new]
  unfold selectTopN
  split <;> rfl

theorem getCoActivations_congr {options start first second}
    (firstRoom : ((new options start).activateAll first).HasRoom)
    (secondRoom : ((new options start).activateAll second).HasRoom)
    (alike : sharing term first = sharing term second) (limit : ℕ) :
    ((new options start).activateAll first).getCoActivations term limit =
      ((new options start).activateAll second).getCoActivations term limit := by
  rw [getCoActivations_eq, getCoActivations_eq, options_activateAll, options_activateAll,
    bag_activateAll firstRoom, bag_activateAll secondRoom, alike]

theorem sharing_eq_activationsOf
    (apart : ∀ call ∈ calls, call.term = term ∨ argumentKeys call.term ≠ argumentKeys term) :
    sharing term calls = activationsOf term calls := by
  refine List.filter_congr fun call inside => decide_eq_decide.mpr ?_
  constructor
  · intro sameKeys
    exact (apart call inside).resolve_right fun differ => differ sameKeys.symm
  · rintro rfl
    rfl

theorem values_record_createEdgeBag (options : ConceptGraphOptions) (now : JsNumber)
    (term other : Term) :
    (Activation.record (createEdgeBag options) ⟨now, term, some other⟩).values =
      [⟨other, 1, 1, now⟩] := by
  have nothing : (createEdgeBag options).get now (termKey other) = (createEdgeBag options, none) :=
    rfl
  have room : ¬ (createEdgeBag options).maxSize ≤ (createEdgeBag options).size :=
    Nat.not_le.mpr (Nat.lt_of_lt_of_le Nat.one_pos (Nat.le_max_left 1 _))
  have made : (createEdgeBag options).makeRoom 0 (termKey other) = createEdgeBag options := by
    unfold BoundedMap.makeRoom
    rw [if_neg (by exact Bool.false_ne_true), if_neg room]
  show (recordCoActivation now other (createEdgeBag options)).1.values = _
  unfold recordCoActivation
  rw [nothing]
  dsimp only
  unfold BoundedMap.set
  rw [made]
  rfl

theorem getCoActivations_of_sharing {other} (sameKeys : argumentKeys term = argumentKeys other)
    (coActiveWith : Term) {limit} (asked : 0 < limit) :
    let options : ConceptGraphOptions := { maxNodes := (getArgs other).length + 2 }
    let graph := (new options 0).activateAll [⟨0, other, some coActiveWith⟩]
    graph.HasRoom ∧ graph.getCoActivations term limit = [⟨coActiveWith, 1, 1, 0⟩] := by
  intro options graph
  have room : graph.HasRoom := by
    obtain ⟨sameOptions, counted⟩ := (new options 0).activate_counts ⟨0, other, some coActiveWith⟩
    obtain ⟨_, bounded⟩ := ConceptNode.nodeCount_createPath_le options 0 (new options 0).root 1
      (getArgs other)
    show (activate _ _ _ _).nodeCount < (activate _ _ _ _).options.maxNodes
    rw [sameOptions, counted]
    show _ < (getArgs other).length + 2
    refine Nat.lt_of_le_of_lt bounded ?_
    omega
  have strong : JsNumber.lessEq graph.options.minEdgeWeight (.finite 1) = true := by
    have same : graph.options = options := options_activateAll _ _
    have low : JsNumber.less (.finite 1) (.finite (1 / 100)) = false := by norm_num
    rw [same]
    rw [JsNumber.lessEq_iff]
    exact ⟨by simp, by simp, low⟩
  refine ⟨room, ?_⟩
  rw [getCoActivations_eq, bag_activateAll room]
  have shared : sharing term [⟨0, other, some coActiveWith⟩] = [⟨0, other, some coActiveWith⟩] := by
    simp [sharing, sameKeys]
  rw [shared, List.foldl_cons, List.foldl_nil, bag_new, values_record_createEdgeBag]
  unfold selectTopN
  rw [if_neg (Nat.pos_iff_ne_zero.mp asked)]
  simp [selectBest, insertBest, strong, Nat.ne_of_lt asked]

/-- The answer for a term is told by its own activations, whatever sequences of activations of it
and of some other terms come to a graph that does not reach its node limit, exactly where none of
the others has its argument keys. -/
theorem coActivations_per_term_iff (term : Term) (others : Set Term) :
    (∀ options start limit first second,
      (∀ call ∈ first ++ second, call.term = term ∨ call.term ∈ others) →
      ((new options start).activateAll first).HasRoom →
      ((new options start).activateAll second).HasRoom →
      activationsOf term first = activationsOf term second →
        ((new options start).activateAll first).getCoActivations term limit =
          ((new options start).activateAll second).getCoActivations term limit) ↔
      ∀ other ∈ others, other ≠ term → argumentKeys other ≠ argumentKeys term := by
  constructor
  · intro perTerm other isOther different sameKeys
    obtain ⟨room, answer⟩ := getCoActivations_of_sharing sameKeys.symm term Nat.one_pos
    have same := perTerm { maxNodes := (getArgs other).length + 2 } 0 1
      [⟨0, other, some term⟩] [] (by simpa using .inr isOther) room
      (Nat.lt_add_left _ Nat.one_lt_two) (by simp [activationsOf, different])
    cases answer.symm.trans (same.trans (getCoActivations_new _ _ _ _))
  · intro apart options start limit first second among firstRoom secondRoom alike
    have apartFrom : ∀ call ∈ first ++ second,
        call.term = term ∨ argumentKeys call.term ≠ argumentKeys term := by
      intro call inside
      by_cases same : call.term = term
      · exact .inl same
      · exact .inr (apart _ ((among call inside).resolve_left same) same)
    refine getCoActivations_congr firstRoom secondRoom ?_ limit
    rw [sharing_eq_activationsOf fun call inside => apartFrom call (List.mem_append_left _ inside),
      sharing_eq_activationsOf fun call inside => apartFrom call (List.mem_append_right _ inside),
      alike]

/-- An atom is answered with what another atom was activated with. -/
theorem atoms_share_edges :
    let graph := new { maxNodes := 2 } 0
    let call : Activation := ⟨0, .atom "a", some (.atom "c")⟩
    activationsOf (.atom "b") [call] = activationsOf (.atom "b") [] ∧
      (graph.activateAll [call]).HasRoom ∧ (graph.activateAll []).HasRoom ∧
      (graph.activateAll [call]).getCoActivations (.atom "b") 10 ≠
        (graph.activateAll []).getCoActivations (.atom "b") 10 := by
  have keys : argumentKeys (.atom "b") = argumentKeys (.atom "a") := rfl
  obtain ⟨room, answer⟩ := getCoActivations_of_sharing keys (.atom "c") (Nat.zero_lt_succ 9)
  have nothing := getCoActivations_new { maxNodes := 2 } 0 (.atom "b") 10
  refine ⟨rfl, room, Nat.one_lt_two, fun same => ?_⟩
  cases answer.symm.trans (same.trans nothing)

end ConceptGraph

end Senars.CoActivation
