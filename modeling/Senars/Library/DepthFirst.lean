/-
This file is about depth-first walks over nodes that list the keys of others: what a
walk enters, as a forest, and how children that are hung on the nodes while they are
entered read afterwards.

A walk enters every node that can be reached and was not visited, and none of them twice.
A forest read from nodes that had children before is longer than the walk's forest by
those children at least.
-/

import Mathlib.Algebra.GroupWithZero.Nat
import Mathlib.Algebra.Order.Group.Nat
import Mathlib.Data.List.Perm.Subperm
import Mathlib.Logic.Function.Basic

namespace Senars.Library.DepthFirst

variable {Node Key : Type}

/-! ### Forests -/

/-- Trees in a row: the root of the first with the trees below it, and the trees after it. -/
inductive Forest (Node : Type) where
  | nil
  | cons (node : Node) (below after : Forest Node)
  deriving DecidableEq

namespace Forest

/-- The nodes, each before those below it. -/
def nodes : Forest Node → List Node
  | .nil => []
  | .cons node below after => node :: (below.nodes ++ after.nodes)

def roots : Forest Node → List Node
  | .nil => []
  | .cons node _ after => node :: after.roots

/-- How many nodes are on the longest way down. -/
def depth : Forest Node → ℕ
  | .nil => 0
  | .cons _ below after => max (1 + below.depth) after.depth

def append : Forest Node → Forest Node → Forest Node
  | .nil, other => other
  | .cons node below after, other => .cons node below (after.append other)

theorem nodes_append (first second : Forest Node) :
    (first.append second).nodes = first.nodes ++ second.nodes := by
  induction first with
  | nil => rfl
  | cons node below after _ inductionAfter =>
    rw [append, nodes, inductionAfter, nodes, List.cons_append, List.append_assoc]

theorem length_roots_le (forest : Forest Node) : forest.roots.length ≤ forest.nodes.length := by
  induction forest with
  | nil => exact le_rfl
  | cons root below after _ inductionAfter =>
    rw [roots, nodes, List.length_cons, List.length_cons, List.length_append]
    omega

end Forest

/-! ### Walks -/

section Walks

variable (find : Key → Option Node) (listed : Node → List Key)

/-- A walk along some keys, from the keys visited before to those visited after, enters the nodes
of a forest. -/
inductive Enters : List Key → List Key → Forest Node → List Key → Prop
  | nil (visited : List Key) : Enters [] visited .nil visited
  | skip {key : Key} {keys visited later : List Key} {forest : Forest Node}
      (passes : find key = none ∨ key ∈ visited) (rest : Enters keys visited forest later) :
      Enters (key :: keys) visited forest later
  | enter {key : Key} {keys visited between later : List Key} {node : Node}
      {below after : Forest Node} (found : find key = some node) (fresh : key ∉ visited)
      (down : Enters (listed node) (key :: visited) below between)
      (rest : Enters keys between after later) :
      Enters (key :: keys) visited (.cons node below after) later

/-- A key that can be reached from the keys that a start lists: it is one of them, or listed by a
node that can be reached and is not at the start. -/
inductive Reaches (start : Key) (keys : List Key) : Key → Prop
  | here {key : Key} (isIn : key ∈ keys) : Reaches start keys key
  | further {via key : Key} {node : Node} (before : Reaches start keys via) (passes : via ≠ start)
      (found : find via = some node) (isIn : key ∈ listed node) : Reaches start keys key

variable {find listed} {keyOf : Node → Key} {start : Key} {keys visited later : List Key}
  {forest : Forest Node}

variable {key : Key}

section

variable (keyed : ∀ key node, find key = some node → keyOf node = key)
  (enters : Enters find listed keys visited forest later)

include keyed enters

theorem Enters.mem_later : key ∈ later ↔ key ∈ visited ∨ key ∈ forest.nodes.map keyOf := by
  induction enters with
  | nil => simp [Forest.nodes]
  | skip _ _ inductionRest => exact inductionRest
  | enter found fresh _ _ inductionDown inductionRest =>
    rw [inductionRest, inductionDown, Forest.nodes, List.map_cons, List.map_append, List.mem_cons,
      List.mem_cons, List.mem_append, keyed _ _ found]
    tauto

theorem Enters.nodup :
    (forest.nodes.map keyOf).Nodup ∧ ∀ key ∈ forest.nodes.map keyOf, key ∉ visited := by
  induction enters with
  | nil => exact ⟨List.nodup_nil, nofun⟩
  | skip _ _ inductionRest => exact inductionRest
  | enter found fresh down _ inductionDown inductionRest =>
    obtain ⟨downNodup, downFresh⟩ := inductionDown
    obtain ⟨restNodup, restFresh⟩ := inductionRest
    simp only [down.mem_later keyed, List.mem_cons] at restFresh
    rw [Forest.nodes, List.map_cons, List.map_append, keyed _ _ found]
    refine ⟨List.nodup_cons.mpr ⟨fun isIn => ?_, List.nodup_append.mpr
      ⟨downNodup, restNodup, fun key isDown other isRest same => ?_⟩⟩, fun key isIn => ?_⟩
    · obtain isDown | isRest := List.mem_append.mp isIn
      · exact downFresh _ isDown List.mem_cons_self
      · exact restFresh _ isRest (.inl (.inl rfl))
    · exact restFresh _ isRest (.inr (same ▸ isDown))
    · obtain rfl | isIn := List.mem_cons.mp isIn
      · exact fresh
      · obtain isDown | isRest := List.mem_append.mp isIn
        · exact fun old => downFresh _ isDown (List.mem_cons_of_mem _ old)
        · exact fun old => restFresh _ isRest (.inl (.inr old))

end

theorem Enters.found (keyed : ∀ key node, find key = some node → keyOf node = key)
    (enters : Enters find listed keys visited forest later) {node} (isIn : node ∈ forest.nodes) :
    find (keyOf node) = some node := by
  induction enters with
  | nil => cases isIn
  | skip _ _ inductionRest => exact inductionRest isIn
  | enter found _ _ _ inductionDown inductionRest =>
    obtain rfl | isIn := List.mem_cons.mp isIn
    · rwa [keyed _ _ found]
    · exact (List.mem_append.mp isIn).elim inductionDown inductionRest

theorem Reaches.of_listed {other node} (isIn : key ∈ keys) (passes : key ≠ start)
    (found : find key = some node) (reaches : Reaches find listed start (listed node) other) :
    Reaches find listed start keys other := by
  induction reaches with
  | here isListed => exact .further (.here isIn) passes found isListed
  | further _ viaPasses viaFound isListed before =>
    exact .further before viaPasses viaFound isListed

theorem Reaches.mono {more} (within : ∀ key ∈ keys, key ∈ more)
    (reaches : Reaches find listed start keys key) : Reaches find listed start more key := by
  induction reaches with
  | here isIn => exact .here (within _ isIn)
  | further _ passes found isListed before => exact .further before passes found isListed

theorem Enters.reaches (keyed : ∀ key node, find key = some node → keyOf node = key)
    (enters : Enters find listed keys visited forest later) (started : start ∈ visited)
    (isIn : key ∈ forest.nodes.map keyOf) : Reaches find listed start keys key := by
  induction enters with
  | nil => cases isIn
  | skip _ _ inductionRest =>
    exact (inductionRest started isIn).mono fun _ => List.mem_cons_of_mem _
  | enter found fresh down _ inductionDown inductionRest =>
    rw [Forest.nodes, List.map_cons, List.map_append, keyed _ _ found] at isIn
    obtain rfl | isIn := List.mem_cons.mp isIn
    · exact .here List.mem_cons_self
    · obtain isDown | isRest := List.mem_append.mp isIn
      · exact (inductionDown (List.mem_cons_of_mem _ started) isDown).of_listed
          List.mem_cons_self (fun same => fresh (same ▸ started)) found
      · have started := (down.mem_later keyed).mpr (.inl (List.mem_cons_of_mem _ started))
        exact (inductionRest started isRest).mono fun _ => List.mem_cons_of_mem _

theorem Enters.closed (keyed : ∀ key node, find key = some node → keyOf node = key)
    (enters : Enters find listed keys visited forest later) :
    (∀ key ∈ keys, find key ≠ none → key ∈ later) ∧
      ∀ node ∈ forest.nodes, ∀ key ∈ listed node, find key ≠ none → key ∈ later := by
  induction enters with
  | nil => exact ⟨nofun, nofun⟩
  | skip passes rest inductionRest =>
    refine ⟨List.forall_mem_cons.mpr ⟨fun isFound => ?_, inductionRest.1⟩, inductionRest.2⟩
    exact (rest.mem_later keyed).mpr (.inl (passes.resolve_left isFound))
  | enter found _ down rest inductionDown inductionRest =>
    have keeps {key : Key} (isIn : key ∈ _) : key ∈ _ := (rest.mem_later keyed).mpr (.inl isIn)
    refine ⟨List.forall_mem_cons.mpr ⟨fun _ => ?_, inductionRest.1⟩, fun node isIn => ?_⟩
    · exact keeps ((down.mem_later keyed).mpr (.inl List.mem_cons_self))
    · obtain rfl | isIn := List.mem_cons.mp isIn
      · exact fun key isListed isFound => keeps (inductionDown.1 key isListed isFound)
      · obtain isDown | isRest := List.mem_append.mp isIn
        · exact fun key isListed isFound => keeps (inductionDown.2 node isDown key isListed isFound)
        · exact inductionRest.2 node isRest

theorem Enters.mem_nodes_iff (keyed : ∀ key node, find key = some node → keyOf node = key)
    (enters : Enters find listed keys [start] forest later) {node} :
    node ∈ forest.nodes ↔
      ∃ key ≠ start, Reaches find listed start keys key ∧ find key = some node := by
  have fresh := (enters.nodup keyed).2
  have entered_of_later {key : Key} (isLater : key ∈ later) (other : key ≠ start) {node : Node}
      (found : find key = some node) : node ∈ forest.nodes := by
    obtain isStart | entered := (enters.mem_later keyed).mp isLater
    · exact absurd (List.mem_singleton.mp isStart) other
    · obtain ⟨entry, entryIn, same⟩ := List.mem_map.mp entered
      have entryFound := enters.found keyed entryIn
      rw [same, found] at entryFound
      exact Option.some.inj entryFound ▸ entryIn
  constructor
  · intro isIn
    have keyIn : keyOf node ∈ forest.nodes.map keyOf := List.mem_map_of_mem isIn
    refine ⟨keyOf node, fun isStart => fresh _ keyIn (by simp [isStart]), ?_, ?_⟩
    · exact enters.reaches keyed List.mem_cons_self keyIn
    · exact enters.found keyed isIn
  · rintro ⟨key, other, reaches, found⟩
    have visited : ∀ key, Reaches find listed start keys key → find key ≠ none → key ∈ later := by
      intro key reaches
      induction reaches with
      | here isIn => exact (enters.closed keyed).1 _ isIn
      | further _ passes viaFound isListed before =>
        have isEntered := entered_of_later (before (by simp [viaFound])) passes viaFound
        exact (enters.closed keyed).2 _ isEntered _ isListed
    exact entered_of_later (visited key reaches (by simp [found])) other found

end Walks

/-! ### Children hung on the nodes -/

section Children

variable {Ref : Type} (refOf : Node → Ref)

/-- The children as they were, and after them those of the forest. -/
def Hangs (before after : Ref → List Node) : Forest Node → Prop
  | .nil => True
  | .cons node below rest =>
    after (refOf node) = before (refOf node) ++ below.roots ∧ Hangs before after below ∧
      Hangs before after rest

/-- The forest that is read by following the children. Out of fuel, there is none. -/
def grow (children : Ref → List Node) : ℕ → List Node → Option (Forest Node)
  | _, [] => some .nil
  | 0, _ :: _ => none
  | fuel + 1, node :: rest => do
    let below ← grow children fuel (children (refOf node))
    let after ← grow children fuel rest
    some (.cons node below after)

variable {refOf} {children before after : Ref → List Node} {forest : Forest Node} {node : Node}

theorem Hangs.congr {others later}
    (same : ∀ ref ∈ forest.nodes.map refOf, before ref = others ref ∧ after ref = later ref)
    (hangs : Hangs refOf others later forest) : Hangs refOf before after forest := by
  induction forest with
  | nil => trivial
  | cons child below rest inductionBelow inductionRest =>
    simp only [Forest.nodes, List.map_cons, List.map_append, List.forall_mem_cons,
      List.forall_mem_append] at same
    obtain ⟨⟨childBefore, childAfter⟩, belowSame, restSame⟩ := same
    obtain ⟨here, hangsBelow, hangsRest⟩ := hangs
    refine ⟨?_, inductionBelow belowSame hangsBelow, inductionRest restSame hangsRest⟩
    rw [childBefore, childAfter, here]

variable {fuel : ℕ}

theorem grow_append {first second whole}
    (grown : grow refOf children fuel (first ++ second) = some whole) :
    ∃ left right rest, grow refOf children fuel first = some left ∧
      grow refOf children rest second = some right ∧ whole = left.append right := by
  induction first generalizing fuel whole with
  | nil => exact ⟨.nil, whole, fuel, by cases fuel <;> rfl, grown, rfl⟩
  | cons node first induction =>
    cases fuel with
    | zero => cases grown
    | succ fuel =>
      obtain ⟨below, belowGrown, grown⟩ := Option.bind_eq_some_iff.mp grown
      obtain ⟨after, afterGrown, grown⟩ := Option.bind_eq_some_iff.mp grown
      obtain ⟨left, right, rest, leftGrown, rightGrown, rfl⟩ := induction afterGrown
      refine ⟨.cons node below left, right, rest, ?_, rightGrown, ?_⟩
      · rw [grow, belowGrown, leftGrown]
        rfl
      · exact (Option.some.inj grown).symm

theorem roots_grow {nodes} (grown : grow refOf children fuel nodes = some forest) :
    forest.roots = nodes := by
  induction nodes generalizing fuel forest with
  | nil =>
    have empty : grow refOf children fuel [] = some .nil := by cases fuel <;> rfl
    rw [empty] at grown
    cases grown
    rfl
  | cons node nodes induction =>
    cases fuel with
    | zero => cases grown
    | succ fuel =>
      obtain ⟨below, _, grown⟩ := Option.bind_eq_some_iff.mp grown
      obtain ⟨after, afterGrown, grown⟩ := Option.bind_eq_some_iff.mp grown
      cases grown
      rw [Forest.roots, induction afterGrown]

theorem Hangs.grow_eq (hangs : Hangs refOf before after forest)
    (bare : ∀ node ∈ forest.nodes, before (refOf node) = []) (enough : forest.nodes.length ≤ fuel) :
    grow refOf after fuel forest.roots = some forest := by
  induction forest generalizing fuel with
  | nil => cases fuel <;> rfl
  | cons node below rest inductionBelow inductionRest =>
    obtain ⟨here, hangsBelow, hangsRest⟩ := hangs
    rw [Forest.nodes, List.forall_mem_cons, List.forall_mem_append] at bare
    obtain ⟨nodeBare, belowBare, restBare⟩ := bare
    rw [Forest.nodes, List.length_cons, List.length_append] at enough
    cases fuel with
    | zero => omega
    | succ fuel =>
      rw [Forest.roots, grow, here, nodeBare, List.nil_append,
        inductionBelow hangsBelow belowBare (by omega),
        inductionRest hangsRest restBare (by omega)]
      rfl

theorem Hangs.length_le (hangs : Hangs refOf before after forest) {whole}
    (grown : grow refOf after fuel forest.roots = some whole) :
    forest.nodes.length + (forest.nodes.map fun node => (before (refOf node)).length).sum ≤
      whole.nodes.length := by
  induction forest generalizing fuel whole with
  | nil => exact Nat.zero_le _
  | cons node below rest inductionBelow inductionRest =>
    obtain ⟨here, hangsBelow, hangsRest⟩ := hangs
    cases fuel with
    | zero => cases grown
    | succ fuel =>
      rw [Forest.roots, grow, here] at grown
      obtain ⟨under, underGrown, grown⟩ := Option.bind_eq_some_iff.mp grown
      obtain ⟨others, othersGrown, grown⟩ := Option.bind_eq_some_iff.mp grown
      cases grown
      obtain ⟨old, new, _, oldGrown, newGrown, rfl⟩ := grow_append underGrown
      have oldLength := old.length_roots_le
      rw [roots_grow oldGrown] at oldLength
      have newLength := inductionBelow hangsBelow newGrown
      have othersLength := inductionRest hangsRest othersGrown
      rw [Forest.nodes, Forest.nodes, Forest.nodes_append, List.map_cons, List.map_append,
        List.sum_cons, List.sum_append, List.length_cons, List.length_cons, List.length_append,
        List.length_append, List.length_append]
      omega

end Children

/-! ### Hanging a forest -/

section Hanging

variable {Ref : Type} [DecidableEq Ref] (refOf : Node → Ref)

/-- The children of every node, one more hung on one of them. -/
def push (children : Ref → List Node) (node child : Node) : Ref → List Node :=
  Function.update children (refOf node) (children (refOf node) ++ [child])

/-- The trees of a forest hung on a node, each root before what is below it. -/
def hang (children : Ref → List Node) (node : Node) : Forest Node → Ref → List Node
  | .nil => children
  | .cons child below after =>
    hang (hang (push refOf children node child) child below) node after

variable {refOf} {children : Ref → List Node} {forest : Forest Node} {node : Node}

theorem push_of_ne {child ref} (other : ref ≠ refOf node) :
    push refOf children node child ref = children ref := Function.update_of_ne other _ _

theorem hang_of_notMem {ref} (other : ref ≠ refOf node) (absent : ref ∉ forest.nodes.map refOf) :
    hang refOf children node forest ref = children ref := by
  induction forest generalizing node children with
  | nil => rfl
  | cons child below after inductionBelow inductionAfter =>
    rw [Forest.nodes, List.map_cons, List.map_append, List.mem_cons, List.mem_append, not_or,
      not_or] at absent
    rw [hang, inductionAfter other absent.2.2, inductionBelow absent.1 absent.2.1, push_of_ne other]

theorem hangs_hang (children : Ref → List Node) (node : Node)
    (nodup : (forest.nodes.map refOf).Nodup) (absent : refOf node ∉ forest.nodes.map refOf) :
    hang refOf children node forest (refOf node) = children (refOf node) ++ forest.roots ∧
      Hangs refOf children (hang refOf children node forest) forest := by
  induction forest generalizing node children with
  | nil => exact ⟨(List.append_nil _).symm, trivial⟩
  | cons child below after inductionBelow inductionAfter =>
    rw [Forest.nodes, List.map_cons, List.map_append] at nodup absent
    obtain ⟨childFresh, restNodup⟩ := List.nodup_cons.mp nodup
    obtain ⟨belowNodup, afterNodup, apart⟩ := List.nodup_append.mp restNodup
    rw [List.mem_append, not_or] at childFresh
    rw [List.mem_cons, List.mem_append, not_or, not_or] at absent
    obtain ⟨nodeChild, nodeBelow, nodeAfter⟩ := absent
    obtain ⟨childHas, belowHangs⟩ :=
      inductionBelow (push refOf children node child) child belowNodup childFresh.1
    obtain ⟨nodeHas, afterHangs⟩ := inductionAfter
      (hang refOf (push refOf children node child) child below) node afterNodup nodeAfter
    rw [push_of_ne (Ne.symm nodeChild)] at childHas
    refine ⟨?_, ?_, belowHangs.congr fun ref isIn => ⟨?_, ?_⟩,
      afterHangs.congr fun ref isIn => ⟨?_, rfl⟩⟩
    · rw [hang, nodeHas, hang_of_notMem nodeChild nodeBelow, push, Function.update_self,
        List.append_assoc]
      rfl
    · rw [hang, hang_of_notMem (Ne.symm nodeChild) childFresh.2, childHas]
    · exact (push_of_ne (ne_of_mem_of_not_mem isIn nodeBelow)).symm
    · exact hang_of_notMem (ne_of_mem_of_not_mem isIn nodeBelow)
        fun isAfter => apart ref isIn ref isAfter rfl
    · rw [hang_of_notMem (ne_of_mem_of_not_mem isIn childFresh.2)
        fun isBelow => apart ref isBelow ref isIn rfl,
        push_of_ne (ne_of_mem_of_not_mem isIn nodeAfter)]

end Hanging

end Senars.Library.DepthFirst
