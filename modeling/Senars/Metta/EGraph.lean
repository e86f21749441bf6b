/-
This file is the e-graph: classes of atoms, and a table from the key of an atom to the class that
has it. An atom is added to a class of its own where its key is new, and rewriting puts what a rule
gives for an atom in the class of that atom where its key is new.

A rule that gives two new atoms in one visit of a class puts the second one in the class as it was
before the first, so the first one is only in the table. And a key is a hash, which another atom
may have.
-/

import Senars.Library.OrderedMap
import Senars.Library.Runs
import Senars.Unify.MettaAtom

namespace Senars.Metta

open Library Unify

/-! ### The graph -/

structure EClass where
  id : ℕ
  nodes : List MettaAtom

structure RewriteRule where
  name : String
  matchAtom : MettaAtom → Option MettaAtom

structure EGraph where
  eclasses : OrderedMap ℕ EClass := .empty
  hashCons : OrderedMap String ℕ := .empty
  nextIdCounter : ℕ := 0

/-- The order the entries of a map and the nodes of a set are listed in. -/
structure IterationOrder where
  ofMap : OrderedMap String ℕ → List (String × ℕ)
  ofMap_perm : ∀ map, (ofMap map).Perm map.entries
  ofSet : List MettaAtom → List MettaAtom
  ofSet_perm : ∀ nodes, (ofSet nodes).Perm nodes

/-- What applying rules has come to. What they produced is noted for the statements only. -/
structure Applied where
  graph : EGraph
  changed : Bool := false
  produced : List MettaAtom := []

namespace EGraph

/-- Put a class in the place of its id, and a key in the table. -/
def putNode (graph : EGraph) (id : ℕ) (eclass : EClass) (key : String) : EGraph :=
  { graph with eclasses := graph.eclasses.set id eclass, hashCons := graph.hashCons.set key id }

section

variable (numberText : JsNumber → String) (order : IterationOrder)

/-- Add an atom, and the class it is in. -/
def add (graph : EGraph) (atom : MettaAtom) : ℕ × EGraph :=
  let key := atomKey numberText atom
  match graph.hashCons.get key with
  | some existing => (existing, graph)
  | none =>
    let id := graph.nextIdCounter
    let graph := { graph with nextIdCounter := graph.nextIdCounter + 1 }
    (id, graph.putNode id ⟨id, [atom]⟩ key)

/-- Rewrite one node of a class that was read. A node whose key is new is no node of the class. -/
def rewriteNode (rule : RewriteRule) (id : ℕ) (eclass : EClass) (applied : Applied)
    (atom : MettaAtom) : Applied :=
  match rule.matchAtom atom with
  | none => applied
  | some replacement =>
    let repKey := atomKey numberText replacement
    let produced := applied.produced ++ [replacement]
    match applied.graph.hashCons.get repKey with
    | some _ => { applied with produced }
    | none =>
      { graph := applied.graph.putNode id { eclass with nodes := eclass.nodes ++ [replacement] }
          repKey
        changed := true
        produced }

/-- Rewrite the nodes of the class of one entry of the table. -/
def visitEntry (rule : RewriteRule) (applied : Applied) (entry : String × ℕ) : Applied :=
  match applied.graph.eclasses.get entry.2 with
  | none => applied
  | some eclass =>
    (order.ofSet eclass.nodes).foldl (rewriteNode numberText rule entry.2 eclass) applied

/-- Apply a rule to every node of the graph. -/
def applyRule (graph : EGraph) (rule : RewriteRule) : Applied :=
  (order.ofMap graph.hashCons).foldl (visitEntry numberText order rule) { graph }

/-- Apply one rule after the others. -/
def applyNext (applied : Applied) (rule : RewriteRule) : Applied :=
  let next := applied.graph.applyRule numberText order rule
  ⟨next.graph, applied.changed || next.changed, applied.produced ++ next.produced⟩

/-- Apply all rules again and again while one changes something, as often as there are steps left
and while there are not too many classes. -/
def saturateFrom (rules : List RewriteRule) (maxNodes : ℕ) : ℕ → Applied → Applied
  | 0, applied => applied
  | steps + 1, applied =>
    if applied.graph.eclasses.size < maxNodes then
      let next := rules.foldl (applyNext numberText order) { applied with changed := false }
      if next.changed then saturateFrom rules maxNodes steps next else next
    else applied

def saturate (graph : EGraph) (rules : List RewriteRule) (maxSteps maxNodes : Option ℕ) :
    Applied :=
  saturateFrom numberText order rules (maxNodes.getD 10000) (maxSteps.getD 1000) { graph }

end

end EGraph

/-! ### Histories -/

/-- A graph, the atoms that were added with the class each was assigned, and the atoms that
rewriting produced. -/
structure GraphHistory where
  graph : EGraph := {}
  added : List (ℕ × MettaAtom) := []
  produced : List MettaAtom := []

inductive GraphCall where
  | add (atom : MettaAtom)
  | saturate (rules : List RewriteRule) (maxSteps maxNodes : Option ℕ)

/-- The class of an id has an atom. -/
def EGraph.Holds (graph : EGraph) (id : ℕ) (atom : MettaAtom) : Prop :=
  ∃ eclass, graph.eclasses.get id = some eclass ∧ atom ∈ eclass.nodes

section

variable (numberText : JsNumber → String) (order : IterationOrder)

def graphStep : Machine GraphHistory GraphCall
  | history, .add atom =>
    let output := history.graph.add numberText atom
    some { history with graph := output.2, added := history.added ++ [(output.1, atom)] }
  | history, .saturate rules maxSteps maxNodes =>
    let applied := history.graph.saturate numberText order rules maxSteps maxNodes
    some { history with graph := applied.graph, produced := history.produced ++ applied.produced }

/-- The table and the classes agree, nothing that was added or produced has left its class, and two
atoms that were added to one class, which no rewriting put an atom in, are equal. -/
structure Consistent (history : GraphHistory) : Prop where
  agrees : ∀ key id, history.graph.hashCons.get key = some id ↔
    ∃ node, history.graph.Holds id node ∧ atomKey numberText node = key
  keepsAdded : ∀ id atom, (id, atom) ∈ history.added → history.graph.Holds id atom
  keepsProduced : ∀ atom ∈ history.produced, ∃ id,
    history.graph.hashCons.get (atomKey numberText atom) = some id ∧ history.graph.Holds id atom
  apart : ∀ id first second, (id, first) ∈ history.added → (id, second) ∈ history.added →
    (∀ atom ∈ history.produced,
      history.graph.hashCons.get (atomKey numberText atom) ≠ some id) → first = second

/-! ### Calls that keep a graph consistent -/

/-- A replacement whose key is new is put in a class that is still as it was read, and one whose key
is known is in the class of that key. -/
def RewritesApart (rule : RewriteRule) (id : ℕ) (eclass : EClass) (applied : Applied)
    (atom : MettaAtom) : Prop :=
  ∀ replacement, rule.matchAtom atom = some replacement →
    match applied.graph.hashCons.get (atomKey numberText replacement) with
    | none => applied.graph.eclasses.get id = some eclass
    | some known => applied.graph.Holds known replacement

def VisitsApart (rule : RewriteRule) (applied : Applied) (entry : String × ℕ) : Prop :=
  ∀ eclass, applied.graph.eclasses.get entry.2 = some eclass →
    Turns (EGraph.rewriteNode numberText rule entry.2 eclass)
      (RewritesApart numberText rule entry.2 eclass) applied (order.ofSet eclass.nodes)

def AppliesApart (applied : Applied) (rule : RewriteRule) : Prop :=
  Turns (EGraph.visitEntry numberText order rule) (VisitsApart numberText order rule)
    { graph := applied.graph } (order.ofMap applied.graph.hashCons)

def SaturatesApart (rules : List RewriteRule) (maxNodes : ℕ) : ℕ → Applied → Prop
  | 0, _ => True
  | steps + 1, applied =>
    applied.graph.eclasses.size < maxNodes →
      Turns (EGraph.applyNext numberText order) (AppliesApart numberText order)
        { applied with changed := false } rules ∧
      let next := rules.foldl (EGraph.applyNext numberText order) { applied with changed := false }
      (next.changed = true → SaturatesApart rules maxNodes steps next)

/-- An atom is added whose key is new, or whose key belongs to a class that has the atom; and
rewriting mixes up no atoms. -/
def KeepsApart (history : GraphHistory) : GraphCall → Prop
  | .add atom => ∀ id, history.graph.hashCons.get (atomKey numberText atom) = some id →
    history.graph.Holds id atom
  | .saturate rules maxSteps maxNodes =>
    SaturatesApart numberText order rules (maxNodes.getD 10000) (maxSteps.getD 1000)
      { graph := history.graph }

end

/-! ### Putting a node in a class -/

namespace EGraph

variable {graph : EGraph} {id : ℕ} {eclass : EClass} {key : String} {node : MettaAtom}

theorem holds_putNode (other : ℕ) (atom : MettaAtom) :
    (graph.putNode id eclass key).Holds other atom ↔
      if other = id then atom ∈ eclass.nodes else graph.Holds other atom := by
  unfold Holds putNode
  rw [OrderedMap.get_set]
  split
  · constructor
    · rintro ⟨_, found, member⟩
      exact Option.some.inj found ▸ member
    · exact fun member => ⟨eclass, rfl, member⟩
  · exact Iff.rfl

theorem holds_extend (current : graph.eclasses.get id = some eclass) (other : ℕ)
    (atom : MettaAtom) :
    (graph.putNode id { eclass with nodes := eclass.nodes ++ [node] } key).Holds other atom ↔
      graph.Holds other atom ∨ other = id ∧ atom = node := by
  rw [holds_putNode]
  split
  · next same =>
    subst same
    have held : graph.Holds other atom ↔ atom ∈ eclass.nodes := by
      unfold Holds
      rw [current]
      constructor
      · rintro ⟨_, found, member⟩
        exact Option.some.inj found ▸ member
      · exact fun member => ⟨eclass, rfl, member⟩
    rw [held, List.mem_append, List.mem_singleton]
    exact or_congr_right ⟨fun same => ⟨rfl, same⟩, fun both => both.2⟩
  · next different =>
    exact ⟨.inl, fun either => either.resolve_right fun both => different both.1⟩

end EGraph

/-! ### What is kept -/

section

variable {numberText : JsNumber → String} {order : IterationOrder} {graph : EGraph}
  {added : List (ℕ × MettaAtom)} {produced : List MettaAtom}

/-- What keeps a history consistent: besides, ids are below the counter, and a class begins with the
one node that was added to it. -/
structure Sound (numberText : JsNumber → String) (graph : EGraph) (added : List (ℕ × MettaAtom))
    (produced : List MettaAtom) : Prop where
  agrees : ∀ key id, graph.hashCons.get key = some id ↔
    ∃ node, graph.Holds id node ∧ atomKey numberText node = key
  keepsAdded : ∀ id atom, (id, atom) ∈ added → graph.Holds id atom
  keepsProduced : ∀ atom ∈ produced, ∃ id,
    graph.hashCons.get (atomKey numberText atom) = some id ∧ graph.Holds id atom
  fresh : ∀ id eclass, graph.eclasses.get id = some eclass → id < graph.nextIdCounter
  founded : ∀ id, ∃ founder, ∀ atom, graph.Holds id atom → atom = founder ∨ atom ∈ produced

theorem not_holds_new (id : ℕ) (atom : MettaAtom) : ¬ EGraph.Holds {} id atom := by
  rintro ⟨eclass, found, _⟩
  cases found

theorem sound_new : Sound numberText {} [] [] where
  agrees _ id := ⟨nofun, fun ⟨node, holds, _⟩ => absurd holds (not_holds_new id node)⟩
  keepsAdded _ _ member := absurd member List.not_mem_nil
  keepsProduced _ member := absurd member List.not_mem_nil
  fresh := nofun
  founded id := ⟨.sym "", fun atom holds => absurd holds (not_holds_new id atom)⟩

theorem Sound.consistent {history}
    (sound : Sound numberText history.graph history.added history.produced) :
    Consistent numberText history where
  agrees := sound.agrees
  keepsAdded := sound.keepsAdded
  keepsProduced := sound.keepsProduced
  apart := by
    intro id first second isFirst isSecond untouched
    obtain ⟨founder, others⟩ := sound.founded id
    have founds : ∀ atom, (id, atom) ∈ history.added → atom = founder := by
      intro atom isAdded
      have holds := sound.keepsAdded id atom isAdded
      rcases others atom holds with same | isProduced
      · exact same
      · exact absurd ((sound.agrees _ id).mpr ⟨atom, holds, rfl⟩) (untouched atom isProduced)
    rw [founds first isFirst, founds second isSecond]

theorem Sound.note (sound : Sound numberText graph added produced) {id atom}
    (known : graph.hashCons.get (atomKey numberText atom) = some id) (holds : graph.Holds id atom) :
    Sound numberText graph added (produced ++ [atom]) where
  agrees := sound.agrees
  keepsAdded := sound.keepsAdded
  keepsProduced := by
    intro other member
    rcases List.mem_append.mp member with before | now
    · exact sound.keepsProduced other before
    · cases List.mem_singleton.mp now
      exact ⟨id, known, holds⟩
  fresh := sound.fresh
  founded id := by
    obtain ⟨founder, others⟩ := sound.founded id
    exact ⟨founder, fun other held => (others other held).imp_right (List.mem_append_left _)⟩

theorem agrees_of_put {next : EGraph} {id node}
    (agrees : ∀ key id, graph.hashCons.get key = some id ↔
      ∃ node, graph.Holds id node ∧ atomKey numberText node = key)
    (new : graph.hashCons.get (atomKey numberText node) = none)
    (keys : next.hashCons = graph.hashCons.set (atomKey numberText node) id)
    (nodes : ∀ other atom, next.Holds other atom ↔
      graph.Holds other atom ∨ other = id ∧ atom = node) (key : String) (other : ℕ) :
    next.hashCons.get key = some other ↔
      ∃ atom, next.Holds other atom ∧ atomKey numberText atom = key := by
  rw [keys, OrderedMap.get_set]
  by_cases same : key = atomKey numberText node
  · subst same
    rw [if_pos rfl]
    constructor
    · intro isId
      cases isId
      exact ⟨node, (nodes id node).mpr (.inr ⟨rfl, rfl⟩), rfl⟩
    · rintro ⟨atom, holds, sameKey⟩
      rcases (nodes other atom).mp holds with held | ⟨rfl, _⟩
      · rw [← sameKey, (agrees _ other).mpr ⟨atom, held, rfl⟩] at new
        cases new
      · rfl
  · rw [if_neg same, agrees]
    constructor
    · rintro ⟨atom, held, sameKey⟩
      exact ⟨atom, (nodes other atom).mpr (.inl held), sameKey⟩
    · rintro ⟨atom, holds, sameKey⟩
      rcases (nodes other atom).mp holds with held | ⟨_, rfl⟩
      · exact ⟨atom, held, sameKey⟩
      · exact absurd sameKey.symm same

theorem Sound.extend (sound : Sound numberText graph added produced) {id eclass node}
    (new : graph.hashCons.get (atomKey numberText node) = none)
    (current : graph.eclasses.get id = some eclass) :
    Sound numberText
      (graph.putNode id { eclass with nodes := eclass.nodes ++ [node] } (atomKey numberText node))
      added (produced ++ [node]) where
  agrees := agrees_of_put sound.agrees new rfl (EGraph.holds_extend current)
  keepsAdded other atom member :=
    (EGraph.holds_extend current other atom).mpr (.inl (sound.keepsAdded other atom member))
  keepsProduced := by
    intro atom member
    have keys : (graph.putNode id { eclass with nodes := eclass.nodes ++ [node] }
        (atomKey numberText node)).hashCons = graph.hashCons.set (atomKey numberText node) id := rfl
    rw [keys, OrderedMap.get_set]
    rcases List.mem_append.mp member with before | now
    · obtain ⟨other, known, holds⟩ := sound.keepsProduced atom before
      refine ⟨other, ?_, (EGraph.holds_extend current other atom).mpr (.inl holds)⟩
      rw [if_neg]
      · exact known
      · intro same
        rw [same, new] at known
        cases known
    · cases List.mem_singleton.mp now
      exact ⟨id, if_pos rfl, (EGraph.holds_extend current id node).mpr (.inr ⟨rfl, rfl⟩)⟩
  fresh other held := by
    intro found
    change (graph.eclasses.set id _).get other = some held at found
    rw [OrderedMap.get_set] at found
    split at found
    · next same => exact same ▸ sound.fresh id eclass current
    · exact sound.fresh other held found
  founded other := by
    obtain ⟨founder, others⟩ := sound.founded other
    refine ⟨founder, fun atom holds => ?_⟩
    rcases (EGraph.holds_extend current other atom).mp holds with held | ⟨_, rfl⟩
    · exact (others atom held).imp_right (List.mem_append_left _)
    · exact .inr (List.mem_append_right _ (List.mem_singleton_self _))

/-- What rules have come to, in a history. -/
def SoundWith (numberText : JsNumber → String) (added : List (ℕ × MettaAtom))
    (produced : List MettaAtom) (applied : Applied) : Prop :=
  Sound numberText applied.graph added (produced ++ applied.produced)

theorem SoundWith.rewriteNode {rule id eclass applied atom}
    (sound : SoundWith numberText added produced applied)
    (apart : RewritesApart numberText rule id eclass applied atom) :
    SoundWith numberText added produced
      (EGraph.rewriteNode numberText rule id eclass applied atom) := by
  unfold EGraph.rewriteNode
  cases rewritten : rule.matchAtom atom with
  | none => exact sound
  | some replacement =>
    have kept := apart replacement rewritten
    dsimp only
    cases known : applied.graph.hashCons.get (atomKey numberText replacement) with
    | none =>
      rw [known] at kept
      unfold SoundWith
      rw [← List.append_assoc]
      exact sound.extend known kept
    | some other =>
      rw [known] at kept
      unfold SoundWith
      rw [← List.append_assoc]
      exact sound.note known kept

theorem SoundWith.visitEntry {rule applied entry}
    (sound : SoundWith numberText added produced applied)
    (apart : VisitsApart numberText order rule applied entry) :
    SoundWith numberText added produced
      (EGraph.visitEntry numberText order rule applied entry) := by
  unfold EGraph.visitEntry
  cases found : applied.graph.eclasses.get entry.2 with
  | none => exact sound
  | some eclass => exact (apart eclass found).keeps (fun _ _ kept met => kept.rewriteNode met) sound

theorem SoundWith.applyNext {rule applied} (sound : SoundWith numberText added produced applied)
    (apart : AppliesApart numberText order applied rule) :
    SoundWith numberText added produced (EGraph.applyNext numberText order applied rule) := by
  have starts : SoundWith numberText added (produced ++ applied.produced)
      { graph := applied.graph } := by
    unfold SoundWith
    rw [List.append_nil]
    exact sound
  have ends := apart.keeps (fun _ _ kept met => SoundWith.visitEntry kept met) starts
  unfold SoundWith EGraph.applyNext at *
  rw [← List.append_assoc]
  exact ends

theorem SoundWith.saturateFrom {rules maxNodes steps applied}
    (sound : SoundWith numberText added produced applied)
    (apart : SaturatesApart numberText order rules maxNodes steps applied) :
    SoundWith numberText added produced
      (EGraph.saturateFrom numberText order rules maxNodes steps applied) := by
  induction steps generalizing applied with
  | zero => exact sound
  | succ steps ih =>
    unfold EGraph.saturateFrom
    split
    · next small =>
      obtain ⟨turns, later⟩ := apart small
      have kept : SoundWith numberText added produced
          (rules.foldl (EGraph.applyNext numberText order) { applied with changed := false }) :=
        turns.keeps (fun _ _ kept met => kept.applyNext met) sound
      dsimp only
      split
      · next changed => exact ih kept (later changed)
      · exact kept
    · exact sound

/-- The graph with a class of one atom. -/
def EGraph.found (graph : EGraph) (atom : MettaAtom) (key : String) : EGraph :=
  let id := graph.nextIdCounter
  { graph with nextIdCounter := graph.nextIdCounter + 1 }.putNode id ⟨id, [atom]⟩ key

theorem Sound.found (sound : Sound numberText graph added produced) {atom}
    (new : graph.hashCons.get (atomKey numberText atom) = none) :
    Sound numberText (graph.found atom (atomKey numberText atom))
      (added ++ [(graph.nextIdCounter, atom)]) produced := by
  have unused : ∀ node, ¬ graph.Holds graph.nextIdCounter node := by
    rintro node ⟨eclass, taken, _⟩
    exact absurd (sound.fresh _ _ taken) (lt_irrefl _)
  have nodes : ∀ other node, (graph.found atom (atomKey numberText atom)).Holds other node ↔
      graph.Holds other node ∨ other = graph.nextIdCounter ∧ node = atom := by
    intro other node
    unfold EGraph.found
    rw [EGraph.holds_putNode]
    split
    · next same =>
      subst same
      rw [List.mem_singleton]
      exact ⟨fun same => .inr ⟨rfl, same⟩, fun either =>
        (either.resolve_left (unused node)).2⟩
    · next different =>
      exact ⟨.inl, fun either => either.resolve_right fun both => different both.1⟩
  refine ⟨agrees_of_put sound.agrees new rfl nodes, ?_, ?_, ?_, ?_⟩
  · intro id other member
    rcases List.mem_append.mp member with before | now
    · exact (nodes id other).mpr (.inl (sound.keepsAdded id other before))
    · cases List.mem_singleton.mp now
      exact (nodes _ atom).mpr (.inr ⟨rfl, rfl⟩)
  · intro other member
    obtain ⟨id, known, holds⟩ := sound.keepsProduced other member
    refine ⟨id, ?_, (nodes id other).mpr (.inl holds)⟩
    have keys : (graph.found atom (atomKey numberText atom)).hashCons =
        graph.hashCons.set (atomKey numberText atom) graph.nextIdCounter := rfl
    rw [keys, OrderedMap.get_set, if_neg]
    · exact known
    · intro same
      rw [same, new] at known
      cases known
  · intro id eclass isClass
    change (graph.eclasses.set _ _).get id = some eclass at isClass
    show id < graph.nextIdCounter + 1
    rw [OrderedMap.get_set] at isClass
    split at isClass
    · omega
    · exact Nat.lt_succ_of_lt (sound.fresh id eclass isClass)
  · intro id
    by_cases same : id = graph.nextIdCounter
    · subst same
      refine ⟨atom, fun node holds => .inl ?_⟩
      exact (((nodes _ node).mp holds).resolve_left (unused node)).2
    · obtain ⟨founder, others⟩ := sound.founded id
      refine ⟨founder, fun node holds => others node ?_⟩
      exact ((nodes id node).mp holds).resolve_right fun both => same both.1

theorem Sound.add (sound : Sound numberText graph added produced) {atom}
    (apart : ∀ id, graph.hashCons.get (atomKey numberText atom) = some id → graph.Holds id atom) :
    Sound numberText (graph.add numberText atom).2
      (added ++ [((graph.add numberText atom).1, atom)]) produced := by
  unfold EGraph.add
  dsimp only
  cases known : graph.hashCons.get (atomKey numberText atom) with
  | none => exact sound.found known
  | some existing =>
    refine { sound with keepsAdded := ?_ }
    intro id other member
    rcases List.mem_append.mp member with before | now
    · exact sound.keepsAdded id other before
    · cases List.mem_singleton.mp now
      exact apart existing known

theorem Sound.step {history next} {call : GraphCall}
    (sound : Sound numberText history.graph history.added history.produced)
    (apart : KeepsApart numberText order history call)
    (taken : graphStep numberText order history call = some next) :
    Sound numberText next.graph next.added next.produced := by
  cases call with
  | add atom =>
    cases taken
    exact sound.add apart
  | saturate rules maxSteps maxNodes =>
    cases taken
    have starts : SoundWith numberText history.added history.produced
        { graph := history.graph } := by
      unfold SoundWith
      rw [List.append_nil]
      exact sound
    exact starts.saturateFrom apart

/-! ### Any calls -/

/-- Whatever is added and whatever rules a graph is saturated with, in any order of the entries and
nodes: if no call puts two atoms under one key and no rule gives a class two new atoms in one
visit, the graph is consistent after all calls. -/
theorem consistent_of_run {calls : List GraphCall} {last : GraphHistory}
    (run : Run (graphStep numberText order) {} calls last)
    (meets : Run.Meets (graphStep numberText order) (KeepsApart numberText order) {} calls) :
    Consistent numberText last := by
  have steps : ∀ history call next,
      Sound numberText history.graph history.added history.produced →
        KeepsApart numberText order history call →
          graphStep numberText order history call = some next →
            Sound numberText next.graph next.added next.produced :=
    fun _ _ _ sound met taken => sound.step met taken
  exact (run.keeps_of_meets steps meets sound_new).consistent

end

theorem add_flatten {numberText} (graph : EGraph) (operator : MettaAtom)
    (first second : List MettaAtom) :
    let nested := graph.add numberText (.expr (.expr operator first) second)
    (nested.2.add numberText (.expr operator (first ++ second))).1 = nested.1 := by
  unfold EGraph.add
  dsimp only
  rw [← atomKey_flatten]
  cases known : graph.hashCons.get (atomKey numberText (.expr (.expr operator first) second)) with
  | some existing =>
    rw [known]
  | none =>
    dsimp only [EGraph.putNode]
    rw [OrderedMap.get_set_self]

/-! ### A node that is rewritten, and one that is lost -/

section

/-- Entries and nodes in the order they were put in. -/
def insertionOrder : IterationOrder where
  ofMap map := map.entries
  ofMap_perm _ := .refl _
  ofSet nodes := nodes
  ofSet_perm _ := .refl _

/-- How the number zero is written. -/
def zeroText (_ : JsNumber) : String := "0"

/-- A rule that rewrites some symbols. -/
def renames (name : String) (names : List (String × String)) : RewriteRule where
  name
  matchAtom
    | .sym value => (names.lookup value).map .sym
    | _ => none

/-- The graph after some calls. -/
def graphAfter (calls : List GraphCall) : GraphHistory :=
  (execute (graphStep zeroText insertionOrder) {} calls).getD {}

/-- A symbol is rewritten, and the symbol it was rewritten to is added. -/
def renamedOnce : List GraphCall :=
  [.add (.sym "a"), .saturate [renames "once" [("a", "b")]] (some 1) none, .add (.sym "b")]

theorem consistent_of_run_renamedOnce : Consistent zeroText (graphAfter renamedOnce) := by
  have run : Run (graphStep zeroText insertionOrder) {} renamedOnce (graphAfter renamedOnce) :=
    run_of_execute rfl
  have meets : Run.Meets (graphStep zeroText insertionOrder) (KeepsApart zeroText insertionOrder)
      {} renamedOnce := by
    refine .cons nofun rfl (.cons (fun _ => ⟨⟨⟨?_, trivial⟩, trivial⟩, fun _ => trivial⟩) rfl
      (.cons ?_ rfl (.nil _)))
    · intro eclass found
      cases found
      refine ⟨?_, trivial⟩
      intro replacement given
      cases given
      have new : (graphAfter [.add (.sym "a")]).graph.hashCons.get
          (atomKey zeroText (.sym "b")) = none := by
        decide +kernel
      split
      · rfl
      · next known found => exact absurd (found.symm.trans new) nofun
    · intro id known
      have there : (graphAfter (renamedOnce.take 2)).graph.hashCons.get
          (atomKey zeroText (.sym "b")) = some 0 := by
        decide +kernel
      have nodes : ((graphAfter (renamedOnce.take 2)).graph.eclasses.get 0).map (·.nodes) =
          some [.sym "a", .sym "b"] := by
        decide +kernel
      cases Option.some.inj (known.symm.trans there)
      obtain ⟨eclass, found, same⟩ := Option.map_eq_some_iff.mp nodes
      exact ⟨eclass, found, same ▸ by decide⟩
  exact consistent_of_run run meets

/-- One rule rewrites two nodes of a class, each to a new symbol. -/
def renamedTwice : List GraphCall :=
  [.add (.sym "a"),
    .saturate [renames "once" [("a", "b")], renames "twice" [("a", "c"), ("b", "d")]] (some 1)
      none]

/-- The first of the two new symbols is in the table and in no class. -/
theorem replacement_lost : ¬ ∀ (calls : List GraphCall) (last : GraphHistory),
    Run (graphStep zeroText insertionOrder) {} calls last → Consistent zeroText last := by
  intro always
  have consistent := always renamedTwice (graphAfter renamedTwice) (run_of_execute rfl)
  have there : (graphAfter renamedTwice).graph.hashCons.get (atomKey zeroText (.sym "c")) =
      some 0 := by
    decide +kernel
  have nodes : ((graphAfter renamedTwice).graph.eclasses.get 0).map (·.nodes) =
      some [.sym "a", .sym "b", .sym "d"] := by
    decide +kernel
  obtain ⟨node, ⟨eclass, found, member⟩, sameKey⟩ := (consistent.agrees _ 0).mp there
  rw [found] at nodes
  have listed : eclass.nodes = [.sym "a", .sym "b", .sym "d"] := Option.some.inj nodes
  rw [listed] at member
  have others : ∀ node ∈ [MettaAtom.sym "a", .sym "b", .sym "d"],
      atomKey zeroText node ≠ atomKey zeroText (.sym "c") := by
    decide +kernel
  exact others node member sameKey

end

end Senars.Metta
