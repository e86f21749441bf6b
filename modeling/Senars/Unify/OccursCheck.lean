/-
This file proves that a walk keeps its bindings free of cycles, as long as the
occurs check is not misled by its depth cap, and that substituting by bindings
free of cycles terminates.

Binding a variable redirects the edges that leave it, and makes a cycle only if
some variable of the value leads back. That is what the occurs check looks for,
down to its cap. Substituting recurses into the children of a node and along the
edges of a variable, so it ends by the size of the node and the order the edges
give, taken together.
-/

import Senars.Library.Acyclic
import Senars.Unify.Memo

namespace Senars.Unify

open Library Relation

section OccursCheck

variable {Node Failure : Type} {ast : UnifierDialect Node Failure}

/-! ### Edges between variables -/

/-- A variable occurs somewhere in a node. -/
inductive Mentions (ast : UnifierDialect Node Failure) (name : String) : Node → Prop
  | here (node : Node) (named : ast.variableName node = some name) : Mentions ast name node
  | inside (node kid : Node) (plain : ast.variableName node = none)
      (member : kid ∈ ast.children node) (deeper : Mentions ast name kid) : Mentions ast name node

/-- A variable's value mentions another variable. -/
def Edge (ast : UnifierDialect Node Failure) (subst : Substitution Node) (name other : String) :
    Prop := ∃ value, subst.get name = some value ∧ Mentions ast other value

/-- No variable reaches itself through the bindings. -/
def AcyclicBindings (ast : UnifierDialect Node Failure) (subst : Substitution Node) : Prop :=
  Acyclic (Edge ast subst)

/-- A variable occurs in a node, or is reached from one that does. -/
def Reaches (ast : UnifierDialect Node Failure) (work : Substitution Node) (node : Node)
    (name : String) : Prop :=
  ∃ other, Mentions ast other node ∧ ReflTransGen (Edge ast work) other name

variable {first second subst : Substitution Node}

theorem edge_congr (same : first.SameBindings second) : Edge ast first = Edge ast second := by
  funext name other
  simp only [Edge, same name]

theorem AcyclicBindings.congr (same : first.SameBindings second)
    (acyclic : AcyclicBindings ast first) : AcyclicBindings ast second := by
  rw [AcyclicBindings, ← edge_congr same]
  exact acyclic

theorem acyclicBindings_empty : AcyclicBindings ast (.empty : Substitution Node) := by
  intro name path
  obtain ⟨_, ⟨_, found, _⟩, _⟩ := TransGen.head'_iff.mp path
  cases found

theorem AcyclicBindings.set {work} (acyclic : AcyclicBindings ast work) {name value}
    (away : ¬ Reaches ast work value name) : AcyclicBindings ast (work.set name value) := by
  refine acyclic.redirect (?_ : ∀ first second, Edge ast (work.set name value) first second →
    Edge ast work first second ∨ first = name ∧ Mentions ast second value) ?_
  · rintro first second ⟨bound, found, mentions⟩
    rw [OrderedMap.get_set] at found
    split at found
    · exact Or.inr ⟨‹_›, Option.some.inj found ▸ mentions⟩
    · exact Or.inl ⟨bound, found, mentions⟩
  · exact fun other mentions path => away ⟨other, mentions, path⟩

/-! ### The walk -/

/-- The occurs check finds the variable wherever it is, at every binding a call attempts. -/
def OccursFound (ast : UnifierDialect Node Failure) (call : Call Node) : Prop :=
  ∀ visit ∈ call.visits ast, ∀ name value,
    BindStep ast call.identical (visit.left ast) (visit.right ast) name value →
      Reaches ast visit.walk.work value name →
        occurs ast name visit.walk.work maxDepth value = true

theorem solve_acyclic {call} (checked : call.occursCheck = true) (found : OccursFound ast call)
    (acyclic : AcyclicBindings ast call.subst) {result} (done : call.solve ast = some result) :
    AcyclicBindings ast result.work := by
  refine descend_preserves (fun walk => AcyclicBindings ast walk.work)
    (fun visit inside acyclicHere name value next step bound => ?_) acyclic done
  unfold bind at bound
  split at bound
  · cases bound
  rename_i unseen
  rw [← Option.some.inj bound]
  refine acyclicHere.set fun reaches => unseen ?_
  rw [checked, found visit inside name value step reaches]
  rfl

theorem edge_extends (larger : first.Extends second) {name other}
    (edge : Edge ast first name other) : Edge ast second name other := by
  obtain ⟨value, found, mentions⟩ := edge
  exact ⟨value, larger name value found, mentions⟩

theorem solve_acyclic_iff {call} (checked : call.occursCheck = true)
    (resolved : ∀ visit ∈ call.visits ast, visit.Resolved ast)
    (acyclic : AcyclicBindings ast call.subst) {result} (done : call.solve ast = some result) :
    AcyclicBindings ast result.work ↔ OccursFound ast call := by
  refine ⟨fun acyclicResult visit inside name value step reaches => ?_,
    fun found => solve_acyclic checked found acyclic done⟩
  obtain ⟨next, bound, kept⟩ := (descend_kept resolved done visit inside).2 name value step
  have earlier : visit.walk.work.Extends next.work := by
    rw [work_of_bind bound]
    exact OrderedMap.extends_set (step.fresh (resolved visit inside)) value
  obtain ⟨other, mentions, path⟩ := reaches
  have first : Edge ast result.work name other := by
    refine edge_extends kept ⟨value, ?_, mentions⟩
    rw [work_of_bind bound, OrderedMap.get_set, if_pos rfl]
  have back : ReflTransGen (Edge ast result.work) other name :=
    path.lift id fun _ _ edge => edge_extends (earlier.trans kept) edge
  exact absurd (TransGen.head' first back) (acyclicResult name)

/-! ### Substitution terminates -/

theorem AcyclicBindings.wellFounded {subst} (acyclic : AcyclicBindings ast subst) :
    WellFounded fun other name => Edge ast subst name other := by
  refine Acyclic.wellFounded acyclic (subst.entries.map Prod.fst).toFinset ?_
  rintro name other ⟨value, found, -⟩
  rw [List.mem_toFinset]
  exact List.mem_map_of_mem ((subst.get_eq_some_iff name value).mp found)

variable [DecidableEq Node]

/-- With enough fuel, substituting through a term gives one answer. -/
def Terminates (ast : UnifierDialect Node Failure) (subst : Substitution Node) (term : Node) :
    Prop := ∃ answer, ∃ enough, ∀ fuel, enough ≤ fuel → apply ast subst fuel term = some answer

theorem applyAll_terminates {kids} (each : ∀ kid ∈ kids, Terminates ast subst kid) :
    ∃ answer, ∃ enough, ∀ fuel, enough ≤ fuel →
      applyAll (apply ast subst fuel) kids = some answer := by
  induction kids with
  | nil => exact ⟨.ok [], 0, fun fuel _ => rfl⟩
  | cons kid rest ih =>
    obtain ⟨first, firstEnough, firstDone⟩ := each kid List.mem_cons_self
    obtain ⟨others, othersEnough, othersDone⟩ :=
      ih fun other member => each other (List.mem_cons_of_mem _ member)
    cases first with
    | error error =>
      exact ⟨.error error, firstEnough, fun fuel more => by rw [applyAll, firstDone fuel more]⟩
    | ok next =>
      cases others with
      | error error =>
        refine ⟨.error error, max firstEnough othersEnough, fun fuel more => ?_⟩
        rw [applyAll, firstDone fuel (le_of_max_le_left more)]
        simp only [othersDone fuel (le_of_max_le_right more)]
      | ok applied =>
        refine ⟨.ok (next :: applied), max firstEnough othersEnough, fun fuel more => ?_⟩
        rw [applyAll, firstDone fuel (le_of_max_le_left more)]
        simp only [othersDone fuel (le_of_max_le_right more)]

theorem terminates_of_bound {size : Node → Nat}
    (smaller : ∀ node kid, kid ∈ ast.children node → size kid < size node) (term : Node)
    (bound : ∀ name value, Mentions ast name term → subst.get name = some value →
      Terminates ast subst value) : Terminates ast subst term := by
  induction measured : size term using Nat.strong_induction_on generalizing term with
  | _ bulk ih =>
    cases named : ast.variableName term with
    | some name =>
      cases found : subst.get name with
      | none =>
        refine ⟨.ok term, 1, fun fuel more => ?_⟩
        obtain ⟨less, rfl⟩ := Nat.exists_eq_add_of_le' more
        simp only [apply, named, found]
      | some value =>
        obtain ⟨answer, enough, done⟩ := bound name value (.here term named) found
        cases answer with
        | error error =>
          refine ⟨.error error, enough + 1, fun fuel more => ?_⟩
          obtain ⟨less, rfl⟩ := Nat.exists_eq_add_of_le' (Nat.le_of_add_left_le more)
          simp only [apply, named, found, done less (by omega)]
        | ok next =>
          refine ⟨.ok (if ast.equal next term then term else next), enough + 1, fun fuel more => ?_⟩
          obtain ⟨less, rfl⟩ := Nat.exists_eq_add_of_le' (Nat.le_of_add_left_le more)
          simp only [apply, named, found, done less (by omega)]
    | none =>
      have kidsDone : ∀ kid ∈ ast.children term, Terminates ast subst kid := fun kid member =>
        ih (size kid) (measured ▸ smaller term kid member) kid
          (fun name value mentions => bound name value (.inside term kid named member mentions)) rfl
      by_cases childless : (ast.children term).length = 0
      · refine ⟨.ok term, 1, fun fuel more => ?_⟩
        obtain ⟨less, rfl⟩ := Nat.exists_eq_add_of_le' more
        simp only [apply, named, if_pos childless]
      · obtain ⟨answer, enough, done⟩ := applyAll_terminates kidsDone
        cases answer with
        | error error =>
          refine ⟨.error error, enough + 1, fun fuel more => ?_⟩
          obtain ⟨less, rfl⟩ := Nat.exists_eq_add_of_le' (Nat.le_of_add_left_le more)
          simp only [apply, named, if_neg childless, done less (by omega)]
        | ok applied =>
          refine ⟨if applied = ast.children term then .ok term else ast.rebuild term applied,
            enough + 1, fun fuel more => ?_⟩
          obtain ⟨less, rfl⟩ := Nat.exists_eq_add_of_le' (Nat.le_of_add_left_le more)
          simp only [apply, named, if_neg childless, done less (by omega)]

theorem AcyclicBindings.terminates {size : Node → Nat}
    (smaller : ∀ node kid, kid ∈ ast.children node → size kid < size node)
    (acyclic : AcyclicBindings ast subst) (term : Node) : Terminates ast subst term := by
  have values : ∀ name value, subst.get name = some value → Terminates ast subst value := by
    intro name
    induction name using acyclic.wellFounded.induction with
    | _ name ih =>
      intro value found
      exact terminates_of_bound smaller value fun other bound mentions otherFound =>
        ih other ⟨value, found, mentions⟩ bound otherFound
  exact terminates_of_bound smaller term fun name value _ found => values name value found

/-! ### The unifier -/

/-- A call that checks occurrences answers with bindings free of cycles where its occurs check
is not misled, and over resolved pairs only there. Substituting by such bindings terminates. -/
theorem unify_acyclic {size : Node → Nat}
    (smaller : ∀ node kid, kid ∈ ast.children node → size kid < size node)
    {unifier : Unifier Node} {call : Call Node} (answers : MemoAnswers ast unifier call)
    (checked : call.occursCheck = true) (acyclic : AcyclicBindings ast call.subst)
    {result : Substitution Node} (done : (unifier.unify ast call).1 = some result) :
    (OccursFound ast call →
        AcyclicBindings ast result ∧ ∀ term, Terminates ast result term) ∧
      ((∀ visit ∈ call.visits ast, visit.Resolved ast) →
        (AcyclicBindings ast result ↔ OccursFound ast call)) := by
  obtain ⟨walk, solved, same⟩ := exists_walk answers done
  have transfer : AcyclicBindings ast result ↔ AcyclicBindings ast walk.work :=
    ⟨.congr fun key => (same key).symm, .congr same⟩
  refine ⟨fun found => ?_, fun resolved => ?_⟩
  · have free := transfer.mpr (solve_acyclic checked found acyclic solved)
    exact ⟨free, free.terminates smaller⟩
  · rw [transfer]
    exact solve_acyclic_iff checked resolved acyclic solved

end OccursCheck

end Senars.Unify
