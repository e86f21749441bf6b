/-
This file is the dispatch of rules: an index with a bucket for every pair of kinds, and the store
that projects its table into it. A change of the table is several assignments one after the other,
and may throw.

The index is rebuilt with each change, so it is the projection of the table until a rule is
registered in it directly.
-/

import Senars.Cycle.Authorize
import Senars.Library.Runs
import Senars.Proposals.RuleTable
import Senars.Terms.Term

namespace Senars.Proposals

open Library Kernel Terms

variable {Body : Type}

/-! ### The index -/

/-- The kind of a term: an operator, or none for an atom. -/
abbrev TermKind := Option OperatorKey

def TermKind.name : TermKind → String
  | none => "atom"
  | some operator => operator.name

def bucketKey (left right : String) : String := left ++ ":" ++ right

/-- A bucket for every pair of kinds a rule was registered under. -/
structure RuleIndex (Body : Type) where
  rulesByType : OrderedMap String (List (RegisteredRule Body)) := .empty

/-- Rules by priority, from the greatest down. The priorities of a table are finite. -/
def byPriority : Comparison (RegisteredRule Body) := Cycle.descending.comap (·.priority)

namespace RuleIndex

/-- What is under a key. -/
def bucket (index : RuleIndex Body) (key : String) : List (RegisteredRule Body) :=
  (index.rulesByType.get key).getD []

def register (index : RuleIndex Body) (rule : RegisteredRule Body) : RuleIndex Body where
  rulesByType :=
    let key := bucketKey rule.pattern.left rule.pattern.right
    index.rulesByType.set key (byPriority.toSorted (index.bucket key ++ [rule]))

def candidates (index : RuleIndex Body) (left right : TermKind) : List (RegisteredRule Body) :=
  index.bucket (bucketKey left.name right.name)

/-- The index of some rules, registered one after the other. -/
def ofRules (rules : List (RegisteredRule Body)) : RuleIndex Body := rules.foldl register {}

end RuleIndex

/-! ### The store with its index -/

/-- A rule table and the index it projects into. -/
structure DispatchingStore (bodies : RuleBodies Body) extends RuleTableStore bodies where
  dispatch : RuleIndex Body

namespace DispatchingStore

variable {bodies : RuleBodies Body}

/-- A store with the index of its artifact. -/
def project (store : RuleTableStore bodies) : DispatchingStore bodies :=
  { store with dispatch := .ofRules (resolveTable store.current bodies).rules }

/-- Load an artifact from outside. -/
def load (artifact : RuleTable) (bodies : RuleBodies Body) :
    Except RuleTableError (DispatchingStore bodies) :=
  (RuleTableStore.load artifact bodies).map project

/-- A change of a store, which returns or throws. What was assigned before stays assigned. -/
abbrev Change (bodies : RuleBodies Body) (Result : Type) :=
  ExceptT RuleTableError (StateM (DispatchingStore bodies)) Result

def replace (next : RuleTable) : Change bodies Unit :=
  if resolved : (resolveTable next bodies).faults = [] then do
    modify fun store => { store with current := next, resolved }
    modify fun store =>
      { store with history := pushCapped store.history store.current ruleTableMaxHistory }
    modify fun store => { store with dispatch := .ofRules (resolveTable next bodies).rules }
  else throw (.faults (resolveTable next bodies).faults)

/-- Take a declaration at a revision. -/
def admitDeclaration (declaration : RuleDeclaration) (revision : Nat)
    (parentRevision : Option Nat) (admitted : RuleTableStore.AdmittedProposal) :
    Change bodies RuleArtifactEntry := do
  let store ← get
  if revision ≤ store.current.revision then
    throw <| .faults
      [⟨declaration.ruleId, .artifactVersion,
        s!"revision r{revision} does not advance r{store.current.revision}"⟩]
  let entry := store.entryOf declaration revision parentRevision admitted
  replace { store.current with revision, entries := store.current.entries ++ [entry] }
  return entry

/-- The last of the retained tables of a revision. -/
def retained (history : List RuleTable) (revision : Nat) : Option RuleTable :=
  (history.filter (·.revision = revision)).getLast?

/-- Roll the table back to a revision. -/
def revert (revision : Nat) : Change bodies RuleTable := do
  let store ← get
  match retained store.history revision with
  | none =>
    throw <| .faults [⟨"(table)", .artifactVersion, s!"no retained revision r{revision}"⟩]
  | some target =>
    replace target
    return target

/-- Register a rule in the index that was handed out. -/
def register (store : DispatchingStore bodies) (rule : RegisteredRule Body) :
    DispatchingStore bodies :=
  { store with dispatch := store.dispatch.register rule }

/-- Clear the index that was handed out, and the table with it. -/
def clear (store : DispatchingStore bodies) : DispatchingStore bodies :=
  { store with
    dispatch := {}
    current := tableArtifact []
    history := [tableArtifact []]
    resolved := (RuleTableStore.empty bodies).resolved }

/-- What a change of a store comes to, and the store it leaves. -/
def outcome {Result : Type} (change : Change bodies Result) (store : DispatchingStore bodies) :
    Except RuleTableError Result × DispatchingStore bodies :=
  change.run.run store

section

variable {First Result : Type} {change : Change bodies First} {rest : First → Change bodies Result}
  {store after : DispatchingStore bodies}

theorem outcome_bind_ok {value} (returned : outcome change store = (.ok value, after)) :
    outcome (change >>= rest) store = outcome (rest value) after := by
  unfold outcome at returned ⊢
  rw [ExceptT.run_bind, StateT.run_bind, returned]
  rfl

theorem outcome_bind_error {error} (thrown : outcome change store = (.error error, after)) :
    outcome (change >>= rest) store = (.error error, after) := by
  unfold outcome at thrown ⊢
  rw [ExceptT.run_bind, StateT.run_bind, thrown]
  rfl

end

/-- The store after a table took the place of another. -/
def replaced (store : DispatchingStore bodies) (next : RuleTable)
    (resolved : (resolveTable next bodies).faults = []) : DispatchingStore bodies where
  current := next
  history := pushCapped store.history next ruleTableMaxHistory
  resolved
  dispatch := .ofRules (resolveTable next bodies).rules

theorem replace_outcome (store : DispatchingStore bodies) (next : RuleTable) :
    (∃ resolved, outcome (replace next) store = (.ok (), store.replaced next resolved)) ∨
      ∃ error, outcome (replace next) store = (.error error, store) ∧
        (resolveTable next bodies).faults ≠ [] := by
  unfold replace
  by_cases resolved : (resolveTable next bodies).faults = []
  · rw [dif_pos resolved]
    exact .inl ⟨resolved, rfl⟩
  · rw [dif_neg resolved]
    exact .inr ⟨_, rfl, resolved⟩

theorem admitDeclaration_outcome (store : DispatchingStore bodies) (declaration : RuleDeclaration)
    (revision : Nat) (parentRevision : Option Nat) (admitted : RuleTableStore.AdmittedProposal) :
    (∃ resolved, outcome (admitDeclaration declaration revision parentRevision admitted) store =
        (.ok (store.entryOf declaration revision parentRevision admitted),
          store.replaced (store.extended declaration revision parentRevision admitted) resolved) ∧
        store.current.revision < revision) ∨
      ∃ error, outcome (admitDeclaration declaration revision parentRevision admitted) store =
        (.error error, store) := by
  unfold admitDeclaration
  rw [outcome_bind_ok (show outcome get store = (.ok store, store) from rfl)]
  by_cases behind : revision ≤ store.current.revision
  · rw [if_pos behind]
    exact .inr ⟨_, rfl⟩
  · rw [if_neg behind]
    rcases replace_outcome store (store.extended declaration revision parentRevision admitted) with
      ⟨resolved, done⟩ | ⟨error, thrown, _⟩
    · exact .inl ⟨resolved, outcome_bind_ok done, Nat.not_le.mp behind⟩
    · exact .inr ⟨error, outcome_bind_error thrown⟩

theorem revert_outcome (store : DispatchingStore bodies) (revision : Nat) :
    (∃ target resolved, retained store.history revision = some target ∧
        outcome (revert revision) store = (.ok target, store.replaced target resolved)) ∨
      ∃ error, outcome (revert revision) store = (.error error, store) ∧
        ∀ target, retained store.history revision = some target →
          (resolveTable target bodies).faults ≠ [] := by
  unfold revert
  rw [outcome_bind_ok (show outcome get store = (.ok store, store) from rfl)]
  cases found : retained store.history revision with
  | none => exact .inr ⟨_, rfl, nofun⟩
  | some target =>
    rcases replace_outcome store target with ⟨resolved, done⟩ | ⟨error, thrown, faulty⟩
    · exact .inl ⟨target, resolved, rfl, outcome_bind_ok done⟩
    · refine .inr ⟨error, outcome_bind_error thrown, fun other same => ?_⟩
      cases same
      exact faulty

end DispatchingStore

/-! ### Runs -/

/-- A store, and the entries that were committed last at each revision. -/
structure TableHistory (bodies : RuleBodies Body) where
  store : DispatchingStore bodies
  committed : Nat → Option (List RuleArtifactEntry)

inductive TableEvent (Body : Type) where
  | admitDeclaration (declaration : RuleDeclaration) (revision : Nat) (parentRevision : Option Nat)
      (admitted : RuleTableStore.AdmittedProposal)
  | revert (revision : Nat)
  | register (rule : RegisteredRule Body)
  | clear

variable {bodies : RuleBodies Body}

open DispatchingStore in
/-- One call. A declaration that is taken, and a table that is cleared, are committed at their
revisions. -/
def tableStep : Machine (TableHistory bodies) (TableEvent Body)
  | history, .admitDeclaration declaration revision parentRevision admitted =>
    match outcome (admitDeclaration declaration revision parentRevision admitted) history.store with
    | (.ok _, store) =>
      some ⟨store, Function.update history.committed revision (some store.entries)⟩
    | (.error _, store) => some { history with store }
  | history, .revert revision =>
    some { history with store := (outcome (DispatchingStore.revert revision) history.store).2 }
  | history, .register rule => some { history with store := history.store.register rule }
  | history, .clear =>
    some ⟨history.store.clear, Function.update history.committed 0 (some [])⟩

/-- What a call does. The table is replaced by one that resolves, or the history stays as it is, or
a rule is registered in the index, or the table is cleared. -/
inductive TableMoves (history : TableHistory bodies) :
    TableEvent Body → TableHistory bodies → Prop
  | admitted (declaration : RuleDeclaration) (revision : Nat) (parentRevision : Option Nat)
      (admitted : RuleTableStore.AdmittedProposal)
      (resolved : (resolveTable
        (history.store.extended declaration revision parentRevision admitted) bodies).faults = []) :
      TableMoves history (.admitDeclaration declaration revision parentRevision admitted)
        ⟨history.store.replaced
            (history.store.extended declaration revision parentRevision admitted) resolved,
          Function.update history.committed revision (some (history.store.replaced
            (history.store.extended declaration revision parentRevision admitted)
              resolved).entries)⟩
  | reverted {target : RuleTable} (revision : Nat)
      (resolved : (resolveTable target bodies).faults = [])
      (found : DispatchingStore.retained history.store.history revision = some target) :
      TableMoves history (.revert revision)
        { history with store := history.store.replaced target resolved }
  | refused {event : TableEvent Body} (unregistered : ∀ rule, event ≠ .register rule) :
      TableMoves history event history
  | register (rule : RegisteredRule Body) :
      TableMoves history (.register rule) { history with store := history.store.register rule }
  | clear : TableMoves history .clear
      ⟨history.store.clear, Function.update history.committed 0 (some [])⟩

variable {history next : TableHistory bodies} {event : TableEvent Body}
  {store : DispatchingStore bodies} {target : RuleTable}

theorem moves_of_tableStep (taken : tableStep history event = some next) :
    TableMoves history event next := by
  cases event with
  | admitDeclaration declaration revision parentRevision admitted =>
    unfold tableStep at taken
    dsimp only at taken
    rcases history.store.admitDeclaration_outcome declaration revision parentRevision admitted with
      ⟨resolved, done, _⟩ | ⟨error, thrown⟩
    · rw [done] at taken
      cases taken
      exact .admitted declaration revision parentRevision admitted resolved
    · rw [thrown] at taken
      cases taken
      exact .refused nofun
  | revert revision =>
    cases taken
    rcases history.store.revert_outcome revision with
      ⟨target, resolved, found, done⟩ | ⟨error, thrown, _⟩
    · rw [done]
      exact .reverted revision resolved found
    · rw [thrown]
      exact .refused nofun
  | register rule =>
    cases taken
    exact .register rule
  | clear =>
    cases taken
    exact .clear

/-- The history of a store that was loaded. -/
def loadedHistory (store : DispatchingStore bodies) : TableHistory bodies where
  store
  committed := Function.update (fun _ => none) store.revision (some store.entries)

/-! ### The index of a table -/

/-- The candidates of every pair of kinds are the rules of the table for the pair, by priority and
then in the order of the entries. -/
def Projects (store : DispatchingStore bodies) : Prop :=
  ∀ left right : TermKind, store.dispatch.candidates left right =
    byPriority.toSorted ((resolveTable store.current bodies).rules.filter
      (·.pattern = ⟨left.name, right.name⟩))

theorem TermKind.name_clear (kind : TermKind) : ':' ∉ kind.name.toList := by
  cases kind with
  | none => decide
  | some operator => cases operator <;> decide

theorem split_unique {Value : Type} {separator : Value} {before after first second}
    (firstClear : separator ∉ first) (secondClear : separator ∉ second)
    (same : before ++ separator :: after = first ++ separator :: second) :
    before = first ∧ after = second := by
  rcases List.append_eq_append_iff.mp same with ⟨more, rfl, rest⟩ | ⟨more, rfl, rest⟩
  · cases more with
    | nil => exact ⟨(List.append_nil _).symm, List.tail_eq_of_cons_eq rest⟩
    | cons head tail =>
      cases List.head_eq_of_cons_eq rest
      simp at firstClear
  · cases more with
    | nil => exact ⟨List.append_nil _, (List.tail_eq_of_cons_eq rest).symm⟩
    | cons head tail =>
      rw [List.tail_eq_of_cons_eq rest] at secondClear
      simp at secondClear

theorem bucketKey_eq_iff {left right} {leftKind rightKind : TermKind} :
    bucketKey left right = bucketKey leftKind.name rightKind.name ↔
      left = leftKind.name ∧ right = rightKind.name := by
  constructor
  · intro same
    have chars : left.toList ++ ':' :: right.toList =
        leftKind.name.toList ++ ':' :: rightKind.name.toList := by
      simpa [bucketKey] using congrArg String.toList same
    obtain ⟨lefts, rights⟩ := split_unique leftKind.name_clear rightKind.name_clear chars
    exact ⟨String.toList_injective lefts, String.toList_injective rights⟩
  · rintro ⟨rfl, rfl⟩
    rfl

theorem bucket_register (index : RuleIndex Body) (rule : RegisteredRule Body) (key : String) :
    (index.register rule).bucket key =
      if key = bucketKey rule.pattern.left rule.pattern.right then
        byPriority.toSorted (index.bucket key ++ [rule])
      else index.bucket key := by
  unfold RuleIndex.register
  rw [RuleIndex.bucket, OrderedMap.get_set]
  split
  · next same =>
    rw [same]
    rfl
  · rfl

theorem bucket_ofRules (rules : List (RegisteredRule Body)) (key : String) :
    (RuleIndex.ofRules rules).bucket key =
      byPriority.toSorted (rules.filter
        fun rule => bucketKey rule.pattern.left rule.pattern.right = key) := by
  induction rules using List.reverseRecOn with
  | nil => rfl
  | append_singleton rules rule ih =>
    have registered : RuleIndex.ofRules (rules ++ [rule]) =
        (RuleIndex.ofRules rules).register rule := List.foldl_append
    rw [registered, bucket_register, List.filter_append]
    split
    · next same =>
      rw [ih, Comparison.toSorted_toSorted_append,
        List.filter_cons_of_pos (by simpa using same.symm), List.filter_nil]
    · next different =>
      rw [ih, List.filter_cons_of_neg (by simpa using Ne.symm different),
        List.filter_nil, List.append_nil]

theorem projects_ofRules (store : DispatchingStore bodies)
    (rebuilt : store.dispatch = .ofRules (resolveTable store.current bodies).rules) :
    Projects store := by
  intro left right
  rw [RuleIndex.candidates, rebuilt, bucket_ofRules]
  congr 1
  refine List.filter_congr fun rule _ => ?_
  rw [decide_eq_decide, bucketKey_eq_iff]
  exact ⟨fun both => congrArg₂ RulePattern.mk both.1 both.2, fun same => same ▸ ⟨rfl, rfl⟩⟩

theorem DispatchingStore.projects_replaced (store : DispatchingStore bodies) (next : RuleTable)
    (resolved : (resolveTable next bodies).faults = []) :
    Projects (store.replaced next resolved) :=
  projects_ofRules _ rfl

theorem projects_clear (store : DispatchingStore bodies) : Projects store.clear :=
  projects_ofRules _ rfl

theorem projects_of_loaded {artifact} (loaded : DispatchingStore.load artifact bodies = .ok store) :
    Projects store := by
  unfold DispatchingStore.load at loaded
  cases load : RuleTableStore.load artifact bodies with
  | error error =>
    rw [load] at loaded
    cases loaded
  | ok table =>
    rw [load] at loaded
    cases loaded
    exact projects_ofRules _ rfl

/-- A rule is registered directly, for a pair of kinds. -/
def RegistersFor (event : TableEvent Body) : Prop :=
  ∃ rule : RegisteredRule Body, ∃ left right : TermKind, event = .register rule ∧
    rule.pattern = ⟨left.name, right.name⟩

theorem projects_register_iff (projects : Projects store) (rule : RegisteredRule Body) :
    Projects (store.register rule) ↔
      ∀ left right : TermKind, rule.pattern ≠ ⟨left.name, right.name⟩ := by
  have candidates : ∀ left right : TermKind, (store.register rule).dispatch.candidates left right =
      if bucketKey left.name right.name = bucketKey rule.pattern.left rule.pattern.right then
        byPriority.toSorted (store.dispatch.candidates left right ++ [rule])
      else store.dispatch.candidates left right :=
    fun left right => bucket_register store.dispatch rule _
  constructor
  · intro projects' left right same
    have grown := candidates left right
    rw [projects' left right, if_pos (by rw [same])] at grown
    have lengths := congrArg List.length grown
    rw [(byPriority.toSorted_perm (_ ++ [rule])).length_eq, List.length_append,
      projects left right] at lengths
    simp [DispatchingStore.register] at lengths
  · intro others left right
    rw [candidates, if_neg, projects left right]
    · rfl
    · intro same
      obtain ⟨lefts, rights⟩ := bucketKey_eq_iff.mp same.symm
      exact others left right (congrArg₂ RulePattern.mk lefts rights)

theorem projects_step_iff (projects : Projects history.store)
    (taken : tableStep history event = some next) : ¬ RegistersFor event ↔ Projects next.store := by
  have other : ∀ {event : TableEvent Body}, (∀ rule, event ≠ .register rule) →
      ¬ RegistersFor event := by
    rintro event unregistered ⟨rule, _, _, same, _⟩
    exact unregistered rule same
  cases moves_of_tableStep taken with
  | admitted declaration revision parentRevision admitted resolved =>
    exact iff_of_true (other nofun) (history.store.projects_replaced _ resolved)
  | reverted revision resolved found =>
    exact iff_of_true (other nofun) (history.store.projects_replaced _ resolved)
  | refused unregistered => exact iff_of_true (other unregistered) projects
  | register rule =>
    rw [projects_register_iff projects]
    constructor
    · intro unregistered left right same
      exact unregistered ⟨rule, left, right, rfl, same⟩
    · rintro others ⟨_, left, right, same, pattern⟩
      cases same
      exact others left right pattern
  | clear => exact iff_of_true (other nofun) (projects_clear history.store)

theorem retained_concat (history : List RuleTable) (next : RuleTable) (revision : Nat) :
    DispatchingStore.retained (history ++ [next]) revision =
      if next.revision = revision then some next
      else DispatchingStore.retained history revision := by
  unfold DispatchingStore.retained
  rw [List.filter_append]
  split
  · next same =>
    rw [List.filter_cons_of_pos (by simpa using same), List.filter_nil, List.getLast?_concat]
  · next different =>
    rw [List.filter_cons_of_neg (by simpa using different), List.filter_nil, List.append_nil]

theorem retained_of_tail {first : RuleTable} {rest} {revision : Nat}
    (found : DispatchingStore.retained rest revision = some target) :
    DispatchingStore.retained (first :: rest) revision = some target := by
  unfold DispatchingStore.retained at found ⊢
  rw [List.filter_cons]
  split
  · rw [List.getLast?_cons, found]
    rfl
  · exact found

theorem retained_pushCapped {history next revision capacity}
    (found : DispatchingStore.retained (pushCapped history next capacity) revision = some target) :
    next.revision = revision ∧ target = next ∨
      next.revision ≠ revision ∧ DispatchingStore.retained history revision = some target := by
  have whole : DispatchingStore.retained (history ++ [next]) revision = some target := by
    unfold pushCapped at found
    dsimp only at found
    split at found
    · cases history with
      | nil => cases found
      | cons first rest => exact retained_of_tail found
    · exact found
  rw [retained_concat] at whole
  split at whole
  · next same => exact .inl ⟨same, (Option.some.inj whole).symm⟩
  · next different => exact .inr ⟨different, whole⟩

/-- Every table that is retained resolves, and the last one of a revision has the entries that were
committed there last. -/
structure RetainsCommitted (history : TableHistory bodies) : Prop where
  resolved : ∀ snapshot ∈ history.store.history, (resolveTable snapshot bodies).faults = []
  committed : ∀ {revision target},
    DispatchingStore.retained history.store.history revision = some target →
      history.committed revision = some target.entries

theorem mem_of_retained {history : List RuleTable} {revision : Nat}
    (found : DispatchingStore.retained history revision = some target) :
    target ∈ history ∧ target.revision = revision := by
  have member := List.mem_filter.mp (List.mem_of_getLast? found)
  exact ⟨member.1, of_decide_eq_true member.2⟩

theorem retained_of_mem {history : List RuleTable} {snapshot : RuleTable}
    (member : snapshot ∈ history) :
    ∃ target, DispatchingStore.retained history snapshot.revision = some target := by
  have among : snapshot ∈ history.filter (·.revision = snapshot.revision) :=
    List.mem_filter.mpr ⟨member, by simp⟩
  exact ⟨_, List.getLast?_eq_some_getLast (List.ne_nil_of_mem among)⟩

theorem RetainsCommitted.replaced {history} (retains : RetainsCommitted history)
    {next : RuleTable} (resolved : (resolveTable next bodies).faults = []) {committed}
    (here : committed next.revision = some next.entries)
    (elsewhere : ∀ revision, revision ≠ next.revision →
      committed revision = history.committed revision) :
    RetainsCommitted ⟨history.store.replaced next resolved, committed⟩ where
  resolved snapshot member := by
    rcases mem_pushCapped member with old | rfl
    · exact retains.resolved snapshot old
    · exact resolved
  committed found := by
    rcases retained_pushCapped found with ⟨rfl, rfl⟩ | ⟨different, before⟩
    · exact here
    · exact (elsewhere _ (Ne.symm different)).trans (retains.committed before)

theorem RetainsCommitted.step (retains : RetainsCommitted history)
    (taken : tableStep history event = some next) : RetainsCommitted next := by
  cases moves_of_tableStep taken with
  | admitted declaration revision parentRevision admitted resolved =>
    refine retains.replaced resolved (Function.update_self _ _ _) fun other different => ?_
    exact Function.update_of_ne different _ _
  | reverted revision resolved found =>
    obtain ⟨_, rfl⟩ := mem_of_retained found
    exact retains.replaced resolved (retains.committed found) fun _ _ => rfl
  | refused => exact retains
  | register rule => exact ⟨retains.resolved, retains.committed⟩
  | clear =>
    refine ⟨fun snapshot member => ?_, fun {revision target} found => ?_⟩
    · obtain rfl := List.mem_singleton.mp member
      rfl
    · obtain ⟨member, rfl⟩ := mem_of_retained found
      obtain rfl := List.mem_singleton.mp member
      rfl

theorem retainsCommitted_of_loaded {artifact}
    (loaded : DispatchingStore.load artifact bodies = .ok store) :
    RetainsCommitted (loadedHistory store) := by
  have single : store.history = [store.current] := by
    unfold DispatchingStore.load RuleTableStore.load RuleTableStore.ofArtifact at loaded
    split at loaded
    · split at loaded
      · cases loaded
        rfl
      · cases loaded
    · cases loaded
  refine ⟨fun snapshot member => ?_, fun {revision target} found => ?_⟩
  · rw [loadedHistory, single] at member
    rw [List.mem_singleton.mp member]
    exact store.resolved
  · obtain ⟨member, rfl⟩ := mem_of_retained found
    rw [loadedHistory, single] at member
    obtain rfl := List.mem_singleton.mp member
    exact Function.update_self store.revision _ fun _ => none

/-- A change of a store that fails leaves it as it was. -/
def Atomic {Result : Type} (change : DispatchingStore.Change bodies Result)
    (store : DispatchingStore bodies) : Prop :=
  ∀ error, (DispatchingStore.outcome change store).1 = .error error →
    (DispatchingStore.outcome change store).2 = store

/-- What holds of the changes of a store in a history. -/
structure Reversible (history : TableHistory bodies) : Prop where
  admits : ∀ declaration revision parentRevision admitted, Atomic
    (DispatchingStore.admitDeclaration declaration revision parentRevision admitted) history.store
  reverts : ∀ revision, Atomic (DispatchingStore.revert revision) history.store
  /-- A revision that is retained is restored with the entries that were committed there. -/
  restores : ∀ snapshot ∈ history.store.history, ∃ target after,
    DispatchingStore.outcome (DispatchingStore.revert snapshot.revision) history.store =
        (.ok target, after) ∧
      history.committed snapshot.revision = some after.entries

theorem RetainsCommitted.reversible (retains : RetainsCommitted history) : Reversible history where
  admits declaration revision parentRevision admitted error isError := by
    rcases history.store.admitDeclaration_outcome declaration revision parentRevision admitted with
      ⟨resolved, done, _⟩ | ⟨error, thrown⟩
    · rw [done] at isError
      cases isError
    · rw [thrown]
  reverts revision error isError := by
    rcases history.store.revert_outcome revision with
      ⟨target, resolved, _, done⟩ | ⟨error, thrown, _⟩
    · rw [done] at isError
      cases isError
    · rw [thrown]
  restores snapshot member := by
    obtain ⟨target, found⟩ := retained_of_mem member
    rcases history.store.revert_outcome snapshot.revision with
      ⟨other, resolved, same, done⟩ | ⟨error, _, faulty⟩
    · refine ⟨other, _, done, ?_⟩
      exact retains.committed same
    · exact absurd (retains.resolved target (mem_of_retained found).1) (faulty target found)

/-- In any run from a table that was loaded, a change that fails leaves the store as it was, and a
revision that is retained is restored with the entries that were committed there last. -/
theorem reversible_of_run {artifact : RuleTable} {first : DispatchingStore bodies}
    {events : List (TableEvent Body)} {last : TableHistory bodies}
    (loaded : DispatchingStore.load artifact bodies = .ok first)
    (run : Run tableStep (loadedHistory first) events last) : Reversible last := by
  have steps : ∀ (history : TableHistory bodies) (event : TableEvent Body) next,
      RetainsCommitted history → tableStep history event = some next → RetainsCommitted next :=
    fun _ _ _ retains taken => retains.step taken
  exact (run.keeps steps (retainsCommitted_of_loaded loaded)).reversible

/-! ### A rule of its own and a phantom -/

def learnedDeclaration : RuleDeclaration where
  left := "inheritance"
  right := "inheritance"
  ruleId := "test:learned"
  description := "a learned rule"
  truthFn := "deduction"
  body := "nal:deduction"
  priority := .finite (1 / 2)

def learningBodies : RuleBodies Unit := OrderedMap.ofList [("nal:deduction", ())]

def emptyStore : DispatchingStore learningBodies := .project (.empty learningBodies)

/-- Learn a rule, and roll it back. -/
def learnAndRevert : List (TableEvent Unit) :=
  [.admitDeclaration learnedDeclaration 1 (some 0) { proposalId := "rp-1" }, .revert 0]

/-- The history of a table that was empty. -/
def historyOf (events : List (TableEvent Unit)) : TableHistory learningBodies :=
  (execute tableStep (loadedHistory emptyStore) events).getD (loadedHistory emptyStore)

theorem reversible_of_run_learned : Reversible (historyOf learnAndRevert) := by
  have run : Run tableStep (loadedHistory emptyStore) learnAndRevert (historyOf learnAndRevert) :=
    run_of_execute rfl
  have loaded : DispatchingStore.load (tableArtifact []) learningBodies = .ok emptyStore := rfl
  exact reversible_of_run loaded run

/-- A rule that no artifact has. -/
def phantom : RegisteredRule Unit where
  id := "test:phantom"
  pattern := ⟨"atom", "atom"⟩
  apply := .registered ()
  priority := 1
  truthFnName := "deduction"
  taskType := none

end Senars.Proposals
