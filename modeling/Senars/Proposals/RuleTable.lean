/-
This file is the rule table: the entries of an artifact resolved against the bodies
that are registered, and the store, which takes a declaration at a revision and is
rebuilt from recorded events.

A store holds an artifact without faults, which the structure carries. A body is
looked up as a property of an object, so the names every object has resolve too.
-/

import Senars.Library.OrderedMap
import Senars.Proposals.Schemas

namespace Senars.Proposals

open Library Kernel

variable {Body : Type}

/-! ### Bodies -/

/-- The bodies of rules, by the name they are registered under. -/
abbrev RuleBodies (Body : Type) := OrderedMap String Body

/-- What a name of a body resolves to. -/
inductive ResolvedBody (Body : Type) where
  | registered (body : Body)
  | inherited (member : String)

/-- The members every object inherits. -/
def objectMembers : List String :=
  ["constructor", "__defineGetter__", "__defineSetter__", "hasOwnProperty", "__lookupGetter__",
    "__lookupSetter__", "isPrototypeOf", "propertyIsEnumerable", "toString", "valueOf",
    "__proto__", "toLocaleString"]

/-- The property of the object of the bodies. -/
def lookupBody (bodies : RuleBodies Body) (name : String) : Option (ResolvedBody Body) :=
  match bodies.get name with
  | some body => some (.registered body)
  | none => if name ∈ objectMembers then some (.inherited name) else none

/-! ### Resolving an artifact -/

def unresolvedBody (ruleId body : String) : RuleTableFault where
  ruleId
  reason := .unresolvedBody
  detail := s!"no implementation registered for body '{body}'"

def builtinEntries (declarations : List RuleDeclaration) : List RuleArtifactEntry :=
  declarations.map fun declaration =>
    { declaration with
      artifactVersion := builtinRuleArtifactVersion
      ruleSetRevision := 0
      parentRevision := none
      ruleSchemaVersion := ruleTableSchemaVersion
      provenance := .builtin }

def tableArtifact (entries : List RuleArtifactEntry) : RuleTable where
  schemaVersion := ruleTableSchemaVersion
  artifactVersion := builtinRuleArtifactVersion
  revision := (entries.map (·.ruleSetRevision)).foldl max 0
  entries

structure RegisteredRule (Body : Type) where
  id : String
  pattern : RulePattern
  apply : ResolvedBody Body
  priority : JsNumber
  truthFnName : String
  taskType : Option TaskType

/-- What becomes of one entry, after the ids that were seen: a rule or a fault. -/
def resolveEntry (bodies : RuleBodies Body) (seen : List String) (entry : RuleArtifactEntry) :
    Except RuleTableFault (RegisteredRule Body) :=
  if entry.ruleId = "" then
    .error ⟨"(entry)", .emptyId, "an entry has no ruleId"⟩
  else if entry.ruleId ∈ seen then
    .error ⟨entry.ruleId, .duplicateRuleId, "two entries declare the same ruleId"⟩
  else
    match lookupBody bodies entry.body with
    | none => .error (unresolvedBody entry.ruleId entry.body)
    | some body =>
      .ok
        { id := entry.ruleId
          pattern := entry.toRulePattern
          apply := body
          priority := entry.priority
          truthFnName := entry.truthFn
          taskType := entry.taskType }

/-- Resolve entries one after the other. An id is seen once its entry is passed: the empty one
is refused before it is looked for. -/
def resolveEntries (bodies : RuleBodies Body) (seen : List String) :
    List RuleArtifactEntry → List (RegisteredRule Body) × List RuleTableFault
  | [] => ([], [])
  | entry :: rest =>
    let (rules, faults) := resolveEntries bodies (seen ++ [entry.ruleId]) rest
    match resolveEntry bodies seen entry with
    | .ok rule => (rule :: rules, faults)
    | .error fault => (rules, fault :: faults)

structure Resolution (Body : Type) where
  rules : List (RegisteredRule Body)
  entries : List RuleArtifactEntry
  faults : List RuleTableFault

def resolveTable (artifact : RuleTable) (bodies : RuleBodies Body) : Resolution Body :=
  if artifact.schemaVersion ≠ ruleTableSchemaVersion then
    { rules := []
      entries := []
      faults :=
        [⟨"(table)", .schemaVersion,
          s!"artifact v{artifact.schemaVersion} against a core at v{ruleTableSchemaVersion}"⟩] }
  else
    let (rules, faults) := resolveEntries bodies [] artifact.entries
    { rules, entries := artifact.entries, faults }

theorem faults_append (bodies : RuleBodies Body) (seen : List String)
    (first second : List RuleArtifactEntry) :
    (resolveEntries bodies seen (first ++ second)).2 =
      (resolveEntries bodies seen first).2 ++
        (resolveEntries bodies (seen ++ first.map (·.ruleId)) second).2 := by
  induction first generalizing seen with
  | nil => simp [resolveEntries]
  | cons entry rest ih =>
    have later := ih (seen ++ [entry.ruleId])
    rw [List.append_assoc] at later
    rw [List.cons_append, resolveEntries, resolveEntries]
    cases resolveEntry bodies seen entry with
    | ok rule => exact later
    | error fault => exact congrArg (fault :: ·) later

/-- A declaration loads after some ids: it has a name, a new one, and its body resolves. -/
def Loads (bodies : RuleBodies Body) (seen : List String) (declaration : RuleDeclaration) : Prop :=
  declaration.ruleId ≠ "" ∧ declaration.ruleId ∉ seen ∧
    (lookupBody bodies declaration.body).isSome

instance (bodies : RuleBodies Body) (seen : List String) (declaration : RuleDeclaration) :
    Decidable (Loads bodies seen declaration) :=
  inferInstanceAs (Decidable (_ ∧ _ ∧ _))

theorem faults_single {bodies : RuleBodies Body} {seen entry} :
    (resolveEntries bodies seen [entry]).2 = [] ↔ Loads bodies seen entry.toRuleDeclaration := by
  unfold resolveEntries resolveEntry Loads
  by_cases empty : entry.ruleId = ""
  · simp [empty, resolveEntries]
  · by_cases known : entry.ruleId ∈ seen
    · simp [empty, known, resolveEntries]
    · cases lookupBody bodies entry.body with
      | none => simp [empty, known, resolveEntries]
      | some body => simp [empty, known, resolveEntries]

theorem faults_extend_iff {bodies : RuleBodies Body} {artifact}
    (resolved : (resolveTable artifact bodies).faults = []) (revision : Nat)
    (entry : RuleArtifactEntry) :
    (resolveTable { artifact with revision, entries := artifact.entries ++ [entry] }
        bodies).faults = [] ↔
      Loads bodies (artifact.entries.map (·.ruleId)) entry.toRuleDeclaration := by
  unfold resolveTable at resolved ⊢
  split at resolved
  · cases resolved
  · rename_i version
    rw [if_neg version]
    show (resolveEntries bodies [] (artifact.entries ++ [entry])).2 = [] ↔ _
    rw [faults_append, show (resolveEntries bodies [] artifact.entries).2 = [] from resolved,
      List.nil_append, List.nil_append, faults_single]

/-! ### The store -/

def ruleTableMaxHistory : Nat := 50

/-- A loaded table, and the revisions before it. -/
structure RuleTableStore (bodies : RuleBodies Body) where
  current : RuleTable
  history : List RuleTable
  resolved : (resolveTable current bodies).faults = []

/-- What a table that is not loaded is refused for. -/
inductive RuleTableError where
  | invalid
  | faults (faults : List RuleTableFault)

namespace RuleTableStore

variable {bodies : RuleBodies Body}

def revision (store : RuleTableStore bodies) : Nat := store.current.revision

def entries (store : RuleTableStore bodies) : List RuleArtifactEntry := store.current.entries

/-- The store of an artifact. -/
def ofArtifact (bodies : RuleBodies Body) (artifact : RuleTable) :
    Except RuleTableError (RuleTableStore bodies) :=
  if resolved : (resolveTable artifact bodies).faults = [] then
    .ok { current := artifact, history := [artifact], resolved }
  else .error (.faults (resolveTable artifact bodies).faults)

/-- The store of a table without entries. -/
def empty (bodies : RuleBodies Body) : RuleTableStore bodies where
  current := tableArtifact []
  history := [tableArtifact []]
  resolved := rfl

/-- Load an artifact from outside. -/
def load (artifact : RuleTable) (bodies : RuleBodies Body) :
    Except RuleTableError (RuleTableStore bodies) :=
  if validateRuleTable artifact then ofArtifact bodies artifact else .error .invalid

def replace (store : RuleTableStore bodies) (next : RuleTable) :
    Except RuleTableError (RuleTableStore bodies) :=
  if resolved : (resolveTable next bodies).faults = [] then
    .ok
      { current := next
        history := pushCapped store.history next ruleTableMaxHistory
        resolved }
  else .error (.faults (resolveTable next bodies).faults)

/-- What a store is told of the proposal that is admitted. -/
structure AdmittedProposal where
  proposalId : String
  producer : Option String := none
  eventId : Option String := none

/-- The entry a declaration becomes. -/
def entryOf (store : RuleTableStore bodies) (declaration : RuleDeclaration) (revision : Nat)
    (parentRevision : Option Nat) (admitted : AdmittedProposal) : RuleArtifactEntry :=
  { declaration with
    artifactVersion := store.current.artifactVersion
    ruleSetRevision := revision
    parentRevision
    ruleSchemaVersion := ruleTableSchemaVersion
    provenance := .proposal admitted.proposalId admitted.producer
    eventId := admitted.eventId }

/-- Take a declaration at a revision. -/
def admitDeclaration (store : RuleTableStore bodies) (declaration : RuleDeclaration)
    (revision : Nat) (parentRevision : Option Nat) (admitted : AdmittedProposal) :
    Except RuleTableError (RuleTableStore bodies) :=
  if revision ≤ store.current.revision then
    .error <| .faults
      [⟨declaration.ruleId, .artifactVersion,
        s!"revision r{revision} does not advance r{store.current.revision}"⟩]
  else
    store.replace
      { store.current with
        revision
        entries :=
          store.current.entries ++ [store.entryOf declaration revision parentRevision admitted] }

/-- The artifact that has a declaration as its last entry. -/
def extended (store : RuleTableStore bodies) (declaration : RuleDeclaration) (revision : Nat)
    (parentRevision : Option Nat) (admitted : AdmittedProposal) : RuleTable :=
  { store.current with
    revision
    entries := store.entries ++ [store.entryOf declaration revision parentRevision admitted] }

/-- The ids of the entries. -/
def ruleIds (store : RuleTableStore bodies) : List String := store.entries.map (·.ruleId)

theorem admitDeclaration_eq (store : RuleTableStore bodies) (declaration : RuleDeclaration)
    (revision : Nat) (parentRevision : Option Nat) (admitted : AdmittedProposal) :
    (∃ next, store.admitDeclaration declaration revision parentRevision admitted = .ok next ∧
        next.current = store.extended declaration revision parentRevision admitted ∧
        store.revision < revision ∧ Loads bodies store.ruleIds declaration) ∨
      (∃ error, store.admitDeclaration declaration revision parentRevision admitted =
          .error error) ∧
        ¬ (store.revision < revision ∧ Loads bodies store.ruleIds declaration) := by
  unfold admitDeclaration
  by_cases behind : revision ≤ store.current.revision
  · rw [if_pos behind]
    exact Or.inr ⟨⟨_, rfl⟩, fun advances => Nat.not_lt.mpr behind advances.1⟩
  · have loads := faults_extend_iff store.resolved revision
      (store.entryOf declaration revision parentRevision admitted)
    rw [if_neg behind, replace]
    split
    · rename_i resolved
      exact Or.inl ⟨_, rfl, rfl, Nat.not_le.mp behind, loads.mp resolved⟩
    · rename_i faulty
      exact Or.inr ⟨⟨_, rfl⟩, fun advances => faulty (loads.mpr advances.2)⟩

theorem admitDeclaration_ok {store next : RuleTableStore bodies}
    {declaration revision parentRevision admitted}
    (taken : store.admitDeclaration declaration revision parentRevision admitted = .ok next) :
    next.current = store.extended declaration revision parentRevision admitted ∧
      store.revision < revision ∧ Loads bodies store.ruleIds declaration := by
  rcases store.admitDeclaration_eq declaration revision parentRevision admitted with
    ⟨_, same, facts⟩ | ⟨⟨_, refused⟩, _⟩
  · cases taken.symm.trans same
    exact facts
  · rw [taken] at refused
    cases refused

/-- Replay a recorded event. -/
def replayEvent (store : RuleTableStore bodies) :
    ProposalEvent → Except RuleTableError (RuleTableStore bodies)
  | .rejected _ => .ok store
  | .admitted payload correlationId _ =>
    match payload.kind, payload.declaration with
    | .rule, some declaration =>
      store.admitDeclaration declaration payload.resultingRevision payload.baseRevision
        { proposalId := payload.proposalId, eventId := correlationId }
    | _, _ => .ok store

/-- Rebuild a store from recorded events. -/
def ofEvents (events : List ProposalEvent) (bodies : RuleBodies Body)
    (builtins : List RuleDeclaration) : Except RuleTableError (RuleTableStore bodies) := do
  let store ← load (tableArtifact (builtinEntries builtins)) bodies
  events.foldlM replayEvent store

end RuleTableStore

end Senars.Proposals
