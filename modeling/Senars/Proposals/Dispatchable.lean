/-
This file is about the declarations that pass through the boundary: which of them
become entries of the rule table, and which of them are recorded.

A rule proposal is judged, its commit is recorded, and the table is asked last. The
table does not look at the truth function and takes a body every object inherits,
and what it refuses is recorded all the same. So log and table agree, and only what
is dispatchable enters, exactly where every declaration that is cleared is
dispatchable when its turn comes.
-/

import Senars.Proposals.Landing

namespace Senars.Proposals

open Library Kernel ProposalLifecycle

variable {Body : Type} {bodies : RuleBodies Body}

/-! ### Dispatchable declarations -/

/-- The operations of the truth algebra: what makes a truth of one truth or of two. -/
def truthFunctions : List String :=
  ["negation", "conversion", "comparison", "analogy", "resemblance", "contraposition",
    "intersection", "union", "subtract", "diff", "exemplification", "sameness", "deduction",
    "deductionWeak", "induction", "abduction", "detachment", "revision", "choice",
    "structuralDeduction", "structuralReduction", "revisionWeak", "reinforce", "contradict"]

/-- A declaration can be dispatched after some ids: it has a name, a new one, a body that is
registered, and a truth function. -/
def Dispatchable (bodies : RuleBodies Body) (seen : List String) (declaration : RuleDeclaration) :
    Prop :=
  declaration.ruleId ≠ "" ∧ declaration.ruleId ∉ seen ∧
    (bodies.get declaration.body).isSome ∧ declaration.truthFn ∈ truthFunctions

instance (bodies : RuleBodies Body) (seen : List String) (declaration : RuleDeclaration) :
    Decidable (Dispatchable bodies seen declaration) :=
  inferInstanceAs (Decidable (_ ∧ _ ∧ _ ∧ _))

/-- The declarations that can be dispatched, each after those before it. -/
def dispatchableOf (bodies : RuleBodies Body) (seen : List String) :
    List RuleDeclaration → List RuleDeclaration
  | [] => []
  | declaration :: rest =>
    if Dispatchable bodies seen declaration then
      declaration :: dispatchableOf bodies (seen ++ [declaration.ruleId]) rest
    else dispatchableOf bodies seen rest

/-- Every declaration can be dispatched when its turn comes. -/
def AllDispatchable (bodies : RuleBodies Body) (seen : List String) :
    List RuleDeclaration → Prop
  | [] => True
  | declaration :: rest =>
    Dispatchable bodies seen declaration ∧
      AllDispatchable bodies (seen ++ [declaration.ruleId]) rest

variable {declaration : RuleDeclaration} {declarations : List RuleDeclaration}
  {seam next : Seam bodies} {proposal : Proposal}

theorem Dispatchable.loads {seen} (dispatchable : Dispatchable bodies seen declaration) :
    Loads bodies seen declaration := by
  obtain ⟨named, new, registered, _⟩ := dispatchable
  refine ⟨named, new, ?_⟩
  obtain ⟨body, found⟩ := Option.isSome_iff_exists.mp registered
  rw [lookupBody, found]
  rfl

theorem dispatchable_head {seen rest first}
    (kept : dispatchableOf bodies seen declarations = first :: rest) :
    Dispatchable bodies seen first := by
  induction declarations with
  | nil => cases kept
  | cons declaration later ih =>
    unfold dispatchableOf at kept
    split at kept
    · rename_i dispatchable
      cases kept
      exact dispatchable
    · exact ih kept

/-! ### What passes through the boundary -/

/-- From one seam to another some declarations became entries, these only, and each with the
admission that was recorded of it. -/
def Settles (before after : Seam bodies) (declarations : List RuleDeclaration) : Prop :=
  ∃ added : List RuleArtifactEntry,
    after.table.entries = before.table.entries ++ added ∧
    added.map (·.toRuleDeclaration) = declarations ∧
    (admissionsOf .rule after.lifecycle).map admittedAs =
      (admissionsOf .rule before.lifecycle).map admittedAs ++ added.map enteredAs

/-- The rules that clear can be dispatched in turn, and the revision they are committed at is one
the table does not have. -/
structure RulesDispatchable (table : RuleTableStore bodies) (revision : Nat)
    (declarations : List RuleDeclaration) : Prop where
  advances : declarations ≠ [] → table.revision ≤ revision
  dispatchable : AllDispatchable bodies table.ruleIds declarations

/-! ### A batch of rules -/

theorem settles_cons_iff {last} (rule : proposal.kind = .rule)
    (entered : RuleEntered seam next proposal declaration)
    (grown : ∃ added, last.table.entries = next.table.entries ++ added) :
    Settles seam last (declaration :: declarations) ↔ Settles next last declarations := by
  obtain ⟨entry, first, same, recorded⟩ := entered.entry
  have admissions : (admissionsOf .rule next.lifecycle).map admittedAs =
      (admissionsOf .rule seam.lifecycle).map admittedAs ++ [enteredAs entry] := by
    rw [entered.lifecycle, admissionsOf_commitProposal, if_pos rule, List.map_append, recorded]
    rfl
  constructor
  · rintro ⟨added, entries, declared, logged⟩
    obtain ⟨later, more⟩ := grown
    have split : added = entry :: later := by
      rw [more, first, List.append_assoc] at entries
      exact (List.append_cancel_left entries).symm
    subst split
    refine ⟨later, more, (List.cons.inj declared).2, ?_⟩
    rw [logged, admissions, List.append_assoc]
    rfl
  · rintro ⟨added, entries, declared, logged⟩
    refine ⟨entry :: added, ?_, ?_, ?_⟩
    · rw [entries, first, List.append_assoc]
      rfl
    · rw [List.map_cons, same, declared]
    · rw [logged, admissions, List.append_assoc]
      rfl

theorem rulesDispatchable_cons_iff (entered : RuleEntered seam next proposal declaration)
    (dispatchable : Dispatchable bodies seam.table.ruleIds declaration) :
    RulesDispatchable seam.table seam.lifecycle.revision (declaration :: declarations) ↔
      RulesDispatchable next.table next.lifecycle.revision declarations := by
  constructor
  · rintro ⟨_, _, rest⟩
    exact ⟨fun _ => entered.advanced, entered.ruleIds ▸ rest⟩
  · rintro ⟨_, rest⟩
    exact ⟨fun _ => entered.advances, dispatchable, entered.ruleIds ▸ rest⟩

theorem not_settles_of_entered {last} (entered : RuleEntered seam next proposal declaration)
    (grown : ∃ added, last.table.entries = next.table.entries ++ added)
    (undispatchable : ¬ Dispatchable bodies seam.table.ruleIds declaration) :
    ¬ Settles seam last (dispatchableOf bodies seam.table.ruleIds declarations) := by
  rintro ⟨added, entries, declared, _⟩
  obtain ⟨entry, first, same, _⟩ := entered.entry
  obtain ⟨later, more⟩ := grown
  have split : added = entry :: later := by
    rw [more, first, List.append_assoc] at entries
    exact (List.append_cancel_left entries).symm
  subst split
  rw [List.map_cons, same] at declared
  exact undispatchable (dispatchable_head declared.symm)

theorem not_settles_of_thrown (rule : proposal.kind = .rule) (seam : Seam bodies)
    (declarations : List RuleDeclaration) :
    ¬ Settles seam
      { seam with lifecycle := (seam.lifecycle.commitProposal none proposal).2 } declarations := by
  rintro ⟨added, entries, _, logged⟩
  have nothing : added = [] := List.self_eq_append_right.mp entries
  subst nothing
  rw [admissionsOf_commitProposal, if_pos rule] at logged
  have lengths := congrArg List.length logged
  simp at lengths

theorem settles_refl (seam : Seam bodies) : Settles seam seam [] :=
  ⟨[], (List.append_nil _).symm, rfl, (List.append_nil _).symm⟩

theorem land_rules (landed : OrderedMap String DerivedTask) {verdicts}
    (onlyRules : OnlyRules verdicts) (seam : Seam bodies) :
    Settles seam (land landed seam verdicts).1
        (dispatchableOf bodies seam.table.ruleIds (verdicts.filterMap declaredBy)) ↔
      RulesDispatchable seam.table seam.lifecycle.revision (verdicts.filterMap declaredBy) := by
  induction verdicts generalizing seam with
  | nil => exact iff_of_true (settles_refl seam) ⟨fun some => absurd rfl some, trivial⟩
  | cons verdict rest ih =>
    have restRules : OnlyRules rest := fun proposal member =>
      onlyRules proposal (List.mem_cons_of_mem _ member)
    cases verdict with
    | refused proposal reason detail =>
      have skipped : landVerdict landed seam (.refused proposal reason detail) = (seam, some []) :=
        rfl
      rw [land_of_landed skipped]
      exact ih restRules seam
    | admitted proposal =>
      obtain ⟨payload, declaration, rule, declared⟩ :=
        onlyRules proposal List.mem_cons_self
      have isRule : proposal.kind = .rule := by rw [Proposal.kind, rule]
      rw [List.filterMap_cons_some ((declaredBy_rule rule).trans declared)]
      rcases landVerdict_rule_cases landed seam rule declared with
        ⟨next, taken, entered⟩ | ⟨thrown, stays⟩
      · rw [land_of_landed taken]
        by_cases dispatchable : Dispatchable bodies seam.table.ruleIds declaration
        · rw [dispatchableOf, if_pos dispatchable,
            settles_cons_iff isRule entered (land_entries landed rest next), ← entered.ruleIds,
            ih restRules next]
          exact (rulesDispatchable_cons_iff entered dispatchable).symm
        · rw [dispatchableOf, if_neg dispatchable]
          refine iff_of_false ?_ fun all => dispatchable all.dispatchable.1
          exact not_settles_of_entered entered (land_entries landed rest next) dispatchable
      · rw [land_of_thrown thrown]
        refine iff_of_false (not_settles_of_thrown isRule seam _) fun all => ?_
        exact stays ⟨all.advances (by simp), all.dispatchable.1.loads⟩

/-! ### The boundary -/

theorem settles_of_uncommitted (seam : Seam bodies) {lifecycle}
    (uncommitted : Uncommitted seam.lifecycle lifecycle) :
    Settles seam { seam with lifecycle } [] := by
  refine ⟨[], (List.append_nil _).symm, rfl, ?_⟩
  rw [List.map_nil, List.append_nil]
  exact congrArg (List.map admittedAs) (admissionsOf_of_uncommitted .rule uncommitted)

theorem settles_congr {other last} (table : other.table = seam.table)
    (admissions : admissionsOf .rule other.lifecycle = admissionsOf .rule seam.lifecycle)
    (declarations : List RuleDeclaration) :
    Settles other last declarations ↔ Settles seam last declarations := by
  unfold Settles
  rw [table, admissions]

theorem takeDerived_settles_iff (cyclesPerProposal : Nat) (seam : Seam bodies)
    (settled : List (DerivedTask × List String)) (resolves : String → Bool) :
    Settles seam (takeDerived cyclesPerProposal seam settled resolves).1
        (dispatchableOf bodies seam.table.ruleIds
          (clearedDeclarations cyclesPerProposal seam.lifecycle settled resolves)) ↔
      RulesDispatchable seam.table
        (revisionBeforeRules cyclesPerProposal seam.lifecycle settled resolves)
        (clearedDeclarations cyclesPerProposal seam.lifecycle settled resolves) := by
  rcases takeDerived_cases cyclesPerProposal seam settled resolves with
    ⟨lifecycle, threw, uncommitted, without, _⟩ |
      ⟨landed, between, tasks, rules, took, _, content, onlyRules, declared⟩
  · rw [threw, without]
    refine iff_of_true ?_ ⟨fun some => absurd rfl some, trivial⟩
    exact settles_of_uncommitted seam uncommitted
  · have reads : ∀ last declarations,
        Settles (Seam.mk between seam.table) last declarations ↔ Settles seam last declarations :=
      fun last => settles_congr rfl content.rules
    have lands := land_rules landed onlyRules (Seam.mk between seam.table)
    rw [reads, declared] at lands
    rw [took, revisionBeforeRules, ← content.revision]
    exact lands

/-! ### Runs -/

inductive SeamEvent where
  | submitRule (envelope : Envelope) (payload : RulePayload)
  | takeDerived (settled : List (DerivedTask × List String)) (resolves : String → Bool)

/-- The seam after an event. A submission the schema refuses throws and changes nothing. -/
def seamNext (cyclesPerProposal : Nat) (seam : Seam bodies) : SeamEvent → Seam bodies
  | .submitRule envelope payload =>
    match seam.lifecycle.submit { envelope with payload := .rule payload } with
    | none => seam
    | some (_, lifecycle) => { seam with lifecycle }
  | .takeDerived settled resolves => (takeDerived cyclesPerProposal seam settled resolves).1

def seamStep (cyclesPerProposal : Nat) : Machine (Seam bodies) SeamEvent :=
  fun seam event => some (seamNext cyclesPerProposal seam event)

/-- The declarations that pass through the boundary at an event. -/
def passing (cyclesPerProposal : Nat) (seam : Seam bodies) : SeamEvent → List RuleDeclaration
  | .submitRule _ _ => []
  | .takeDerived settled resolves =>
    clearedDeclarations cyclesPerProposal seam.lifecycle settled resolves

/-- Of the declarations that pass at an event those that are dispatchable become entries, no
others do, and log and table agree. -/
def OnlyDispatchable (cyclesPerProposal : Nat) (seam : Seam bodies) (event : SeamEvent) : Prop :=
  Settles seam (seamNext cyclesPerProposal seam event)
    (dispatchableOf bodies seam.table.ruleIds (passing cyclesPerProposal seam event))

/-- Every declaration that passes at an event is dispatchable when its turn comes, and finds a
table that is not ahead of the log. -/
def PassesDispatchable (cyclesPerProposal : Nat) (seam : Seam bodies) : SeamEvent → Prop
  | .submitRule _ _ => True
  | .takeDerived settled resolves =>
    RulesDispatchable seam.table
      (revisionBeforeRules cyclesPerProposal seam.lifecycle settled resolves)
      (clearedDeclarations cyclesPerProposal seam.lifecycle settled resolves)

theorem onlyDispatchable_step (cyclesPerProposal : Nat) (seam : Seam bodies) (event : SeamEvent) :
    OnlyDispatchable cyclesPerProposal seam event ↔
      PassesDispatchable cyclesPerProposal seam event := by
  cases event with
  | submitRule envelope payload =>
    refine iff_of_true ?_ trivial
    unfold OnlyDispatchable seamNext
    dsimp only
    split
    · exact settles_refl seam
    · rename_i queued lifecycle submitted
      exact settles_of_uncommitted seam (submit_uncommitted submitted)
  | takeDerived settled resolves =>
    exact takeDerived_settles_iff cyclesPerProposal seam settled resolves

variable {cyclesPerProposal : Nat} {first last : Seam bodies} {events : List SeamEvent}

theorem Settles.trans {first second third : Seam bodies} {early late}
    (before : Settles first second early) (after : Settles second third late) :
    Settles first third (early ++ late) := by
  obtain ⟨added, entries, declared, logged⟩ := before
  obtain ⟨more, laterEntries, laterDeclared, laterLogged⟩ := after
  refine ⟨added ++ more, ?_, ?_, ?_⟩
  · rw [laterEntries, entries, List.append_assoc]
  · rw [List.map_append, declared, laterDeclared]
  · rw [laterLogged, logged, List.map_append, List.append_assoc]

theorem run_settles (run : Run (seamStep cyclesPerProposal) first events last)
    (meets : Run.Meets (seamStep cyclesPerProposal) (OnlyDispatchable cyclesPerProposal) first
      events) : ∃ declarations, Settles first last declarations := by
  refine run.relates (fun first last => ∃ declarations, Settles first last declarations)
    (fun seam => ⟨[], settles_refl seam⟩) ?_ ?_ meets
  · rintro first second third ⟨early, before⟩ ⟨late, after⟩
    exact ⟨early ++ late, before.trans after⟩
  · intro seam event next settles taken
    cases taken
    exact ⟨_, settles⟩

/-- Over every run only what is dispatchable enters the table, and log and table agree at every
boundary, exactly where every declaration that passes is dispatchable when its turn comes. There
the rule admissions and the entries of the run correspond one to one. -/
theorem onlyDispatchable_iff (run : Run (seamStep cyclesPerProposal) first events last) :
    (Run.Meets (seamStep cyclesPerProposal) (OnlyDispatchable cyclesPerProposal) first events ↔
        Run.Meets (seamStep cyclesPerProposal) (PassesDispatchable cyclesPerProposal) first
          events) ∧
      (Run.Meets (seamStep cyclesPerProposal) (PassesDispatchable cyclesPerProposal) first events →
        ∃ declarations, Settles first last declarations) := by
  have agree : Run.Meets (seamStep cyclesPerProposal) (OnlyDispatchable cyclesPerProposal) first
      events ↔ Run.Meets (seamStep cyclesPerProposal) (PassesDispatchable cyclesPerProposal) first
        events := Run.meets_congr (onlyDispatchable_step cyclesPerProposal)
  exact ⟨agree, fun meets => run_settles run (agree.mpr meets)⟩

/-! ### A rule that is recorded and not there -/

/-- A rule whose body is not registered. -/
def unresolvedPayload : RulePayload where
  ruleId := "test:learned"
  name := "a learned reaction"
  pattern := ⟨"inheritance", "inheritance"⟩
  truthFn := "deduction"
  priority := .finite (1 / 2)
  body := some "nal:missing"
  symbolicFallback := none

def ruleEnvelope : Envelope where
  proposalId := "rp-1"
  schemaVersion := proposalSchemaVersion
  baseRevision := 0
  cyclesPerProposal := 1
  issuedAtCycle := 0
  references := []

/-- A seam with an empty table, for some bodies. -/
def freshSeam (bodies : RuleBodies Body) : Seam bodies where
  lifecycle := .fresh defaultQueueLimits
  table := RuleTableStore.empty bodies

def deductionBody : RuleBodies Unit := OrderedMap.ofList [("nal:deduction", ())]

/-- Submit a rule, and reach the boundary. -/
def learnRule (payload : RulePayload) : List SeamEvent :=
  [.submitRule ruleEnvelope payload, .takeDerived [] fun _ => true]

theorem onlyDispatchable_iff_learnRule :
    ∃ last, Run (seamStep 1) (freshSeam deductionBody)
        (learnRule { unresolvedPayload with body := some "nal:deduction" }) last ∧
      ((Run.Meets (seamStep 1) (OnlyDispatchable 1) (freshSeam deductionBody)
            (learnRule { unresolvedPayload with body := some "nal:deduction" }) ↔
          Run.Meets (seamStep 1) (PassesDispatchable 1) (freshSeam deductionBody)
            (learnRule { unresolvedPayload with body := some "nal:deduction" })) ∧
        (Run.Meets (seamStep 1) (PassesDispatchable 1) (freshSeam deductionBody)
            (learnRule { unresolvedPayload with body := some "nal:deduction" }) →
          ∃ declarations, Settles (freshSeam deductionBody) last declarations)) := by
  have run : Run (seamStep 1) (freshSeam deductionBody)
      (learnRule { unresolvedPayload with body := some "nal:deduction" }) _ :=
    .cons rfl (.cons rfl (.nil _))
  exact ⟨_, run, onlyDispatchable_iff run⟩

/-- A rule without a body is recorded as admitted, and the table does not have it. -/
theorem admission_without_entry :
    ¬ ∀ (bodies : RuleBodies Unit) (cyclesPerProposal : Nat) (first last : Seam bodies)
        (events : List SeamEvent), Run (seamStep cyclesPerProposal) first events last →
      Run.Meets (seamStep cyclesPerProposal) (OnlyDispatchable cyclesPerProposal) first events := by
  intro always
  have meets := always deductionBody 1 (freshSeam deductionBody) _ (learnRule unresolvedPayload)
    (.cons rfl (.cons rfl (.nil _)))
  cases meets with
  | cons _ step rest =>
    cases Option.some.inj step
    cases rest with
    | cons settles _ _ =>
      obtain ⟨added, entries, _, logged⟩ := settles
      have noEntry : (seamNext 1 (seamNext 1 (freshSeam deductionBody)
          (.submitRule ruleEnvelope unresolvedPayload))
            (.takeDerived [] fun _ => true)).table.entries = [] := by decide +kernel
      have recorded : (admissionsOf .rule (seamNext 1 (seamNext 1 (freshSeam deductionBody)
          (.submitRule ruleEnvelope unresolvedPayload))
            (.takeDerived [] fun _ => true)).lifecycle).length = 1 := by decide +kernel
      have nothing : added = [] := (List.append_eq_nil_iff.mp (entries.symm.trans noEntry)).2
      have lengths := congrArg List.length logged
      rw [List.length_map, recorded, nothing, List.map_nil, List.append_nil] at lengths
      exact absurd lengths (by decide +kernel)

end Senars.Proposals
