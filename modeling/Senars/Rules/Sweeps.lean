/-
This file is what happens to one rule processor over time.

A sweep goes through the rules for its pair of premises one after the other. The
sweep of a call runs through before anything else can happen; the sweep of a
stream stops at every result it yields and while it waits for model rules, and
other sweeps go on in between. Work that was staged asks model rules too, outside
of any sweep. Which model rules are asked, what they answer and when is up to the
outside.

The numbers of sweeps and results, and the lists of what was concluded, yielded and
refused, are not state of the source: they are the history statements are made
about.
-/

import Senars.Library.Runs
import Senars.Rules.Processor

namespace Senars.Rules

open Library Terms Control Senars.Algebra

/-! ### Sweeps -/

/-- A result, with the rule and the premises it comes from. -/
structure Derivation where
  number : Nat
  ruleId : String
  p1 : RuleInput
  p2 : RuleInput
  result : RuleResult

/-- Who works on the processor: the call that is running, a stream, or a unit of staged work. -/
inductive Caller where
  | call
  | stream (index : Nat)
  | work (index : Nat)
  deriving DecidableEq

/-- Where a sweep is: at a rule, waiting for model rules, or handing over what they answered. -/
inductive Phase where
  | rules (rest : List RegisteredRule)
  | models (answers : List (ModelRule × Option (List Derivation)))
  | handing (rest : List Derivation)

structure Sweep where
  pair : PremisePair
  /-- One premise only, and its stamp is the stamp of what is concluded. -/
  singlePremise : Bool
  phase : Phase
  /-- Of a call: the results so far, the one of highest priority for each conclusion. -/
  seen : OrderedMap String Derivation
  /-- The number of the sweep; staged work has none, as it opens no record. -/
  number : Option Nat

/-- A task a model rule answered with. -/
structure ModelTask where
  term : Term
  truth : Option Truth

/-- A rule that was refused for its depth, and how deep its premises were in chains of meta
rules. -/
structure Refusal where
  ruleId : String
  chainDepth : Nat

structure State where
  processor : RuleProcessor
  sweeps : Caller → Option Sweep
  /-- How many results and sweeps there were, and how many meta rules concluded something. -/
  results : Nat
  begun : Nat
  metaDerivations : Nat
  /-- Every result that was concluded, the last one first. -/
  derived : List Derivation
  /-- The results the callers got, in order. -/
  yielded : List Derivation
  refusals : List Refusal

inductive Event where
  /-- A call, or the next pair of a stream, for the cycle and the drive states of the host. -/
  | begin (caller : Caller) (p1 p2 : RuleInput) (cycle : JsNumber)
      (driveStates : Option (List ℚ))
  | turn (caller : Caller)
  | consult (caller : Caller) (selected : List ModelRule)
  | stage (index : Nat) (p1 : RuleInput) (p2 : Option RuleInput) (selected : List ModelRule)
  | answer (caller : Caller) (index : Nat) (tasks : List ModelTask)
  | gather (caller : Caller)
  | hand (caller : Caller)
  | close (caller : Caller)
  | beginCycle
  | charge (scopeId : BudgetScopeId)

/-- How long the chain of meta rules is that leads to a premise: a result of a meta rule is one
step further than its own premises. -/
def chainDepth : List Derivation → RuleInput → Nat
  | [], _ => 0
  | derivation :: older, input =>
    max (chainDepth older input)
      (if derivation.result.term = input.term ∧ derivation.result.stamp = input.stamp then
        max (chainDepth older derivation.p1) (chainDepth older derivation.p2) +
          (if "meta-".toList.isPrefixOf derivation.ruleId.toList then 1 else 0)
      else 0)

def pairDepth (derived : List Derivation) (pair : PremisePair) : Nat :=
  max (chainDepth derived pair.p1) (chainDepth derived pair.p2)

/-- A call runs through before anything else can happen. -/
def mayRun (state : State) (caller : Caller) : Bool :=
  caller = .call || (state.sweeps .call).isNone

/-- The sweep of a caller that may run, and where it is. -/
def State.working (state : State) (caller : Caller) : Option (Sweep × Phase) :=
  if mayRun state caller then (state.sweeps caller).map fun sweep => (sweep, sweep.phase) else none

theorem working_eq_some {state : State} {caller sweep phase}
    (working : state.working caller = some (sweep, phase)) :
    state.sweeps caller = some sweep ∧ sweep.phase = phase := by
  unfold State.working at working
  split at working
  · obtain ⟨found, there, same⟩ := Option.map_eq_some_iff.mp working
    cases same
    exact ⟨there, rfl⟩
  · cases working

def State.withSweep (state : State) (caller : Caller) (sweep : Option Sweep) : State :=
  { state with sweeps := Function.update state.sweeps caller sweep }

/-- Keep the result of highest priority for its conclusion. -/
def Sweep.see (sweep : Sweep) (derivation : Derivation) : Sweep :=
  match sweep.seen.get (termKey derivation.result.term) with
  | none => { sweep with seen := sweep.seen.set (termKey derivation.result.term) derivation }
  | some existing =>
    if existing.result.priority < derivation.result.priority then
      { sweep with seen := sweep.seen.set (termKey derivation.result.term) derivation }
    else sweep

/-- A sweep begins: its record is opened and the rules for its pair are looked up. -/
def beginSweep (outside : ProcessorOutside) (state : State) (caller : Caller) (p1 p2 : RuleInput)
    (cycle : JsNumber) (driveStates : Option (List ℚ)) : State :=
  let processor := { state.processor with
    recorder := state.processor.recorder.begin outside.toOutside (p1, p2) cycle state.begun }
  { state.withSweep caller (some {
      pair := processor.pairOf p1 p2 driveStates
      singlePremise := false
      phase := .rules (processor.candidates p1 p2)
      seen := .empty
      number := some state.begun }) with
    processor
    begun := state.begun + 1 }

/-- Whether a meta rule concluded something in its turn. -/
def Turn.isMetaDerivation (rule : RegisteredRule) : Turn → Bool
  | .unkept => isMetaRule rule
  | .concluded _ => isMetaRule rule
  | _ => false

/-- A result of a sweep, in the history. A call keeps it for its end, a stream yields it. -/
def noteConclusion (state : State) (caller : Caller) (sweep : Sweep) (derivation : Derivation) :
    State :=
  let noted := { state with
    results := state.results + 1
    derived := derivation :: state.derived }
  if caller = .call then noted.withSweep caller (some (sweep.see derivation))
  else { noted.withSweep caller (some sweep) with yielded := state.yielded ++ [derivation] }

/-- The next rule of a sweep has its turn. -/
def turnSweep (outside : ProcessorOutside) (state : State) (caller : Caller) (sweep : Sweep)
    (rule : RegisteredRule) (rest : List RegisteredRule) : State :=
  let output := state.processor.turn outside sweep.pair rule state.results
  let applied := { state with
    processor := output.2
    metaDerivations :=
      if output.1.isMetaDerivation rule then state.metaDerivations + 1
      else state.metaDerivations }
  let onward := { sweep with phase := .rules rest }
  match output.1 with
  | .exhausted => applied.withSweep caller (some { sweep with phase := .rules [] })
  | .nothing | .unkept => applied.withSweep caller (some onward)
  | .tooDeep =>
    { applied.withSweep caller (some onward) with
      refusals := state.refusals ++ [⟨rule.id, pairDepth state.derived sweep.pair⟩] }
  | .concluded result =>
    noteConclusion applied caller onward
      ⟨state.results, rule.id, sweep.pair.p1, sweep.pair.p2, result⟩

/-- The result of a task a model rule answered with. -/
def answerOf (sweep : Sweep) (rule : ModelRule) (stamp : Stamp) (number : Nat) (task : ModelTask) :
    Derivation where
  number
  ruleId := rule.id
  p1 := sweep.pair.p1
  p2 := sweep.pair.p2
  result := {
    term := task.term
    truth := task.truth.getD neutralTruth
    stamp
    priority := rule.priority
    taskType := none }

/-- The results of a model rule's tasks, numbered from a number on. -/
def answersFrom (sweep : Sweep) (rule : ModelRule) (stamp : Stamp) :
    Nat → List ModelTask → List Derivation
  | _, [] => []
  | number, task :: rest =>
    answerOf sweep rule stamp number task :: answersFrom sweep rule stamp (number + 1) rest

/-- Record the results of a model rule one after the other. -/
def recordAll (outside : Outside) (recorder : DerivationRecorder) (derivations : List Derivation) :
    DerivationRecorder :=
  derivations.foldl (fun recorder derivation =>
    recorder.record outside derivation.ruleId derivation.p1 derivation.p2 derivation.result none
      derivation.number) recorder

/-- A model rule answers: its results are recorded, whatever record is open then. -/
def answerSweep (outside : ProcessorOutside) (state : State) (caller : Caller) (sweep : Sweep)
    (answers : List (ModelRule × Option (List Derivation))) (index : Nat) (rule : ModelRule)
    (tasks : List ModelTask) : State :=
  let stamp :=
    if sweep.singlePremise then sweep.pair.p1.stamp
    else deriveStamp sweep.pair.p1 sweep.pair.p2 (outside.stampId state.processor.stamps)
  let derivations := answersFrom sweep rule stamp state.results tasks
  { state.withSweep caller (some { sweep with
      phase := .models (answers.set index (rule, some derivations)) }) with
    processor := { state.processor with
      recorder := recordAll outside.toOutside state.processor.recorder derivations
      stamps := if sweep.singlePremise then state.processor.stamps
        else state.processor.stamps + 1 }
    results := state.results + tasks.length
    derived := derivations.reverse ++ state.derived }

/-- The rules that are waited for: none when the processor has none. -/
def consulted (processor : RuleProcessor) (selected : List ModelRule) :
    List (ModelRule × Option (List Derivation)) :=
  if processor.modelRules.isEmpty then [] else selected.map fun rule => (rule, none)

def finishRecord (outside : ProcessorOutside) (state : State) : State :=
  { state with processor := { state.processor with
      recorder := state.processor.recorder.finish outside.toOutside } }

/-- The machine of one processor. -/
def step (outside : ProcessorOutside) : Machine State Event := fun state event =>
  match event with
  | .begin caller p1 p2 cycle driveStates =>
    match caller, state.sweeps caller with
    | .work _, _ => none
    | _, some _ => none
    | caller, none =>
      if mayRun state caller then some (beginSweep outside state caller p1 p2 cycle driveStates)
      else none
  | .turn caller =>
    match state.working caller with
    | some (sweep, .rules (rule :: rest)) => some (turnSweep outside state caller sweep rule rest)
    | _ => none
  | .consult caller selected =>
    match caller, state.working caller with
    | .stream _, some (sweep, .rules []) =>
      some (state.withSweep caller
        (some { sweep with phase := .models (consulted state.processor selected) }))
    | _, _ => none
  | .stage index p1 p2 selected =>
    match state.sweeps (.work index) with
    | some _ => none
    | none =>
      if mayRun state (.work index) then
        some (state.withSweep (.work index) (some {
          pair := ⟨p1, p2.getD p1, false, 0⟩
          singlePremise := p2.isNone
          phase := .models (consulted state.processor selected)
          seen := .empty
          number := none }))
      else none
  | .answer caller index tasks =>
    match state.working caller with
    | some (sweep, .models answers) =>
      match answers[index]? with
      | some (rule, none) => some (answerSweep outside state caller sweep answers index rule tasks)
      | _ => none
    | _ => none
  | .gather caller =>
    match state.working caller with
    | some (sweep, .models answers) =>
      if answers.all fun answer => answer.2.isSome then
        some (state.withSweep caller (some { sweep with
          phase := .handing (answers.flatMap fun answer => answer.2.getD []) }))
      else none
    | _ => none
  | .hand caller =>
    match state.working caller with
    | some (sweep, .handing (derivation :: rest)) =>
      some { state.withSweep caller (some { sweep with phase := .handing rest }) with
        yielded := state.yielded ++ [derivation] }
    | _ => none
  | .close caller =>
    match caller, state.working caller with
    | .call, some (sweep, .rules []) =>
      some (finishRecord outside { state.withSweep .call none with
        yielded := state.yielded ++ sweep.seen.entries.map Prod.snd })
    | .stream index, some (_, .handing []) =>
      some (finishRecord outside (state.withSweep (.stream index) none))
    | .work index, some (_, .handing []) => some (state.withSweep (.work index) none)
    | _, _ => none
  | .beginCycle =>
    some { state with processor := { state.processor with
      budgets := state.processor.budgets.beginCycle } }
  | .charge scopeId => some { state with processor := (state.processor.charge scopeId).2 }

/-- What an event leads to, where it can happen. -/
inductive Steps (outside : ProcessorOutside) (state : State) : Event → State → Prop
  | begin {caller : Caller} {p1 p2 : RuleInput} {cycle : JsNumber}
      {driveStates : Option (List ℚ)} (idle : state.sweeps caller = none) :
      Steps outside state (.begin caller p1 p2 cycle driveStates)
        (beginSweep outside state caller p1 p2 cycle driveStates)
  | turn {caller : Caller} {sweep : Sweep} {rule : RegisteredRule} {rest : List RegisteredRule}
      (found : state.sweeps caller = some sweep) (phase : sweep.phase = .rules (rule :: rest)) :
      Steps outside state (.turn caller) (turnSweep outside state caller sweep rule rest)
  | consult {caller : Caller} {sweep : Sweep} {selected : List ModelRule}
      (found : state.sweeps caller = some sweep) (phase : sweep.phase = .rules []) :
      Steps outside state (.consult caller selected)
        (state.withSweep caller
          (some { sweep with phase := .models (consulted state.processor selected) }))
  | stage {index : Nat} {p1 : RuleInput} {p2 : Option RuleInput} {selected : List ModelRule}
      (idle : state.sweeps (.work index) = none) :
      Steps outside state (.stage index p1 p2 selected)
        (state.withSweep (.work index) (some {
          pair := ⟨p1, p2.getD p1, false, 0⟩
          singlePremise := p2.isNone
          phase := .models (consulted state.processor selected)
          seen := .empty
          number := none }))
  | answer {caller : Caller} {sweep : Sweep}
      {answers : List (ModelRule × Option (List Derivation))} {index : Nat} {rule : ModelRule}
      {tasks : List ModelTask} (found : state.sweeps caller = some sweep)
      (phase : sweep.phase = .models answers) (asked : answers[index]? = some (rule, none)) :
      Steps outside state (.answer caller index tasks)
        (answerSweep outside state caller sweep answers index rule tasks)
  | gather {caller : Caller} {sweep : Sweep}
      {answers : List (ModelRule × Option (List Derivation))}
      (found : state.sweeps caller = some sweep) (phase : sweep.phase = .models answers) :
      Steps outside state (.gather caller)
        (state.withSweep caller (some { sweep with
          phase := .handing (answers.flatMap fun answer => answer.2.getD []) }))
  | hand {caller : Caller} {sweep : Sweep} {derivation : Derivation} {rest : List Derivation}
      (found : state.sweeps caller = some sweep)
      (phase : sweep.phase = .handing (derivation :: rest)) :
      Steps outside state (.hand caller)
        { state.withSweep caller (some { sweep with phase := .handing rest }) with
          yielded := state.yielded ++ [derivation] }
  | closeCall {sweep : Sweep} (found : state.sweeps .call = some sweep) :
      Steps outside state (.close .call)
        (finishRecord outside { state.withSweep .call none with
          yielded := state.yielded ++ sweep.seen.entries.map Prod.snd })
  | closeStream {index : Nat} {sweep : Sweep}
      (found : state.sweeps (.stream index) = some sweep) :
      Steps outside state (.close (.stream index))
        (finishRecord outside (state.withSweep (.stream index) none))
  | closeWork {index : Nat} {sweep : Sweep} (found : state.sweeps (.work index) = some sweep) :
      Steps outside state (.close (.work index)) (state.withSweep (.work index) none)
  | beginCycle :
      Steps outside state .beginCycle { state with processor := { state.processor with
        budgets := state.processor.budgets.beginCycle } }
  | charge {scopeId : BudgetScopeId} :
      Steps outside state (.charge scopeId)
        { state with processor := (state.processor.charge scopeId).2 }

theorem steps_of_step {outside state next event} (taken : step outside state event = some next) :
    Steps outside state event next := by
  cases event with
  | begin caller p1 p2 cycle driveStates =>
    simp only [step] at taken
    split at taken
    · cases taken
    · cases taken
    · rename_i idle
      split at taken
      · exact Option.some.inj taken ▸ .begin idle
      · cases taken
  | turn caller =>
    simp only [step] at taken
    split at taken
    · rename_i sweep rule rest working
      obtain ⟨found, phase⟩ := working_eq_some working
      exact Option.some.inj taken ▸ .turn found phase
    · cases taken
  | consult caller selected =>
    simp only [step] at taken
    split at taken
    · rename_i sweep working
      obtain ⟨found, phase⟩ := working_eq_some working
      exact Option.some.inj taken ▸ .consult found phase
    · cases taken
  | stage index p1 p2 selected =>
    simp only [step] at taken
    split at taken
    · cases taken
    · rename_i idle
      split at taken
      · exact Option.some.inj taken ▸ .stage idle
      · cases taken
  | answer caller index tasks =>
    simp only [step] at taken
    split at taken
    · rename_i sweep answers working
      obtain ⟨found, phase⟩ := working_eq_some working
      split at taken
      · rename_i rule asked
        exact Option.some.inj taken ▸ .answer found phase asked
      · cases taken
    · cases taken
  | gather caller =>
    simp only [step] at taken
    split at taken
    · rename_i sweep answers working
      obtain ⟨found, phase⟩ := working_eq_some working
      split at taken
      · exact Option.some.inj taken ▸ .gather found phase
      · cases taken
    · cases taken
  | hand caller =>
    simp only [step] at taken
    split at taken
    · rename_i sweep derivation rest working
      obtain ⟨found, phase⟩ := working_eq_some working
      exact Option.some.inj taken ▸ .hand found phase
    · cases taken
  | close caller =>
    simp only [step] at taken
    split at taken
    · rename_i sweep working
      exact Option.some.inj taken ▸ .closeCall (working_eq_some working).1
    · rename_i index sweep working
      exact Option.some.inj taken ▸ .closeStream (working_eq_some working).1
    · rename_i index sweep working
      exact Option.some.inj taken ▸ .closeWork (working_eq_some working).1
    · cases taken
  | beginCycle => exact Option.some.inj taken ▸ .beginCycle
  | charge scopeId => exact Option.some.inj taken ▸ .charge

/-- A processor before anything happened: its recorder is on and has no record. -/
structure State.Fresh (state : State) : Prop where
  enabled : state.processor.recorder.enabled = true
  opened : state.processor.recorder.opened = none
  finished : state.processor.recorder.finished = []
  idle : ∀ caller, state.sweeps caller = none
  depth : state.processor.metaDepth.currentDepth = 0
  results : state.results = 0
  begun : state.begun = 0
  metaDerivations : state.metaDerivations = 0
  derived : state.derived = []
  yielded : state.yielded = []
  refusals : state.refusals = []

/-! ### A small processor -/

/-- A processor before anything happened, with rules for every pair of kinds. -/
def newState (rules : List RegisteredRule) (modelRules : List ModelRule) : State where
  processor := {
    table := fun _ _ => rules
    modelRules
    recorder := ⟨200, true, none, [], 0, 0⟩
    limitConclusionGrowth := false
    metaDepth := ⟨0, 2⟩
    budgets := .unbudgeted
    stamps := 0 }
  sweeps _ := none
  results := 0
  begun := 0
  metaDerivations := 0
  derived := []
  yielded := []
  refusals := []

theorem fresh_newState (rules : List RegisteredRule) (modelRules : List ModelRule) :
    (newState rules modelRules).Fresh := by
  constructor <;> first | rfl | exact fun _ => rfl

/-- A premise about an atom. -/
def premise (name : String) : RuleInput := ⟨.atom name, neutralTruth, ⟨name, []⟩, 0⟩

/-- A rule that concludes the same from everything. -/
def constantRule (id name : String) : RegisteredRule where
  id
  apply _ _ := .ok (some (.atom name))
  sync := true
  priority := 1
  truthFn := none
  truthFnName := none
  taskType := none

/-- Identifiers and times that count up. -/
def counting : ProcessorOutside where
  makeId count := String.ofList (List.replicate count 'i')
  clock _ := 0
  stampId count := String.ofList (List.replicate count 's')

end Senars.Rules
