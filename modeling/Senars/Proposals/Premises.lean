/-
This file is about the premises that a derived task is judged on. The terms a work
item read are kept in a channel beside the stream reasoner: they are pushed as each
result comes, while the tasks are settled when the whole item is done. Both are
drained at the boundary, and paired by position.

So a task has its own premises where items are done in turn. An item that throws
after a result leaves its terms in the channel, two items that run at once may be
done in the other order, and only the tasks are trimmed.
-/

import Senars.Library.Lists
import Senars.Proposals.Producer
import Senars.Stream.Reasoner

namespace Senars.Proposals

open Library Senars.Stream Senars.Algebra

/-- What the producer reads of a unit of work: the first premise with its truth, and the second
where there is one. -/
structure ModelRuleWork where
  p1 : String
  truth : Option Truth := none
  p2 : Option String := none

/-- The terms that a unit of work reads. -/
def ModelRuleWork.read (work : ModelRuleWork) : List String := work.p1 :: work.p2.toList

/-- A derived task, with the work that it is a result of. -/
structure Derivation where
  task : DerivedTask
  work : ModelRuleWork

/-- A batch whose derivations run one after the other: whether its flush still waits for it, the
work that is left, which begins with what is applied now, and the results of that so far. -/
structure BatchRun where
  waits : Bool
  works : List ModelRuleWork
  results : List DerivedTask := []

/-- The terms that were pushed for the results so far. -/
def BatchRun.unsettled (run : BatchRun) : List (List String) :=
  match run.works with
  | [] => []
  | work :: _ => List.replicate run.results.length work.read

structure ProducerCounters where
  staged : Nat := 0
  refused : Nat := 0
  applied : Nat := 0

/-- The reasoner with what its requests derive, the batches that run, given up or not, and the
channel of the premises. -/
structure LMProposalProducer where
  reasoner : StreamReasoner Derivation
  derives : OrderedMap String ModelRuleWork := OrderedMap.empty
  running : List BatchRun := []
  premises : List (List String) := []
  counters : ProducerCounters := {}

namespace LMProposalProducer

def new (options : StreamReasonerOptions) : LMProposalProducer where
  reasoner := StreamReasoner.new options

/-- Stage a unit of work, where the reasoner takes it. -/
def stage (producer : LMProposalProducer) (work : ModelRuleWork) : Bool × LMProposalProducer :=
  let counters := producer.counters
  match producer.reasoner.dispatch work.p1 work.truth true with
  | (none, reasoner) =>
    (false,
      { producer with reasoner, counters := { counters with refused := counters.refused + 1 } })
  | (some provisional, reasoner) =>
    (true,
      { producer with
        reasoner
        derives := producer.derives.set provisional.requestId work
        counters := { counters with staged := counters.staged + 1 } })

/-- The batch at an index, where it is at a unit of work. -/
def current (producer : LMProposalProducer) (index : Nat) :
    Option (BatchRun × ModelRuleWork × List ModelRuleWork) :=
  match producer.running[index]? with
  | none => none
  | some run =>
    match run.works with
    | [] => none
    | work :: rest => some (run, work, rest)

/-- Begin to flush. The batch that is taken runs, and the flush waits for it. -/
def pump (producer : LMProposalProducer) (granted : Bool) : LMProposalProducer :=
  let reasoner := producer.reasoner.flush producer.reasoner.pressure granted
  { producer with
    reasoner
    running := producer.running ++ reasoner.flushes.map fun batch =>
      { waits := true, works := batch.filterMap fun request => producer.derives.get request.id } }

/-- The flush that waits ends. -/
def endFlush (producer : LMProposalProducer) (outcome : StreamReasoner.FlushOutcome) :
    Option LMProposalProducer :=
  (producer.reasoner.step (.finish 0 outcome)).map fun reasoner => { producer with reasoner }

/-- A result of the work that a batch is at: its terms are pushed at once. -/
def yieldResult (producer : LMProposalProducer) (index : Nat) (run : BatchRun)
    (work : ModelRuleWork) (task : DerivedTask) : LMProposalProducer :=
  { producer with
    running := producer.running.set index { run with results := run.results ++ [task] }
    premises := producer.premises ++ [work.read] }

/-- The work that a batch is at is done: its results are settled, and the next is applied. -/
def settleWork (producer : LMProposalProducer) (index : Nat) (run : BatchRun)
    (work : ModelRuleWork) (rest : List ModelRuleWork) : LMProposalProducer :=
  let counters := producer.counters
  { producer with
    reasoner := producer.reasoner.settleDerived (run.results.map fun task => { task, work })
    running := producer.running.set index { run with works := rest, results := [] }
    counters := { counters with applied := counters.applied + run.results.length } }

/-- The work that a batch is at throws: its results are lost, and what is left is not applied. -/
def throwWork (producer : LMProposalProducer) (index : Nat) : LMProposalProducer :=
  { producer with running := producer.running.set index { waits := false, works := [] } }

/-- The deadline passes: the flush gives the batch up, which runs on. -/
def giveUp (producer : LMProposalProducer) (index : Nat) (run : BatchRun) : LMProposalProducer :=
  { producer with running := producer.running.set index { run with waits := false } }

/-- Drain what is settled, each task with the terms at its place in the channel. -/
def takeDerived (producer : LMProposalProducer) :
    List (Derivation × List String) × LMProposalProducer :=
  let (settled, reasoner) := producer.reasoner.takeDerived
  let references := producer.premises.take settled.length
  (settled.zipIdx.map fun (derivation, place) => (derivation, references[place]?.getD []),
    { producer with reasoner, premises := producer.premises.drop settled.length })

/-! ### Runs -/

/-- What happens to the producer. An index is that of a batch that runs. -/
inductive ProducerEvent where
  | stage (work : ModelRuleWork)
  | pump (granted : Bool)
  | yieldResult (index : Nat) (task : DerivedTask)
  | settleWork (index : Nat)
  | throwWork (index : Nat)
  | timeOut (index : Nat)
  | takeDerived

/-- The producer after an event. Flushes are serial: the next begins when none waits. -/
def step (producer : LMProposalProducer) : ProducerEvent → Option LMProposalProducer
  | .stage work => some (producer.stage work).2
  | .pump granted => if producer.reasoner.flushes = [] then some (producer.pump granted) else none
  | .yieldResult index task =>
    (producer.current index).map fun (run, work, _) => producer.yieldResult index run work task
  | .settleWork index =>
    (producer.current index).bind fun (run, work, rest) =>
      let settled := producer.settleWork index run work rest
      if run.waits ∧ rest = [] then settled.endFlush (.done OrderedMap.empty) else some settled
  | .throwWork index =>
    (producer.current index).bind fun (run, _, _) =>
      let thrown := producer.throwWork index
      if run.waits then thrown.endFlush .threw else some thrown
  | .timeOut index =>
    (producer.current index).bind fun (run, _, _) =>
      if run.waits then (producer.giveUp index run).endFlush .timedOut else none
  | .takeDerived => some producer.takeDerived.2

/-- The premises of the tasks that are settled. -/
def owed (producer : LMProposalProducer) : List (List String) :=
  producer.reasoner.derivedTasks.map (·.work.read)

/-- Were the boundary now, each proposal it builds would refer to the premises of the work that its
task is a result of. -/
def TakesOwn (producer : LMProposalProducer) : Prop :=
  ∀ lifecycle cyclesPerProposal, ∀ taken ∈ producer.takeDerived.1,
    (proposalOf lifecycle cyclesPerProposal taken.1.task taken.2).references = taken.1.work.read

/-! ### The channel

What is paired by position, apart from the queue, the gate and the beliefs. -/

/-- The premises of what is settled, the channel that they should begin, and what runs. -/
structure Channel where
  owed : List (List String)
  premises : List (List String)
  running : List BatchRun

def channel (producer : LMProposalProducer) : Channel where
  owed := producer.owed
  premises := producer.premises
  running := producer.running

/-- A unit of work is done in turn: the premises of what is settled and of its own results, less
those of the tasks that are trimmed, are what the channel begins with. -/
def Channel.InTurn (maxDerived : Nat) (channel : Channel) : ProducerEvent → Prop
  | .settleWork index =>
    ∀ run, channel.running[index]? = some run →
      trimCapped (channel.owed ++ run.unsettled) maxDerived <+: channel.premises
  | _ => True

/-- Nothing gets in the way of a unit of work: it throws before its first result only, no other
batch is between a result and its settling when a result comes, and there is room for all its
results when it is done. -/
def Channel.Undisturbed (maxDerived : Nat) (channel : Channel) : ProducerEvent → Prop
  | .yieldResult index _ =>
    ∀ other run, other ≠ index → channel.running[other]? = some run → run.results = []
  | .throwWork index => ∀ run, channel.running[index]? = some run → run.results = []
  | .settleWork index =>
    ∀ run, channel.running[index]? = some run →
      channel.owed.length + run.results.length ≤ maxDerived
  | _ => True

def InTurn (producer : LMProposalProducer) (event : ProducerEvent) : Prop :=
  producer.channel.InTurn producer.reasoner.options.maxDerived event

def Undisturbed (producer : LMProposalProducer) (event : ProducerEvent) : Prop :=
  producer.channel.Undisturbed producer.reasoner.options.maxDerived event

/-- What an event may do to a channel, where so many settled tasks are kept. -/
inductive Channel.Moves (maxDerived : Nat) : Channel → ProducerEvent → Channel → Prop
  | stage {channel : Channel} (work : ModelRuleWork) :
      Moves maxDerived channel (.stage work) channel
  | pump {channel : Channel} {begun : List BatchRun} (granted : Bool)
      (fresh : ∀ run ∈ begun, run.unsettled = []) :
      Moves maxDerived channel (.pump granted)
        { channel with running := channel.running ++ begun }
  | yieldResult {channel : Channel} {index : Nat} {run : BatchRun} {work : ModelRuleWork}
      {rest : List ModelRuleWork} (task : DerivedTask) (runs : channel.running[index]? = some run)
      (works : run.works = work :: rest) :
      Moves maxDerived channel (.yieldResult index task)
        { channel with
          premises := channel.premises ++ [work.read]
          running := channel.running.set index { run with results := run.results ++ [task] } }
  | settleWork {channel : Channel} {index : Nat} {run : BatchRun} (rest : List ModelRuleWork)
      (runs : channel.running[index]? = some run) :
      Moves maxDerived channel (.settleWork index)
        { channel with
          owed := trimCapped (channel.owed ++ run.unsettled) maxDerived
          running := channel.running.set index { run with works := rest, results := [] } }
  | throwWork {channel : Channel} {index : Nat} {run : BatchRun}
      (runs : channel.running[index]? = some run) :
      Moves maxDerived channel (.throwWork index)
        { channel with running := channel.running.set index { waits := false, works := [] } }
  | timeOut {channel : Channel} {index : Nat} {run : BatchRun}
      (runs : channel.running[index]? = some run) :
      Moves maxDerived channel (.timeOut index)
        { channel with running := channel.running.set index { run with waits := false } }
  | takeDerived {channel : Channel} :
      Moves maxDerived channel .takeDerived
        { channel with owed := [], premises := channel.premises.drop channel.owed.length }

variable {producer next : LMProposalProducer} {run : BatchRun} {index maxDerived : Nat}
  {event : ProducerEvent} {work : ModelRuleWork} {rest : List ModelRuleWork}
  {outcome : StreamReasoner.FlushOutcome} {running : List BatchRun}

theorem unsettled_of_no_results (none : run.results = []) : run.unsettled = [] := by
  unfold BatchRun.unsettled
  split
  · rfl
  · rw [none]
    rfl

theorem unsettled_yield (works : run.works = work :: rest) (task : DerivedTask) :
    ({ run with results := run.results ++ [task] } : BatchRun).unsettled =
      run.unsettled ++ [work.read] := by
  rw [BatchRun.unsettled, BatchRun.unsettled, works]
  show List.replicate _ work.read = _
  rw [List.length_append, List.length_singleton, List.replicate_succ']

theorem current_eq_some (found : producer.current index = some (run, work, rest)) :
    producer.running[index]? = some run ∧ run.works = work :: rest := by
  unfold current at found
  split at found
  · cases found
  · rename_i batch runs
    split at found
    · cases found
    · rename_i head tail works
      cases found
      exact ⟨runs, works⟩

theorem channel_endFlush (ended : producer.endFlush outcome = some next) :
    next.channel = producer.channel := by
  obtain ⟨reasoner, finished, rfl⟩ := Option.map_eq_some_iff.mp ended
  obtain ⟨batch, _, rfl⟩ := Option.map_eq_some_iff.mp finished
  rw [channel, owed, StreamReasoner.derivedTasks_finish]
  rfl

theorem channel_of_settled {ends} [Decidable ends]
    (settled : (if ends then producer.endFlush outcome else some producer) = some next) :
    next.channel = producer.channel := by
  split at settled
  · exact channel_endFlush settled
  · cases settled
    rfl

theorem owed_settleWork (producer : LMProposalProducer) (index : Nat)
    (works : run.works = work :: rest) :
    (producer.settleWork index run work rest).owed =
      trimCapped (producer.owed ++ run.unsettled) producer.reasoner.options.maxDerived := by
  have own : (run.results.map fun task => ({ task, work } : Derivation)).map (·.work.read) =
      run.unsettled := by
    rw [BatchRun.unsettled, works, List.map_map]
    show run.results.map (fun _ => work.read) = List.replicate run.results.length work.read
    exact List.map_const'
  rw [owed, owed, ← own, ← List.map_append, ← map_trimCapped]
  rfl

theorem owed_stage (producer : LMProposalProducer) (work : ModelRuleWork) :
    (producer.stage work).2.owed = producer.owed := by
  have same := StreamReasoner.derivedTasks_dispatch producer.reasoner work.p1 work.truth true
  unfold stage
  split
  all_goals
    rename_i dispatched
    rw [dispatched] at same
    rw [owed, same, owed]

theorem owed_pump (producer : LMProposalProducer) (granted : Bool) :
    (producer.pump granted).owed = producer.owed := by
  rw [owed, pump, StreamReasoner.derivedTasks_flush, owed]

theorem channel_step (taken : producer.step event = some next) :
    Channel.Moves producer.reasoner.options.maxDerived producer.channel event next.channel := by
  cases event with
  | stage work =>
    cases taken
    have same : (producer.stage work).2.channel = producer.channel := by
      rw [channel, owed_stage]
      unfold stage
      split <;> rfl
    rw [same]
    exact .stage work
  | pump granted =>
    obtain ⟨_, pumped⟩ := Option.ite_none_right_eq_some.mp taken
    cases pumped
    have whole : (producer.pump granted).channel =
        { producer.channel with running := (producer.pump granted).running } := by
      rw [channel, owed_pump]
      rfl
    rw [whole]
    refine .pump granted fun run member => ?_
    obtain ⟨batch, _, rfl⟩ := List.mem_map.mp member
    exact unsettled_of_no_results rfl
  | yieldResult index task =>
    obtain ⟨⟨run, work, rest⟩, found, rfl⟩ := Option.map_eq_some_iff.mp taken
    obtain ⟨runs, works⟩ := current_eq_some found
    exact .yieldResult task runs works
  | settleWork index =>
    obtain ⟨⟨run, work, rest⟩, found, settled⟩ := Option.bind_eq_some_iff.mp taken
    obtain ⟨runs, works⟩ := current_eq_some found
    have same : next.channel = (producer.settleWork index run work rest).channel :=
      channel_of_settled settled
    have whole : (producer.settleWork index run work rest).channel =
        { producer.channel with
          owed := trimCapped (producer.owed ++ run.unsettled) producer.reasoner.options.maxDerived
          running := (producer.settleWork index run work rest).running } := by
      rw [channel, owed_settleWork producer index works]
      rfl
    rw [same, whole]
    exact .settleWork rest runs
  | throwWork index =>
    obtain ⟨⟨run, work, rest⟩, found, thrown⟩ := Option.bind_eq_some_iff.mp taken
    have same : next.channel = (producer.throwWork index).channel := channel_of_settled thrown
    rw [same]
    exact .throwWork (current_eq_some found).1
  | timeOut index =>
    obtain ⟨⟨run, work, rest⟩, found, late⟩ := Option.bind_eq_some_iff.mp taken
    obtain ⟨_, ended⟩ := Option.ite_none_right_eq_some.mp late
    rw [channel_endFlush ended]
    exact .timeOut (current_eq_some found).1
  | takeDerived =>
    cases taken
    have length : producer.owed.length = producer.reasoner.derivedTasks.length :=
      List.length_map _
    have whole : producer.takeDerived.2.channel =
        { producer.channel with
          owed := []
          premises := producer.premises.drop producer.owed.length } := by
      rw [length]
      rfl
    rw [whole]
    exact .takeDerived

theorem reasoner_endFlush (ended : producer.endFlush outcome = some next) :
    producer.reasoner.step (.finish 0 outcome) = some next.reasoner := by
  obtain ⟨reasoner, finished, rfl⟩ := Option.map_eq_some_iff.mp ended
  exact finished

theorem step_reasoner (taken : producer.step event = some next) :
    ∃ events, Run StreamReasoner.step producer.reasoner events next.reasoner := by
  cases event with
  | stage work =>
    cases taken
    refine ⟨[.dispatch work.p1 work.truth true], .cons (congrArg some ?_) (.nil _)⟩
    unfold stage
    split
    all_goals
      rename_i dispatched
      exact congrArg Prod.snd dispatched
  | pump granted =>
    obtain ⟨_, pumped⟩ := Option.ite_none_right_eq_some.mp taken
    cases pumped
    exact ⟨[.flush producer.reasoner.pressure granted], .cons rfl (.nil _)⟩
  | yieldResult index task =>
    obtain ⟨⟨run, work, rest⟩, found, rfl⟩ := Option.map_eq_some_iff.mp taken
    exact ⟨[], .nil _⟩
  | settleWork index =>
    obtain ⟨⟨run, work, rest⟩, found, settled⟩ := Option.bind_eq_some_iff.mp taken
    dsimp only at settled
    split at settled
    · exact ⟨[.settleDerived _, .finish 0 _],
        .cons rfl (.cons (reasoner_endFlush settled) (.nil _))⟩
    · cases settled
      exact ⟨[.settleDerived _], .cons rfl (.nil _)⟩
  | throwWork index =>
    obtain ⟨⟨run, work, rest⟩, found, thrown⟩ := Option.bind_eq_some_iff.mp taken
    dsimp only at thrown
    split at thrown
    · have ended : (producer.throwWork index).reasoner.step (.finish 0 .threw) =
          some next.reasoner := reasoner_endFlush thrown
      exact ⟨[.finish 0 .threw], .cons ended (.nil _)⟩
    · cases thrown
      exact ⟨[], .nil _⟩
  | timeOut index =>
    obtain ⟨⟨run, work, rest⟩, found, late⟩ := Option.bind_eq_some_iff.mp taken
    obtain ⟨_, gaveUp⟩ := Option.ite_none_right_eq_some.mp late
    have ended : (producer.giveUp index run).reasoner.step (.finish 0 .timedOut) =
        some next.reasoner := reasoner_endFlush gaveUp
    exact ⟨[.finish 0 .timedOut], .cons ended (.nil _)⟩
  | takeDerived =>
    cases taken
    exact ⟨[.takeDerived], .cons rfl (.nil _)⟩

theorem run_reasoner {last events} (run : Run step producer events last) :
    ∃ reasonerEvents, Run StreamReasoner.step producer.reasoner reasonerEvents last.reasoner := by
  induction run with
  | nil => exact ⟨[], .nil _⟩
  | cons taken _ ih =>
    obtain ⟨first, firstRun⟩ := step_reasoner taken
    obtain ⟨rest, restRun⟩ := ih
    exact ⟨first ++ rest, firstRun.append restRun⟩

/-! ### Premises that are paired by position -/

theorem mem_takeDerived {taken} :
    taken ∈ producer.takeDerived.1 ↔
      ∃ place : Nat, producer.reasoner.derivedTasks[place]? = some taken.1 ∧
        producer.premises[place]?.getD [] = taken.2 := by
  have drained : ∀ place : Nat, place < producer.reasoner.derivedTasks.length →
      (producer.premises.take producer.reasoner.derivedTasks.length)[place]? =
        producer.premises[place]? := fun place inside => List.getElem?_take_of_lt inside
  unfold takeDerived StreamReasoner.takeDerived
  rw [List.mem_map]
  constructor
  · rintro ⟨⟨derivation, place⟩, member, rfl⟩
    have found := List.mem_zipIdx_iff_getElem?.mp member
    exact ⟨place, found, by rw [← drained place (List.getElem?_eq_some_iff.mp found).1]⟩
  · rintro ⟨place, found, references⟩
    refine ⟨(taken.1, place), List.mem_zipIdx_iff_getElem?.mpr found, Prod.ext rfl ?_⟩
    rw [← references, ← drained place (List.getElem?_eq_some_iff.mp found).1]

theorem takesOwn_iff_begins (producer : LMProposalProducer) :
    producer.TakesOwn ↔ producer.owed <+: producer.premises := by
  rw [List.prefix_iff_getElem?]
  constructor
  · intro own place inside
    have bound : place < producer.reasoner.derivedTasks.length := by
      rwa [owed, List.length_map] at inside
    have references := own (ProposalLifecycle.fresh defaultQueueLimits) 1
      (producer.reasoner.derivedTasks[place], producer.premises[place]?.getD [])
      (mem_takeDerived.mpr ⟨place, List.getElem?_eq_getElem bound, rfl⟩)
    have terms : producer.premises[place]?.getD [] =
        producer.reasoner.derivedTasks[place].work.read := references
    rw [show producer.owed[place] = _ from List.getElem_map _, ← terms]
    cases found : producer.premises[place]? with
    | some there => rfl
    | none =>
      -- A unit of work reads at least one term.
      rw [found] at terms
      cases terms
  · intro begins lifecycle cyclesPerProposal taken member
    obtain ⟨place, found, references⟩ := mem_takeDerived.mp member
    obtain ⟨bound, there⟩ := List.getElem?_eq_some_iff.mp found
    have inside : place < producer.owed.length := by rwa [owed, List.length_map]
    show taken.2 = taken.1.work.read
    rw [← references, begins place inside, Option.getD_some,
      show producer.owed[place] = _ from List.getElem_map _, there]

theorem Channel.Moves.begins_iff {channel next : Channel}
    (moves : Channel.Moves maxDerived channel event next)
    (begins : channel.owed <+: channel.premises) :
    channel.InTurn maxDerived event ↔ next.owed <+: next.premises := by
  cases moves with
  | stage work => exact iff_of_true trivial begins
  | pump granted fresh => exact iff_of_true trivial begins
  | yieldResult task runs works =>
    exact iff_of_true trivial (begins.trans (List.prefix_append _ _))
  | settleWork rest runs =>
    constructor
    · intro turn
      exact turn _ runs
    · intro settled other here
      cases runs.symm.trans here
      exact settled
  | throwWork runs => exact iff_of_true trivial begins
  | timeOut runs => exact iff_of_true trivial begins
  | takeDerived => exact iff_of_true trivial List.nil_prefix

theorem takesOwn_step (own : producer.TakesOwn) (taken : producer.step event = some next) :
    producer.InTurn event ↔ next.TakesOwn := by
  rw [takesOwn_iff_begins] at own ⊢
  exact (channel_step taken).begins_iff own

/-! ### Work that is not disturbed -/

/-- No batch but the one at an index is between a result and its settling. -/
def Alone (running : List BatchRun) (index : Nat) : Prop :=
  ∀ other run, other ≠ index → running[other]? = some run → run.unsettled = []

theorem Alone.set {running} {index : Nat} (alone : Alone running index) (place : Nat) {next}
    (quiet : ∀ run, running[place]? = some run → run.unsettled = [] → next.unsettled = []) :
    Alone (running.set place next) index := by
  intro other run apart found
  rw [List.getElem?_set] at found
  split at found
  · rename_i same
    obtain ⟨inside, here⟩ := Option.ite_none_right_eq_some.mp found
    cases here
    have there := List.getElem?_eq_getElem inside
    exact quiet _ there (alone place _ (same ▸ apart) there)
  · exact alone other run apart found

theorem Alone.set_self (alone : Alone running index) (next : BatchRun) :
    Alone (running.set index next) index := by
  intro other run apart found
  rw [List.getElem?_set_ne (Ne.symm apart)] at found
  exact alone other run apart found

theorem Alone.append {begun} (alone : Alone running index)
    (fresh : ∀ run ∈ begun, run.unsettled = []) : Alone (running ++ begun) index := by
  intro other run apart found
  rcases Nat.lt_or_ge other running.length with inside | outside
  · rw [List.getElem?_append_left inside] at found
    exact alone other run apart found
  · rw [List.getElem?_append_right outside] at found
    exact fresh run (List.mem_of_getElem? found)

theorem Alone.flatMap_eq {place} (alone : Alone running index) (runs : running[place]? = some run)
    (next : BatchRun) (settled : next.unsettled = []) :
    running.flatMap BatchRun.unsettled =
      run.unsettled ++ (running.set place next).flatMap BatchRun.unsettled := by
  by_cases quiet : run.unsettled = []
  · rw [quiet, List.nil_append, flatMap_set runs (settled.trans quiet.symm)]
  · have here : place = index := by
      by_contra apart
      exact quiet (alone place run apart runs)
    subst here
    have inside := (List.getElem?_eq_some_iff.mp runs).1
    have only := alone.set_self next
    rw [flatMap_eq_of_alone runs alone,
      flatMap_eq_of_alone (List.getElem?_set_self inside) only, settled, List.append_nil]

/-- The channel is what is settled and what a batch pushed since, and it is one batch only. -/
structure Channel.Orderly (channel : Channel) : Prop where
  premises : channel.premises = channel.owed ++ channel.running.flatMap BatchRun.unsettled
  alone : ∃ index, Alone channel.running index

theorem length_unsettled_le (run : BatchRun) : run.unsettled.length ≤ run.results.length := by
  unfold BatchRun.unsettled
  split
  · exact Nat.zero_le _
  · exact (List.length_replicate).le

theorem Channel.trimCapped_eq_of_undisturbed {channel : Channel}
    (undisturbed : channel.Undisturbed maxDerived (.settleWork index))
    (runs : channel.running[index]? = some run) :
    trimCapped (channel.owed ++ run.unsettled) maxDerived = channel.owed ++ run.unsettled := by
  have room := undisturbed run runs
  have pushed := length_unsettled_le run
  refine trimCapped_eq_self ?_
  rw [List.length_append]
  omega

theorem Channel.Orderly.inTurn {channel : Channel} (orderly : channel.Orderly)
    (undisturbed : channel.Undisturbed maxDerived event) : channel.InTurn maxDerived event := by
  cases event with
  | settleWork index =>
    intro run runs
    obtain ⟨_, alone⟩ := orderly.alone
    have first := alone.flatMap_eq runs { run with results := [], works := [] } rfl
    rw [Channel.trimCapped_eq_of_undisturbed undisturbed runs, orderly.premises, first,
      ← List.append_assoc]
    exact List.prefix_append _ _
  | _ => exact trivial

theorem Channel.Orderly.moves {maxDerived channel next event} (orderly : channel.Orderly)
    (undisturbed : channel.Undisturbed maxDerived event)
    (moves : Channel.Moves maxDerived channel event next) : next.Orderly := by
  obtain ⟨index, alone⟩ := orderly.alone
  cases moves with
  | stage work => exact orderly
  | pump granted fresh =>
    refine ⟨?_, index, alone.append fresh⟩
    rw [List.flatMap_append, List.flatMap_eq_nil_iff.mpr fresh, List.append_nil]
    exact orderly.premises
  | yieldResult task runs works =>
    rename_i place run work rest
    have others : Alone channel.running place := fun other another apart found =>
      unsettled_of_no_results (undisturbed other another apart found)
    have inside := (List.getElem?_eq_some_iff.mp runs).1
    have still := others.set_self { run with results := run.results ++ [task] }
    refine ⟨?_, place, still⟩
    rw [flatMap_eq_of_alone (List.getElem?_set_self inside) still, unsettled_yield works task,
      orderly.premises, flatMap_eq_of_alone runs others, List.append_assoc]
  | settleWork rest runs =>
    have none : ∀ run : BatchRun,
        ({ run with works := rest, results := [] } : BatchRun).unsettled = [] :=
      fun run => unsettled_of_no_results rfl
    refine ⟨?_, index, alone.set _ fun _ _ _ => none _⟩
    rw [Channel.trimCapped_eq_of_undisturbed undisturbed runs, List.append_assoc,
      ← alone.flatMap_eq runs _ (none _)]
    exact orderly.premises
  | throwWork runs =>
    rename_i place run
    have same : ({ waits := false, works := [] } : BatchRun).unsettled = run.unsettled :=
      (unsettled_of_no_results (undisturbed run runs)).symm
    refine ⟨?_, index, alone.set _ fun _ _ _ => rfl⟩
    rw [flatMap_set runs same]
    exact orderly.premises
  | timeOut runs =>
    rename_i place run
    have same : ({ run with waits := false } : BatchRun).unsettled = run.unsettled := rfl
    refine ⟨?_, index, alone.set _ fun other found quiet => ?_⟩
    · rw [flatMap_set runs same]
      exact orderly.premises
    · cases runs.symm.trans found
      exact quiet
  | takeDerived =>
    refine ⟨?_, index, alone⟩
    rw [orderly.premises, List.drop_left, List.nil_append]

section

variable {options : StreamReasonerOptions} {last : LMProposalProducer}
  {events : List ProducerEvent}

/-- Over every run the boundary pairs each task with the premises of its own work at whatever point
it comes, exactly where each unit of work is done in turn, as it is where none is disturbed. -/
theorem takesOwn_iff (run : Run step (new options) events last) :
    (Run.Meets step InTurn (new options) events ↔
        ∀ reached, Run.Passes step (new options) events reached → reached.TakesOwn) ∧
      (Run.Meets step Undisturbed (new options) events →
        Run.Meets step InTurn (new options) events) := by
  have own : (new options).TakesOwn := (takesOwn_iff_begins _).mpr List.nil_prefix
  constructor
  · exact run.meets_iff_passes (fun _ _ _ holds taken => takesOwn_step holds taken) own
  · intro undisturbed
    have orderly : (new options).channel.Orderly := ⟨rfl, 0, fun _ _ _ found => by cases found⟩
    refine undisturbed.imp
      (fun producer _ _ (held : producer.channel.Orderly) _ met => held.inTurn met) ?_ orderly
    intro producer event next held taken met
    exact held.moves met (channel_step taken)

end

/-! ### Bounds -/

/-- The options are still the same, and no more tasks are settled than they allow. -/
def WithinBound (options : StreamReasonerOptions) (reasoner : StreamReasoner Derivation) : Prop :=
  reasoner.options = options ∧ reasoner.derivedTasks.length ≤ options.maxDerived

theorem WithinBound.step {options} {reasoner next : StreamReasoner Derivation} {event}
    (kept : WithinBound options reasoner) (taken : reasoner.step event = some next) :
    WithinBound options next := by
  unfold WithinBound at kept ⊢
  cases event with
  | dispatch prompt prior derives =>
    cases taken
    rw [StreamReasoner.derivedTasks_dispatch]
    unfold StreamReasoner.dispatch
    grind
  | flush pressure granted =>
    cases taken
    rw [StreamReasoner.derivedTasks_flush]
    unfold StreamReasoner.flush
    grind
  | finish index outcome =>
    obtain ⟨batch, _, rfl⟩ := Option.map_eq_some_iff.mp taken
    rw [StreamReasoner.derivedTasks_finish]
    cases outcome <;> exact kept
  | settleDerived tasks =>
    cases taken
    refine ⟨kept.1, ?_⟩
    rw [StreamReasoner.settleDerived, trimCapped, List.length_drop, kept.1]
    omega
  | takeDerived =>
    cases taken
    exact ⟨kept.1, Nat.zero_le _⟩

/-- However staging, flushes, results and drains are interleaved, and whatever throws or is given
up, no two requests that are queued or in flight have one identifier, and neither the queue nor the
settled tasks outgrow their bounds. -/
theorem bounded_of_run {options : StreamReasonerOptions} {last : LMProposalProducer} {events}
    (run : Run step (new options) events last) :
    last.reasoner.liveIds.Nodup ∧ last.reasoner.queue.length ≤ options.maxPending ∧
      last.reasoner.derivedTasks.length ≤ options.maxDerived := by
  obtain ⟨_, reasonerRun⟩ := run_reasoner run
  have numbered : last.reasoner.Numbered :=
    reasonerRun.keeps (fun _ _ _ => StreamReasoner.numbered_step)
      (StreamReasoner.numbered_new options)
  have kept : WithinBound options last.reasoner :=
    reasonerRun.keeps (fun _ _ _ => WithinBound.step) ⟨rfl, Nat.zero_le _⟩
  exact ⟨numbered.nodup, kept.1 ▸ numbered.bounded, kept.2⟩

/-! ### A unit of work that throws -/

def flies : DerivedTask where
  taskType := .belief
  term := "flies"
  truth := none
  stampId := "first"

def swims : DerivedTask := { flies with term := "swims", stampId := "second" }

def birdWork : ModelRuleWork where
  p1 := "bird"

def fishWork : ModelRuleWork where
  p1 := "fish"

/-- Two units of work of a batch are done one after the other. -/
def quietRun : List ProducerEvent :=
  [.stage birdWork, .stage fishWork, .pump true, .yieldResult 0 flies, .settleWork 0,
    .yieldResult 0 swims, .settleWork 0]

theorem takesOwn_iff_quietRun :
    ∃ last, Run step (new StreamReasoner.defaultOptions) quietRun last ∧
      (Run.Meets step InTurn (new StreamReasoner.defaultOptions) quietRun ↔
          ∀ reached, Run.Passes step (new StreamReasoner.defaultOptions) quietRun reached →
            reached.TakesOwn) ∧
        (Run.Meets step Undisturbed (new StreamReasoner.defaultOptions) quietRun →
          Run.Meets step InTurn (new StreamReasoner.defaultOptions) quietRun) := by
  have runs : (execute step (new StreamReasoner.defaultOptions) quietRun).isSome := by
    decide +kernel
  obtain ⟨last, taken⟩ := Option.isSome_iff_exists.mp runs
  have run := run_of_execute taken
  exact ⟨last, run, takesOwn_iff run⟩

theorem bounded_of_run_staged :
    let last := ((new StreamReasoner.defaultOptions).stage birdWork).2
    last.reasoner.liveIds.Nodup ∧
      last.reasoner.queue.length ≤ StreamReasoner.defaultOptions.maxPending ∧
      last.reasoner.derivedTasks.length ≤ StreamReasoner.defaultOptions.maxDerived :=
  bounded_of_run (run_of_execute rfl : Run step _ [.stage birdWork] _)

/-- Work throws after its first result, and the work of the next flush is done. -/
def thrownRun : List ProducerEvent :=
  [.stage birdWork, .pump true, .yieldResult 0 flies, .throwWork 0, .stage fishWork, .pump true,
    .yieldResult 1 swims, .settleWork 1]

theorem thrownRun_takes : ((execute step (new StreamReasoner.defaultOptions) thrownRun).map
    fun producer => producer.takeDerived.1.map fun (derivation, references) =>
      (derivation.task, derivation.work.read, references)) =
    some [(swims, ["fish"], ["bird"])] := by
  decide +kernel

theorem thrown_work_takes_others :
    ¬ ∀ (options : StreamReasonerOptions) (events : List ProducerEvent)
      (last : LMProposalProducer), Run step (new options) events last → last.TakesOwn := by
  intro always
  obtain ⟨last, taken, pairs⟩ := Option.map_eq_some_iff.mp thrownRun_takes
  have own := always StreamReasoner.defaultOptions thrownRun last (run_of_execute taken)
  rcases drained : last.takeDerived.1 with _ | ⟨⟨derivation, references⟩, rest⟩
  · rw [drained] at pairs
    cases pairs
  · rw [drained, List.map_cons] at pairs
    obtain ⟨_, terms⟩ := Prod.mk.inj (List.cons.inj pairs).1
    obtain ⟨read, others⟩ := Prod.mk.inj terms
    have same : references = derivation.work.read :=
      own (ProposalLifecycle.fresh defaultQueueLimits) 1 (derivation, references)
        (drained ▸ List.mem_cons_self)
    rw [read, others] at same
    exact absurd same (by decide)

end LMProposalProducer

end Senars.Proposals
