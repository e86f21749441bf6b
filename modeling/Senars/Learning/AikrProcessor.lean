/-
This file is the bounded processor over a bag: candidates are admitted, a pass samples
some of them, hands them to the process function, and when that has returned removes them
by their ids. Passes overlap, since each is suspended while the function runs.

A pass leaves what it samples in the bag until it is through. So each candidate is
handed over once, and no pass removes what it did not process, exactly where no pass
samples what one that has not consumed it sampled before, and none ends while the bag
has another candidate under one of its ids.
-/

import Senars.Learning.Bag
import Senars.Library.Lists
import Senars.Library.Runs

namespace Senars.Learning

open Library Library.JsNumber

/-- A strategy picks some of the items, none of them twice, by what it draws. -/
structure BagSamplingStrategy (Rng : Type) where
  select : List BagItem → ℕ → Rng → List BagItem
  subperm : ∀ items budget rng, (select items budget rng).Subperm items

/-- What a processor or its shell is made with. -/
structure AikrConfig (Rng : Type) where
  samplingStrategy : BagSamplingStrategy Rng
  pressureThreshold : JsNumber := .finite (7 / 10)
  budget : ℕ := 4

/-- How a pass ends: the process function returns, with the signal aborted or not, or rejects. -/
inductive PassEnd where
  | consumed | aborted | rejected
  deriving DecidableEq

/-- A pass: what it handed to the process function, how it has ended, and what it removed. -/
structure Pass where
  sampled : List BagItem
  ended : Option PassEnd := none
  removed : List BagItem := []
  deriving DecidableEq

/-- A processor with its bag, the candidates that were presented to it, and the passes that have
begun. -/
structure AikrProcessor where
  bag : PriorityBag
  presented : ℕ := 0
  passes : List Pass := []
  deriving DecidableEq

/-- What can happen: a candidate is presented, the items decay, a pass begins, which may be one that
is inert below the threshold, and a pass ends. -/
inductive AikrEvent (Rng : Type) where
  | admitCandidate (id : String) (priority : JsNumber)
  | decay (rate : Option JsNumber)
  | process (ifPressured : Bool) (budget : Option ℕ) (rng : Rng)
  | ends (pass : ℕ) (how : PassEnd)

namespace Pass

/-- The serial numbers of what a pass handed over. -/
def serials (pass : Pass) : List ℕ := pass.sampled.map (·.serial)

/-- The ids a pass removes. -/
def ids (pass : Pass) : List String := pass.sampled.map (·.id)

/-- The pass once it has removed what it sampled from a bag. -/
def consume (pass : Pass) (bag : PriorityBag) : Pass :=
  { pass with ended := some .consumed, removed := bag.list.filter (·.id ∈ pass.ids) }

end Pass

namespace AikrProcessor

variable {Rng : Type}

/-- Admit a candidate, which the bag may not take. -/
def admitCandidate (processor : AikrProcessor) (id : String) (priority : JsNumber) :
    AikrProcessor :=
  { processor with
    bag := (processor.bag.add ⟨processor.presented, id, priority⟩).getD processor.bag
    presented := processor.presented + 1 }

/-- What a pass that begins hands to the process function. -/
def sampled (config : AikrConfig Rng) (processor : AikrProcessor) (ifPressured : Bool)
    (budget : Option ℕ) (rng : Rng) : List BagItem :=
  if ifPressured ∧ less processor.bag.pressure config.pressureThreshold then []
  else config.samplingStrategy.select processor.bag.list (budget.getD config.budget) rng

/-- A pass begins, unless there is nothing to process. -/
def begin (processor : AikrProcessor) (sampled : List BagItem) : AikrProcessor :=
  if sampled = [] then processor
  else { processor with passes := processor.passes ++ [{ sampled }] }

/-- A pass is through, and what it sampled is removed by the ids, unless it was aborted or the
process function failed. -/
def finish (processor : AikrProcessor) (number : ℕ) (pass : Pass) : PassEnd → AikrProcessor
  | .consumed =>
    { processor with
      bag := processor.bag.removeAll pass.ids
      passes := processor.passes.set number (pass.consume processor.bag) }
  | how => { processor with passes := processor.passes.set number { pass with ended := some how } }

def step (config : AikrConfig Rng) : Machine AikrProcessor (AikrEvent Rng)
  | processor, .admitCandidate id priority => some (processor.admitCandidate id priority)
  | processor, .decay rate => some { processor with bag := processor.bag.decay rate }
  | processor, .process ifPressured budget rng =>
    some (processor.begin (processor.sampled config ifPressured budget rng))
  | processor, .ends number how =>
    match processor.passes[number]? with
    | some pass => if pass.ended = none then some (processor.finish number pass how) else none
    | none => none

variable {processor : AikrProcessor} {number : ℕ}

theorem step_ends {config : AikrConfig Rng} {next how}
    (taken : step config processor (.ends number how) = some next) :
    ∃ pass, processor.passes[number]? = some pass ∧ pass.ended = none ∧
      next = processor.finish number pass how := by
  simp only [step] at taken
  split at taken
  · rename_i pass found
    split at taken
    · rename_i unended
      exact ⟨pass, found, unended, (Option.some.inj taken).symm⟩
    · cases taken
  · cases taken

/-! ### What is consumed -/

/-- Each candidate is handed to the process function at most once, and what a pass removes it has
processed. -/
structure ConsumesOnce (processor : AikrProcessor) : Prop where
  once : (processor.passes.flatMap Pass.serials).Nodup
  own : ∀ pass ∈ processor.passes, ∀ item ∈ pass.removed, item.serial ∈ pass.serials

/-- What an event must not meet: a pass that begins with what one that has not consumed it sampled,
or one that ends while another candidate in the bag has an id it removes. -/
def ClashFree (config : AikrConfig Rng) (processor : AikrProcessor) : AikrEvent Rng → Prop
  | .process ifPressured budget rng =>
    ∀ item ∈ processor.sampled config ifPressured budget rng, ∀ pass ∈ processor.passes,
      pass.ended ≠ some .consumed → item.serial ∉ pass.serials
  | .ends number .consumed =>
    ∀ pass, processor.passes[number]? = some pass →
      ∀ item ∈ processor.bag.list, item.id ∈ pass.ids → item.serial ∈ pass.serials
  | _ => True

/-- The candidates are told apart by their serial numbers, and what a pass consumed is gone. -/
structure Kept (processor : AikrProcessor) : Prop where
  distinct : (processor.bag.names.map Prod.fst).Nodup
  known : ∀ name ∈ processor.bag.names, name.1 < processor.presented
  sampledKnown : ∀ pass ∈ processor.passes, ∀ item ∈ pass.sampled,
    item.serial < processor.presented
  named : ∀ pass ∈ processor.passes, ∀ item ∈ pass.sampled, ∀ name ∈ processor.bag.names,
    name.1 = item.serial → name.2 = item.id
  gone : ∀ pass ∈ processor.passes, pass.ended = some .consumed →
    ∀ name ∈ processor.bag.names, name.1 ∉ pass.serials

theorem Kept.of_sublist (kept : processor.Kept) {bag}
    (less : bag.names.Sublist processor.bag.names) : Kept { processor with bag } where
  distinct := kept.distinct.sublist (less.map _)
  known := fun name isNamed => kept.known name (less.subset isNamed)
  sampledKnown := kept.sampledKnown
  named := fun pass isPass item isItem name isNamed =>
    kept.named pass isPass item isItem name (less.subset isNamed)
  gone := fun pass isPass consumed name isNamed =>
    kept.gone pass isPass consumed name (less.subset isNamed)

theorem sampled_subperm (config : AikrConfig Rng) (processor : AikrProcessor) (ifPressured : Bool)
    (budget : Option ℕ) (rng : Rng) :
    (processor.sampled config ifPressured budget rng).Subperm processor.bag.list := by
  unfold sampled
  split
  · exact List.nil_subperm
  · exact config.samplingStrategy.subperm _ _ _

theorem Kept.admitCandidate {processor : AikrProcessor} (kept : processor.Kept) (id : String)
    (priority : JsNumber) : (processor.admitCandidate id priority).Kept := by
  have within : (processor.admitCandidate id priority).bag.names.Subperm
      ((processor.presented, id) :: processor.bag.names) := by
    unfold AikrProcessor.admitCandidate
    cases added : processor.bag.add ⟨processor.presented, id, priority⟩ with
    | none => exact (List.sublist_cons_self _ _).subperm
    | some bag => exact PriorityBag.names_add added
  have new : ∀ name ∈ (processor.admitCandidate id priority).bag.names,
      name = (processor.presented, id) ∨ name ∈ processor.bag.names :=
    fun name isNamed => List.mem_cons.mp (within.subset isNamed)
  exact {
    distinct := by
      refine nodup_map_of_subperm within (List.nodup_cons.mpr ⟨fun isOld => ?_, kept.distinct⟩)
      obtain ⟨name, isNamed, same⟩ := List.mem_map.mp isOld
      exact absurd same (kept.known name isNamed).ne
    known := fun name isNamed => by
      rcases new name isNamed with rfl | old
      · exact Nat.lt_succ_self _
      · exact Nat.lt_succ_of_lt (kept.known name old)
    sampledKnown := fun pass isPass item isItem =>
      Nat.lt_succ_of_lt (kept.sampledKnown pass isPass item isItem)
    named := fun pass isPass item isItem name isNamed same => by
      rcases new name isNamed with rfl | old
      · exact absurd same.symm (kept.sampledKnown pass isPass item isItem).ne
      · exact kept.named pass isPass item isItem name old same
    gone := fun pass isPass consumed name isNamed => by
      rcases new name isNamed with rfl | old
      · intro isSampled
        obtain ⟨item, isItem, same⟩ := List.mem_map.mp isSampled
        exact absurd same (kept.sampledKnown pass isPass item isItem).ne
      · exact kept.gone pass isPass consumed name old }

theorem Kept.name_eq (kept : processor.Kept) {one other} (isOne : one ∈ processor.bag.names)
    (isOther : other ∈ processor.bag.names) (same : one.1 = other.1) : one = other :=
  List.inj_on_of_nodup_map kept.distinct isOne isOther same

theorem Kept.begin {processor : AikrProcessor} (kept : processor.Kept) {sampled}
    (within : sampled.Subperm processor.bag.list) : (processor.begin sampled).Kept := by
  unfold AikrProcessor.begin
  split
  · exact kept
  have inBag : ∀ item ∈ sampled, item.name ∈ processor.bag.names := fun item isItem =>
    List.mem_map_of_mem (within.subset isItem)
  have passesOf : ∀ pass ∈ processor.passes ++ [({ sampled } : Pass)],
      pass ∈ processor.passes ∨ pass = ({ sampled } : Pass) := fun pass isPass =>
    (List.mem_append.mp isPass).imp_right List.mem_singleton.mp
  exact {
    distinct := kept.distinct
    known := kept.known
    sampledKnown := fun pass isPass item isItem => by
      rcases passesOf pass isPass with old | rfl
      · exact kept.sampledKnown pass old item isItem
      · exact kept.known _ (inBag item isItem)
    named := fun pass isPass item isItem name isNamed same => by
      rcases passesOf pass isPass with old | rfl
      · exact kept.named pass old item isItem name isNamed same
      · rw [kept.name_eq isNamed (inBag item isItem) same]
        rfl
    gone := fun pass isPass consumed name isNamed => by
      rcases passesOf pass isPass with old | rfl
      · exact kept.gone pass old consumed name isNamed
      · cases consumed }

theorem mem_set {passes : List Pass} {ended other} (isPass : other ∈ passes.set number ended) :
    other = ended ∨ other ∈ passes :=
  (List.mem_or_eq_of_mem_set isPass).symm

theorem Kept.finish {processor : AikrProcessor} (kept : processor.Kept) {number pass}
    (found : processor.passes[number]? = some pass) (how : PassEnd) :
    (processor.finish number pass how).Kept := by
  have isPass : pass ∈ processor.passes := List.mem_of_getElem? found
  -- nothing but the end of the pass, and what it has removed, has changed
  have ends : ∀ (ended : Pass), ended.sampled = pass.sampled → ∀ bag : PriorityBag,
      bag.names.Sublist processor.bag.names →
      (ended.ended = some .consumed → ∀ name ∈ bag.names, name.1 ∉ pass.serials) →
      Kept { processor with bag, passes := processor.passes.set number ended } := by
    intro ended same bag shrinks gone
    exact {
      distinct := kept.distinct.sublist (shrinks.map _)
      known := fun name isNamed => kept.known name (shrinks.subset isNamed)
      sampledKnown := fun other isOther item isItem => by
        rcases mem_set isOther with rfl | old
        · exact kept.sampledKnown pass isPass item (same ▸ isItem)
        · exact kept.sampledKnown other old item isItem
      named := fun other isOther item isItem name isNamed => by
        rcases mem_set isOther with rfl | old
        · exact kept.named pass isPass item (same ▸ isItem) name (shrinks.subset isNamed)
        · exact kept.named other old item isItem name (shrinks.subset isNamed)
      gone := fun other isOther consumed name isNamed => by
        rcases mem_set isOther with rfl | old
        · unfold Pass.serials
          rw [same]
          exact gone consumed name isNamed
        · exact kept.gone other old consumed name (shrinks.subset isNamed) }
  cases how with
  | consumed =>
    refine ends (pass.consume processor.bag) rfl (processor.bag.removeAll pass.ids) ?_
      fun _ name isNamed isSampled => ?_
    · rw [PriorityBag.names_removeAll]
      exact List.filter_sublist
    · rw [PriorityBag.names_removeAll] at isNamed
      obtain ⟨old, survives⟩ := List.mem_filter.mp isNamed
      obtain ⟨item, isItem, same⟩ := List.mem_map.mp isSampled
      have sameId := kept.named pass isPass item isItem name old same.symm
      exact of_decide_eq_true survives (sameId ▸ List.mem_map_of_mem isItem)
  | aborted =>
    exact ends { pass with ended := some .aborted } rfl processor.bag (.refl _)
      fun consumed => by cases consumed
  | rejected =>
    exact ends { pass with ended := some .rejected } rfl processor.bag (.refl _)
      fun consumed => by cases consumed

theorem Kept.step {config processor next} (kept : processor.Kept) {event : AikrEvent Rng}
    (taken : step config processor event = some next) : next.Kept := by
  cases event with
  | admitCandidate id priority =>
    cases taken
    exact kept.admitCandidate id priority
  | decay rate =>
    cases taken
    exact kept.of_sublist (processor.bag.names_decay rate)
  | process ifPressured budget rng =>
    cases taken
    exact kept.begin (sampled_subperm config processor ifPressured budget rng)
  | ends number how =>
    obtain ⟨pass, found, -, rfl⟩ := step_ends taken
    exact kept.finish found how

/-! ### Consuming once -/

theorem ConsumesOnce.begin_iff (consumes : processor.ConsumesOnce) (kept : processor.Kept)
    {sampled} (within : sampled.Subperm processor.bag.list) :
    (processor.begin sampled).ConsumesOnce ↔
      ∀ item ∈ sampled, ∀ pass ∈ processor.passes, pass.ended ≠ some .consumed →
        item.serial ∉ pass.serials := by
  by_cases nothing : sampled = []
  · subst nothing
    exact iff_of_true consumes fun item isItem => absurd isItem List.not_mem_nil
  have begun : processor.begin sampled =
      { processor with passes := processor.passes ++ [{ sampled }] } := if_neg nothing
  rw [begun]
  have serials : (processor.passes ++ [({ sampled } : Pass)]).flatMap Pass.serials =
      processor.passes.flatMap Pass.serials ++ sampled.map (·.serial) := by
    rw [List.flatMap_append, List.flatMap_singleton]
    rfl
  constructor
  · intro once item isItem pass isPass _ isSampled
    have distinct := once.once
    rw [serials] at distinct
    exact (List.nodup_append.mp distinct).2.2 _ (List.mem_flatMap.mpr ⟨pass, isPass, isSampled⟩) _
      (List.mem_map_of_mem isItem) rfl
  · intro free
    have distinct : (sampled.map (·.serial)).Nodup := by
      have names := kept.distinct
      rw [PriorityBag.names, List.map_map] at names
      exact nodup_map_of_subperm within names
    refine ⟨?_, fun pass isPass item isRemoved => ?_⟩
    · rw [serials]
      refine List.nodup_append.mpr ⟨consumes.once, distinct, fun old isOld new isNew same => ?_⟩
      obtain ⟨pass, isPass, isSampled⟩ := List.mem_flatMap.mp isOld
      obtain ⟨item, isItem, rfl⟩ := List.mem_map.mp isNew
      subst same
      by_cases consumed : pass.ended = some .consumed
      · have inBag := List.mem_map_of_mem (f := BagItem.name) (within.subset isItem)
        exact kept.gone pass isPass consumed _ inBag isSampled
      · exact free item isItem pass isPass consumed isSampled
    · rcases List.mem_append.mp isPass with old | new
      · exact consumes.own pass old item isRemoved
      · obtain rfl := List.mem_singleton.mp new
        cases isRemoved

theorem ConsumesOnce.finish_iff (consumes : processor.ConsumesOnce) {pass}
    (found : processor.passes[number]? = some pass) :
    (processor.finish number pass .consumed).ConsumesOnce ↔
      ∀ item ∈ processor.bag.list, item.id ∈ pass.ids → item.serial ∈ pass.serials := by
  have within : number < processor.passes.length := (List.getElem?_eq_some_iff.mp found).1
  constructor
  · intro once item isItem isDoomed
    have isPass : pass.consume processor.bag ∈
        (processor.finish number pass .consumed).passes := List.mem_set within _
    have isRemoved : item ∈ (pass.consume processor.bag).removed :=
      List.mem_filter.mpr ⟨isItem, decide_eq_true isDoomed⟩
    exact once.own _ isPass item isRemoved
  · intro own
    refine ⟨?_, fun other isOther item isRemoved => ?_⟩
    · show ((processor.passes.set number (pass.consume processor.bag)).flatMap
        Pass.serials).Nodup
      have same : (pass.consume processor.bag).serials = pass.serials := rfl
      rw [flatMap_set found same]
      exact consumes.once
    · rcases mem_set isOther with rfl | old
      · obtain ⟨isItem, isDoomed⟩ := List.mem_filter.mp isRemoved
        exact own item isItem (of_decide_eq_true isDoomed)
      · exact consumes.own other old item isRemoved

theorem ConsumesOnce.of_ended (consumes : processor.ConsumesOnce) {pass}
    (found : processor.passes[number]? = some pass) (how : PassEnd) :
    ConsumesOnce { processor with
      passes := processor.passes.set number { pass with ended := some how } } := by
  refine ⟨?_, fun other isOther item isRemoved => ?_⟩
  · have same : ({ pass with ended := some how } : Pass).serials = pass.serials := rfl
    rw [flatMap_set found same]
    exact consumes.once
  · rcases mem_set isOther with rfl | old
    · exact consumes.own pass (List.mem_of_getElem? found) item isRemoved
    · exact consumes.own other old item isRemoved

theorem ConsumesOnce.step_iff {config : AikrConfig Rng} {next} (consumes : processor.ConsumesOnce)
    (kept : processor.Kept) {event} (taken : step config processor event = some next) :
    ClashFree config processor event ↔ next.ConsumesOnce := by
  cases event with
  | admitCandidate id priority =>
    cases taken
    exact iff_of_true trivial ⟨consumes.once, consumes.own⟩
  | decay rate =>
    cases taken
    exact iff_of_true trivial ⟨consumes.once, consumes.own⟩
  | process ifPressured budget rng =>
    cases taken
    exact (consumes.begin_iff kept
      (sampled_subperm config processor ifPressured budget rng)).symm
  | ends number how =>
    obtain ⟨pass, found, -, rfl⟩ := step_ends taken
    cases how with
    | consumed =>
      rw [consumes.finish_iff found]
      constructor
      · exact fun free => free pass found
      · intro own other isOther
        cases found.symm.trans isOther
        exact own
    | aborted => exact iff_of_true trivial (consumes.of_ended found .aborted)
    | rejected => exact iff_of_true trivial (consumes.of_ended found .rejected)

/-- A processor with an empty bag. -/
def start (capacity : ℕ) (decayRate forgetRate : JsNumber) : AikrProcessor :=
  { bag := { capacity, decayRate, forgetRate } }

theorem kept_start (capacity : ℕ) (decayRate forgetRate : JsNumber) :
    (start capacity decayRate forgetRate).Kept where
  distinct := List.nodup_nil
  known := fun _ isNamed => absurd isNamed List.not_mem_nil
  sampledKnown := fun _ isPass => absurd isPass List.not_mem_nil
  named := fun _ isPass => absurd isPass List.not_mem_nil
  gone := fun _ isPass => absurd isPass List.not_mem_nil

/-- In a run each candidate is handed over at most once, and each pass removes what it processed,
all the way, exactly where no pass begins with what one that has not consumed it sampled, and none
ends while another candidate in the bag has an id it removes. -/
theorem consumesOnce_iff {config : AikrConfig Rng} {capacity : ℕ} {decayRate forgetRate : JsNumber}
    {events : List (AikrEvent Rng)} {last : AikrProcessor}
    (run : Run (step config) (start capacity decayRate forgetRate) events last) :
    Run.Meets (step config) (ClashFree config) (start capacity decayRate forgetRate) events ↔
      ∀ reached, Run.Passes (step config) (start capacity decayRate forgetRate) events reached →
        reached.ConsumesOnce := by
  have agree : ∀ (processor : AikrProcessor) (event : AikrEvent Rng) next,
      (processor.Kept ∧ processor.ConsumesOnce) → step config processor event = some next →
        (ClashFree config processor event ↔ next.Kept ∧ next.ConsumesOnce) := by
    rintro processor event next ⟨kept, consumes⟩ taken
    rw [consumes.step_iff kept taken]
    exact (and_iff_right (kept.step taken)).symm
  have empty : (start capacity decayRate forgetRate).ConsumesOnce :=
    ⟨List.nodup_nil, fun _ isPass => absurd isPass List.not_mem_nil⟩
  have always := Run.meets_iff_passes agree run ⟨kept_start capacity decayRate forgetRate, empty⟩
  refine always.trans (forall_congr' fun reached => forall_congr' fun passes => ?_)
  refine and_iff_right ?_
  obtain ⟨before, after, -, toReached⟩ := passes
  have keeps : ∀ (processor : AikrProcessor) (event : AikrEvent Rng) next, processor.Kept →
      step config processor event = some next → next.Kept :=
    fun _ _ _ kept taken => kept.step taken
  exact toReached.keeps keeps (kept_start capacity decayRate forgetRate)

/-- The first ones are picked. -/
def greedy : BagSamplingStrategy Unit where
  select items budget _ := items.take budget
  subperm items budget _ := (List.take_sublist budget items).subperm

/-- A candidate is admitted, and two passes begin before either is through. -/
def twoDrains : List (AikrEvent Unit) :=
  [.admitCandidate "proposal" 1, .process false none (), .process false none (), .ends 0 .consumed,
    .ends 1 .consumed]

theorem consumesOnce_iff_twoDrains : ∃ last,
    execute (step ⟨greedy, 0, 4⟩) (start 8 0 0) twoDrains = some last ∧
      (Run.Meets (step ⟨greedy, 0, 4⟩) (ClashFree ⟨greedy, 0, 4⟩) (start 8 0 0) twoDrains ↔
        ∀ reached, Run.Passes (step ⟨greedy, 0, 4⟩) (start 8 0 0) twoDrains reached →
          reached.ConsumesOnce) := by
  have canRun : (execute (step ⟨greedy, 0, 4⟩) (start 8 0 0) twoDrains).isSome = true := by
    decide +kernel
  obtain ⟨last, done⟩ := Option.isSome_iff_exists.mp canRun
  exact ⟨last, done, consumesOnce_iff (run_of_execute done)⟩

/-- Both passes process the one candidate. -/
theorem processed_twice : ¬ ∀ (config : AikrConfig Unit) (capacity : ℕ)
    (decayRate forgetRate : JsNumber) (events : List (AikrEvent Unit)) (last : AikrProcessor),
    Run (step config) (start capacity decayRate forgetRate) events last → last.ConsumesOnce := by
  intro always
  have canRun : (execute (step ⟨greedy, 0, 4⟩) (start 8 0 0) twoDrains).any
      (fun last => last.passes.flatMap Pass.serials = [0, 0]) = true := by
    decide +kernel
  obtain ⟨last, done, twice⟩ := (Option.any_eq_true _ _).mp canRun
  have once := (always _ _ _ _ _ last (run_of_execute done)).once
  rw [of_decide_eq_true twice] at once
  exact absurd once (by decide)

end AikrProcessor

end Senars.Learning
