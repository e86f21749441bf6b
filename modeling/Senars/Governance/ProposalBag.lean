/-
This file is the bag of proposals for self-improvement: a priority bag of candidates that
are drained into governance. A proposal that is admitted supersedes the candidates of its
scope, whose priorities are halved where they are.

The bag is not told of what is halved. So its entries stay by falling priority with their
sum for its total, and what overflows is the lowest, exactly where, at each admission, the
candidates of the scope sum to zero and halving them leaves the bag in order, and each decay
at a rate above one keeps candidates of one priority only. Priorities and rates are exact.
-/

import Senars.Bag.Representation
import Senars.CoActivation.ConceptGraph
import Senars.Governance.Pipeline

namespace Senars.Governance

open Library Bag Bag.PriorityBag

/-! ### Candidates -/

instance {Key Value : Type} [DecidableEq Key] [DecidableEq Value] :
    DecidableEq (OrderedMap Key Value) := fun first second =>
  decidable_of_iff (first.entries = second.entries)
    ⟨fun same => by cases first; cases second; cases same; rfl, fun same => same ▸ rfl⟩

deriving instance DecidableEq for SelfImprovementProposal

/-- A candidate is an object: `serial` tells it from others made of equal proposals. Its priority
is kept where the object is. -/
structure ProposalCandidate where
  serial : ℕ
  id : String
  proposal : SelfImprovementProposal
  scope : String
  deriving DecidableEq

def kindImpact : ProposalKind → ℚ
  | .strategySwitch => 9 / 10
  | .schemaPromotion => 8 / 10
  | .patchApply => 8 / 10
  | .knobTune => 6 / 10
  | .focusWeight => 5 / 10
  | .testGenerate => 4 / 10
  | .schemaEvolution => 7 / 10
  | .mettaRuleAdoption => 7 / 10

def riskInverse : CapabilityRisk → ℚ
  | .low => 1
  | .medium => 6 / 10
  | .high => 2 / 10

/-- A proposal supersedes older ones of its kind and target. -/
def proposalScope (proposal : SelfImprovementProposal) : String :=
  let target :=
    match proposal.payload.get "knob", proposal.payload.get "focusId",
      proposal.payload.get "strategy" with
    | some (.text knob), _, _ => knob
    | _, some (.text focusId), _ => focusId
    | _, _, some (.text strategy) => strategy
    | _, _, _ => ""
  proposal.kind.text ++ ":" ++ target

/-- Highest priority first, ties by id, up to the budget. -/
def selectByPriority (priority : ProposalCandidate → ℚ) (items : List ProposalCandidate)
    (budget : ℕ) : List ProposalCandidate :=
  if budget = 0 then []
  else CoActivation.selectBest budget id
    (fun candidate incumbent => decide (priority incumbent < priority candidate) ||
      decide (priority candidate = priority incumbent) &&
        decide (codeUnits candidate.id < codeUnits incumbent.id))
    (fun _ => true) items []

/-! ### The bag -/

structure ProposalBagOptions where
  capacity : ℕ := 64
  forgetRate : ℚ := 1 / 1000
  pressureThreshold : ℚ := 4 / 10
  budget : ℕ := 4
  alignmentOf : SelfImprovementProposal → ℚ := fun _ => 1

/-- A drain hands over what it sampled and removes it when it is through. -/
structure DrainPass where
  sampled : List ProposalCandidate
  ended : Bool := false

/-- What overflowed when a proposal was admitted, and what was left, by their priorities. -/
structure Eviction where
  dropped : ℚ
  left : List ℚ

/-- The bag of proposals, with what has overflowed so far. -/
structure ProposalBag where
  priority : ProposalCandidate → ℚ
  bag : PriorityBag ProposalCandidate
  admitted : ℕ := 0
  passes : List DrainPass := []
  evictions : List Eviction := []

inductive ProposalBagEvent where
  | admitProposal (proposal : SelfImprovementProposal) (now : ℚ)
  | drain (budget : Option ℕ)
  | drainIfPressured (budget : Option ℕ)
  | drained (pass : ℕ) (aborted : Bool)
  | decay (rate : Option ℚ)

/-- The entry that overflows when an item is added to a full bag. -/
def overflowing {Item : Type} (priority : Item → ℚ) (bag : PriorityBag Item) (item : Item) :
    Option (InternalEntry Item) :=
  if bag.capacity ≠ 0 ∧ bag.capacity ≤ bag.list.length then
    bag.list.getLast?.filter fun last => priority last.item < priority item
  else none

namespace ProposalBag

def new (options : ProposalBagOptions) : ProposalBag where
  priority _ := 0
  bag := { capacity := options.capacity, forgetRate := options.forgetRate }

/-- Halve the candidates of a scope, one entry after the other. -/
def supersede (scope : String) (priority : ProposalCandidate → ℚ)
    (store : List (InternalEntry ProposalCandidate)) : ProposalCandidate → ℚ :=
  store.foldl
    (fun priority entry =>
      if entry.item.scope = scope then
        Function.update priority entry.item (retain (priority entry.item) (1 / 2))
      else priority) priority

/-- The candidate that an admission makes of a proposal. -/
def candidateOf (state : ProposalBag) (proposal : SelfImprovementProposal) : ProposalCandidate where
  serial := state.admitted
  id := proposal.proposalId
  proposal
  scope := proposalScope proposal

def priorityOf (options : ProposalBagOptions) (proposal : SelfImprovementProposal) : ℚ :=
  kindImpact proposal.kind * riskInverse proposal.riskTier * options.alignmentOf proposal

/-- The priorities once a proposal has been made a candidate, those of its scope halved. -/
def admittedPriority (options : ProposalBagOptions) (state : ProposalBag)
    (proposal : SelfImprovementProposal) : ProposalCandidate → ℚ :=
  Function.update (supersede (proposalScope proposal) state.priority state.bag.list)
    (state.candidateOf proposal) (priorityOf options proposal)

def admitProposal (options : ProposalBagOptions) (state : ProposalBag)
    (proposal : SelfImprovementProposal) (now : ℚ) : Bool × ProposalBag :=
  let priority := state.admittedPriority options proposal
  let candidate := state.candidateOf proposal
  let (taken, bag) := PriorityBag.add priority state.bag candidate now
  let evicted := (overflowing priority state.bag candidate).toList.map fun last =>
    ⟨priority last.item, weights priority state.bag.list.dropLast⟩
  (taken, { state with
    priority, bag, admitted := state.admitted + 1, evictions := state.evictions ++ evicted })

def occupancy (used capacity : ℕ) : ℚ :=
  if 0 < capacity then max 0 (min 1 ((used : ℚ) / capacity)) else 1

def pressure (state : ProposalBag) : ℚ := occupancy state.bag.list.length state.bag.capacity

/-- A drain begins, unless there is nothing to sample. -/
def drain (options : ProposalBagOptions) (state : ProposalBag) (budget : Option ℕ) : ProposalBag :=
  let sampled := selectByPriority state.priority (state.bag.list.map (·.item))
    (budget.getD options.budget)
  if sampled = [] then state else { state with passes := state.passes ++ [{ sampled }] }

def drainIfPressured (options : ProposalBagOptions) (state : ProposalBag) (budget : Option ℕ) :
    ProposalBag :=
  if state.pressure < options.pressureThreshold then state else state.drain options budget

/-- A drain is through; an aborted one removes nothing. -/
def drained (state : ProposalBag) (number : ℕ) (aborted : Bool) : Option ProposalBag :=
  match state.passes[number]? with
  | none => none
  | some pass =>
    if pass.ended then none
    else
      some { state with
        bag := if aborted then state.bag
          else PriorityBag.removeAll state.priority (·.id) state.bag (pass.sampled.map (·.id))
        passes := state.passes.set number { pass with ended := true } }

def decay (state : ProposalBag) (rate : Option ℚ) : ProposalBag :=
  let (priority, bag) := PriorityBag.decay state.priority state.bag rate
  { state with priority, bag }

def step (options : ProposalBagOptions) : Machine ProposalBag ProposalBagEvent
  | state, .admitProposal proposal now => some (state.admitProposal options proposal now).2
  | state, .drain budget => some (state.drain options budget)
  | state, .drainIfPressured budget => some (state.drainIfPressured options budget)
  | state, .drained pass aborted => state.drained pass aborted
  | state, .decay rate => some (state.decay rate)

/-! ### What is promised -/

/-- The candidates are by falling priority, within the capacity and with their sum for the total,
and whatever overflowed was no higher than what was left. -/
structure StaysOrdered (state : ProposalBag) : Prop where
  represents : Represents state.priority state.bag
  lowest : ∀ eviction ∈ state.evictions, ∀ left ∈ eviction.left, eviction.dropped ≤ left

/-- The candidates that are in the bag and have the scope of a proposal. -/
def elders (state : ProposalBag) (proposal : SelfImprovementProposal) :
    List (InternalEntry ProposalCandidate) :=
  state.bag.list.filter (·.item.scope = proposalScope proposal)

/-- The priority of a candidate once a proposal of some scope supersedes it. -/
def halved (priority : ProposalCandidate → ℚ) (scope : String)
    (candidate : ProposalCandidate) : ℚ :=
  if candidate.scope = scope then retain (priority candidate) (1 / 2) else priority candidate

/-- Where an event leaves the order and the sum: the superseded candidates sum to nothing and stay
in order, and a decay at a rate above one keeps candidates of one priority only. -/
def KeepsOrder (state : ProposalBag) : ProposalBagEvent → Prop
  | .admitProposal proposal _ =>
    (weights state.priority (state.elders proposal)).sum = 0 ∧
      (weights (halved state.priority (proposalScope proposal)) state.bag.list).Pairwise (· ≥ ·)
  | .decay rate =>
    1 < rate.getD state.bag.decayRate →
      ∀ first ∈ lasting (rate.getD state.bag.decayRate) state.bag.forgetRate state.priority
          state.bag.list,
        ∀ second ∈ lasting (rate.getD state.bag.decayRate) state.bag.forgetRate state.priority
          state.bag.list,
          state.priority first.item = state.priority second.item
  | _ => True

/-- The candidates in the bag are different objects, and made before. -/
structure Known (state : ProposalBag) : Prop where
  distinct : (state.bag.list.map (·.item)).Nodup
  older : ∀ entry ∈ state.bag.list, entry.item.serial < state.admitted

end ProposalBag

/-! ### Adding to a bag whose order is not known -/

section

variable {Item : Type} {priority : Item → ℚ} {bag : PriorityBag Item} {item : Item}

theorem represents_of_admitItem {now} (room : bag.list.length < bag.capacity)
    (represents : Represents priority (admitItem priority bag item now)) :
    Represents priority bag := by
  have list : (admitItem priority bag item now).list =
      bag.list.take (insertIndex priority bag.list (priority item)) ++
        ⟨item, now⟩ :: bag.list.drop (insertIndex priority bag.list (priority item)) :=
    insertEntry_list priority bag ⟨item, now⟩
  have total : (admitItem priority bag item now).totalPriority =
      bag.totalPriority + priority item :=
    congrArg (· + priority item) (insertEntry_totalPriority priority bag ⟨item, now⟩)
  have parts := List.take_append_drop (insertIndex priority bag.list (priority item)) bag.list
  have part : bag.list.Sublist (admitItem priority bag item now).list := by
    rw [list]
    conv => lhs; rw [← parts]
    exact (List.Sublist.refl _).append (List.sublist_cons_self _ _)
  refine ⟨represents.sorted.sublist (part.map _), room.le, ?_⟩
  have sums := represents.total
  rw [total, list] at sums
  have split := congrArg (fun store => (weights priority store).sum) parts
  simp only [weights, List.map_append, List.map_cons, List.sum_append, List.sum_cons]
    at sums split ⊢
  linarith only [sums, split]

theorem overflowing_eq_some {last} :
    overflowing priority bag item = some last ↔
      (bag.capacity ≠ 0 ∧ bag.capacity ≤ bag.list.length) ∧ bag.list.getLast? = some last ∧
        priority last.item < priority item := by
  unfold overflowing
  split
  · rename_i full
    rw [Option.filter_eq_some_iff, decide_eq_true_iff]
    exact (and_iff_right full).symm
  · rename_i room
    simp [room]

theorem sorted_weights_iff {store last} (ends : store.getLast? = some last) :
    (weights priority store).Pairwise (· ≥ ·) ↔
      (weights priority store.dropLast).Pairwise (· ≥ ·) ∧
        ∀ left ∈ weights priority store.dropLast, priority last.item ≤ left := by
  obtain ⟨before, rfl⟩ := List.getLast?_eq_some_iff.mp ends
  rw [weights, List.map_append, List.pairwise_append]
  simp [weights]

theorem list_admitItem_perm (priority : Item → ℚ) (bag : PriorityBag Item) (item : Item) (now : ℚ) :
    (admitItem priority bag item now).list.Perm (⟨item, now⟩ :: bag.list) := by
  show (insertEntry priority bag ⟨item, now⟩).list.Perm _
  rw [insertEntry_list]
  refine List.perm_middle.trans ?_
  rw [List.take_append_drop]

theorem list_add_cases (priority : Item → ℚ) (bag : PriorityBag Item) (item : Item) (now : ℚ) :
    (add priority bag item now).2.list = bag.list ∨
      ∃ part, part.Sublist bag.list ∧
        (add priority bag item now).2.list.Perm (⟨item, now⟩ :: part) := by
  rcases add_cases priority bag item now with
    ⟨_, same⟩ | ⟨_, admitted⟩ | ⟨last, _, _, _, _, admitted⟩
  · exact .inl (by rw [same])
  · refine .inr ⟨bag.list, .refl _, ?_⟩
    rw [admitted]
    exact list_admitItem_perm priority bag item now
  · refine .inr ⟨bag.list.dropLast, List.dropLast_sublist _, ?_⟩
    rw [admitted]
    refine (list_admitItem_perm ..).trans ?_
    rw [dropLast_list]

theorem list_removeAll_sublist (priority : Item → ℚ) (idOf : Item → String) (bag : PriorityBag Item)
    (ids : List String) : (removeAll priority idOf bag ids).list.Sublist bag.list := by
  unfold removeAll
  split
  · exact .refl _
  · simp only
    split
    · exact .refl _
    · exact List.filter_sublist

theorem represents_add_iff {now} (fits : bag.list.length ≤ bag.capacity) :
    Represents priority (add priority bag item now).2 ∧
        (∀ last ∈ overflowing priority bag item, ∀ left ∈ weights priority bag.list.dropLast,
          priority last.item ≤ left) ↔
      Represents priority bag := by
  constructor
  · rintro ⟨after, lowest⟩
    rcases add_cases priority bag item now with
      ⟨_, same⟩ | ⟨room, admitted⟩ | ⟨last, some, full, ends, above, admitted⟩
    · rwa [same] at after
    · rw [admitted] at after
      exact represents_of_admitItem room after
    · rw [admitted] at after
      have before := represents_of_admitItem (by
        rw [dropLast_list, dropLast_capacity, List.length_dropLast]
        show bag.list.length - 1 < bag.capacity
        omega) after
      have sorted := before.sorted
      have total := before.total
      rw [dropLast_list] at sorted total
      rw [dropLast_totalPriority, Represents.sum_dropLast ends] at total
      refine ⟨(sorted_weights_iff ends).mpr ⟨sorted, ?_⟩, fits, ?_⟩
      · exact lowest last (overflowing_eq_some.mpr ⟨⟨by omega, full⟩, ends, above⟩)
      · linarith only [total]
  · intro represents
    refine ⟨represents.add item now, fun last overflows => ?_⟩
    obtain ⟨-, ends, -⟩ := overflowing_eq_some.mp overflows
    exact ((sorted_weights_iff ends).mp represents.sorted).2

end

namespace ProposalBag

variable {options : ProposalBagOptions} {state : ProposalBag}
  {proposal : SelfImprovementProposal}

/-! ### Superseding -/

theorem supersede_apply {scope priority store} (distinct : (store.map (·.item)).Nodup)
    (candidate : ProposalCandidate) :
    supersede scope priority store candidate =
      if candidate ∈ store.map (·.item) then halved priority scope candidate
      else priority candidate := by
  induction store generalizing priority with
  | nil => simp [supersede]
  | cons entry rest ih =>
    rw [List.map_cons, List.nodup_cons] at distinct
    unfold supersede at ih ⊢
    rw [List.foldl_cons, ih distinct.2]
    by_cases same : candidate = entry.item
    · subst same
      have here : entry.item ∈ (entry :: rest).map (·.item) := by simp
      rw [if_neg distinct.1, halved]
      split
      · rw [Function.update_self]
      · rfl
    · have others : candidate ∈ (entry :: rest).map (·.item) ↔ candidate ∈ rest.map (·.item) := by
        simp [same]
      have unchanged : (if entry.item.scope = scope then
            Function.update priority entry.item (retain (priority entry.item) (1 / 2))
          else priority) candidate = priority candidate := by
        split
        · exact Function.update_of_ne same _ _
        · rfl
      simp only [others, halved, unchanged]

theorem Known.candidateOf_ne (known : state.Known) {entry} (isEntry : entry ∈ state.bag.list) :
    entry.item ≠ state.candidateOf proposal := by
  intro same
  have older := known.older entry isEntry
  rw [same] at older
  exact lt_irrefl _ older

theorem Known.weights_admittedPriority (known : state.Known) :
    weights (state.admittedPriority options proposal) state.bag.list =
      weights (halved state.priority (proposalScope proposal)) state.bag.list := by
  refine List.map_congr_left fun entry isEntry => ?_
  rw [admittedPriority, Function.update_of_ne (known.candidateOf_ne isEntry),
    supersede_apply known.distinct, if_pos (List.mem_map_of_mem isEntry)]

theorem sum_halved (priority : ProposalCandidate → ℚ) (scope : String)
    (store : List (InternalEntry ProposalCandidate)) :
    (weights (halved priority scope) store).sum =
      (weights priority store).sum -
        (weights priority (store.filter (·.item.scope = scope))).sum / 2 := by
  induction store with
  | nil => simp [weights]
  | cons entry rest ih =>
    unfold weights at ih ⊢
    rw [List.map_cons, List.sum_cons, ih, List.map_cons, List.sum_cons]
    by_cases same : entry.item.scope = scope
    · rw [List.filter_cons_of_pos (by simpa using same), List.map_cons, List.sum_cons, halved,
        if_pos same, retain]
      ring
    · rw [List.filter_cons_of_neg (by simpa using same), halved, if_neg same]
      ring

theorem Known.represents_admittedPriority_iff (known : state.Known)
    (represents : Represents state.priority state.bag) (now : ℚ) :
    Represents (state.admittedPriority options proposal) state.bag ↔
      KeepsOrder state (.admitProposal proposal now) := by
  have sum := sum_halved state.priority (proposalScope proposal) state.bag.list
  constructor
  · rintro ⟨sorted, -, total⟩
    rw [known.weights_admittedPriority] at sorted total
    refine ⟨?_, sorted⟩
    show (weights state.priority (state.bag.list.filter _)).sum = 0
    rw [represents.total] at total
    linarith only [sum, total]
  · rintro ⟨nothing, sorted⟩
    have nothing : (weights state.priority (state.bag.list.filter
      (·.item.scope = proposalScope proposal))).sum = 0 := nothing
    refine ⟨?_, represents.fits, ?_⟩
    · rw [known.weights_admittedPriority]
      exact sorted
    · rw [known.weights_admittedPriority, represents.total, sum, nothing]
      ring

/-! ### One event -/

theorem StaysOrdered.admit_iff (ordered : state.StaysOrdered) (known : state.Known) (now : ℚ) :
    KeepsOrder state (.admitProposal proposal now) ↔
      (state.admitProposal options proposal now).2.StaysOrdered := by
  rw [← @Known.represents_admittedPriority_iff options state proposal known ordered.represents now,
    ← @represents_add_iff _ _ _ (state.candidateOf proposal) now ordered.represents.fits]
  constructor
  · rintro ⟨represents, lowest⟩
    refine ⟨represents, fun eviction isEviction => ?_⟩
    rcases List.mem_append.mp isEviction with old | new
    · exact ordered.lowest eviction old
    · obtain ⟨last, overflows, rfl⟩ := List.mem_map.mp new
      exact lowest last (Option.mem_toList.mp overflows)
  · rintro ⟨represents, lowest⟩
    refine ⟨represents, fun last overflows => ?_⟩
    refine lowest ⟨_, _⟩ (List.mem_append_right _ (List.mem_map_of_mem ?_))
    exact Option.mem_toList.mpr overflows

theorem KeepsOrder.steady (known : state.Known) {rate : Option ℚ}
    (keeps : KeepsOrder state (.decay rate)) :
    Steady (rate.getD state.bag.decayRate) state.bag.forgetRate state.priority state.bag.list := by
  refine ⟨fun high first isFirst second isSecond keptFirst keptSecond => ?_, fun item often => ?_⟩
  · exact keeps high first (mem_lasting.mpr ⟨isFirst, keptFirst⟩) second
      (mem_lasting.mpr ⟨isSecond, keptSecond⟩)
  · have once := List.nodup_iff_count_le_one.mp known.distinct item
    omega

theorem Known.decay_eq (known : state.Known) (rate : Option ℚ) :
    (PriorityBag.decay state.priority state.bag rate).2.list =
        lasting (rate.getD state.bag.decayRate) state.bag.forgetRate state.priority
          state.bag.list ∧
      weights (PriorityBag.decay state.priority state.bag rate).1
          (PriorityBag.decay state.priority state.bag rate).2.list =
        (lasting (rate.getD state.bag.decayRate) state.bag.forgetRate state.priority
          state.bag.list).map fun entry =>
            decayed (rate.getD state.bag.decayRate) state.bag.forgetRate
              (state.priority entry.item) := by
  obtain ⟨list, values, -⟩ := decay_eq_of_done fun item often =>
    absurd (List.nodup_iff_count_le_one.mp known.distinct item) (not_le.mpr often)
  exact ⟨list, values⟩

theorem keepsOrder_of_decay (ordered : state.StaysOrdered) (known : state.Known) {rate}
    (after : (state.decay rate).StaysOrdered) : KeepsOrder state (.decay rate) := by
  intro high
  obtain ⟨-, weightsAfter⟩ := known.decay_eq rate
  have sortedAfter : (weights (PriorityBag.decay state.priority state.bag rate).1
      (PriorityBag.decay state.priority state.bag rate).2.list).Pairwise (· ≥ ·) :=
    after.represents.sorted
  rw [weightsAfter] at sortedAfter
  have before := (List.pairwise_map.mp ordered.represents.sorted).sublist
    (List.filter_sublist (p := fun entry => decide (0 < decayed (rate.getD state.bag.decayRate)
      state.bag.forgetRate (state.priority entry.item))))
  have same : (lasting (rate.getD state.bag.decayRate) state.bag.forgetRate state.priority
      state.bag.list).Pairwise fun first second =>
        state.priority first.item = state.priority second.item := by
    refine (before.and (List.pairwise_map.mp sortedAfter)).imp_of_mem ?_
    rintro first second isFirst isSecond ⟨falls, rises⟩
    rw [decayed_eq_retain (mem_lasting.mp isFirst).2,
      decayed_eq_retain (mem_lasting.mp isSecond).2, retain, retain] at rises
    have turned : 1 - rate.getD state.bag.decayRate < 0 := by linarith only [high]
    exact le_antisymm ((mul_le_mul_right_of_neg turned).mp rises) falls
  intro first isFirst second isSecond
  refine same.forall_of_forall ?_ isFirst isSecond
  intro entry _
  rfl

theorem StaysOrdered.decay_iff (ordered : state.StaysOrdered) (known : state.Known)
    (rate : Option ℚ) :
    KeepsOrder state (.decay rate) ↔ (state.decay rate).StaysOrdered :=
  ⟨fun keeps => ⟨ordered.represents.decay (keeps.steady known), ordered.lowest⟩,
    keepsOrder_of_decay ordered known⟩

variable {next : ProposalBag}

theorem drained_cases {number aborted} (taken : state.drained number aborted = some next) :
    next.priority = state.priority ∧ next.admitted = state.admitted ∧
      next.evictions = state.evictions ∧ (next.bag = state.bag ∨
        ∃ ids, next.bag = PriorityBag.removeAll state.priority (·.id) state.bag ids) := by
  unfold drained at taken
  split at taken
  · cases taken
  · split at taken
    · cases taken
    · cases taken
      refine ⟨rfl, rfl, rfl, ?_⟩
      split
      · exact .inl rfl
      · exact .inr ⟨_, rfl⟩

theorem drain_bag (budget : Option ℕ) :
    (state.drain options budget).priority = state.priority ∧
      (state.drain options budget).bag = state.bag ∧
      (state.drain options budget).admitted = state.admitted ∧
      (state.drain options budget).evictions = state.evictions := by
  unfold drain
  dsimp only
  split <;> exact ⟨rfl, rfl, rfl, rfl⟩

theorem drainIfPressured_bag (budget : Option ℕ) :
    (state.drainIfPressured options budget).priority = state.priority ∧
      (state.drainIfPressured options budget).bag = state.bag ∧
      (state.drainIfPressured options budget).admitted = state.admitted ∧
      (state.drainIfPressured options budget).evictions = state.evictions := by
  unfold drainIfPressured
  split
  · exact ⟨rfl, rfl, rfl, rfl⟩
  · exact drain_bag budget

theorem StaysOrdered.of_same (ordered : state.StaysOrdered)
    (priority : next.priority = state.priority) (bag : next.bag = state.bag)
    (evictions : next.evictions = state.evictions) : next.StaysOrdered := by
  refine ⟨?_, by rw [evictions]; exact ordered.lowest⟩
  rw [priority, bag]
  exact ordered.represents

theorem StaysOrdered.step_iff (ordered : state.StaysOrdered) (known : state.Known) {event}
    (taken : step options state event = some next) :
    KeepsOrder state event ↔ next.StaysOrdered := by
  cases event with
  | admitProposal proposal now =>
    cases taken
    exact ordered.admit_iff known now
  | decay rate =>
    cases taken
    exact ordered.decay_iff known rate
  | drain budget =>
    cases taken
    obtain ⟨priority, bag, -, evictions⟩ := @drain_bag options state budget
    exact iff_of_true trivial (ordered.of_same priority bag evictions)
  | drainIfPressured budget =>
    cases taken
    obtain ⟨priority, bag, -, evictions⟩ :=
      @drainIfPressured_bag options state budget
    exact iff_of_true trivial (ordered.of_same priority bag evictions)
  | drained number aborted =>
    obtain ⟨priority, -, evictions, same | ⟨ids, removed⟩⟩ := drained_cases taken
    · exact iff_of_true trivial (ordered.of_same priority same evictions)
    · refine iff_of_true trivial ⟨?_, by rw [evictions]; exact ordered.lowest⟩
      rw [priority, removed]
      exact ordered.represents.removeAll (·.id) ids

/-! ### What is known of the candidates -/

theorem Known.of_sublist (known : state.Known) (part : next.bag.list.Sublist state.bag.list)
    (later : state.admitted ≤ next.admitted) :
    next.Known where
  distinct := known.distinct.sublist (part.map _)
  older entry isEntry := (known.older entry (part.subset isEntry)).trans_le later

theorem Known.admitProposal (known : state.Known) (now : ℚ) :
    (state.admitProposal options proposal now).2.Known := by
  have cases := list_add_cases (state.admittedPriority options proposal) state.bag
    (state.candidateOf proposal) now
  rcases cases with same | ⟨part, isPart, added⟩
  · exact known.of_sublist (by rw [← same]; exact .refl _) (Nat.le_succ _)
  · have kept : Known { state with bag := { state.bag with list := part } } :=
      known.of_sublist isPart le_rfl
    refine ⟨(added.map (·.item)).nodup_iff.mpr ?_, fun entry isEntry => ?_⟩
    · rw [List.map_cons, List.nodup_cons]
      refine ⟨fun isOld => ?_, kept.distinct⟩
      obtain ⟨entry, isEntry, same⟩ := List.mem_map.mp isOld
      exact known.candidateOf_ne (isPart.subset isEntry) same
    · rcases List.mem_cons.mp (added.subset isEntry) with rfl | old
      · exact Nat.lt_succ_self _
      · exact Nat.lt_succ_of_lt (kept.older entry old)

theorem Known.step {next} (known : state.Known) {event}
    (taken : step options state event = some next) : next.Known := by
  cases event with
  | admitProposal proposal now =>
    cases taken
    exact known.admitProposal now
  | decay rate =>
    cases taken
    obtain ⟨list, -⟩ := known.decay_eq rate
    refine known.of_sublist ?_ le_rfl
    show (PriorityBag.decay state.priority state.bag rate).2.list.Sublist state.bag.list
    rw [list]
    exact List.filter_sublist
  | drain budget =>
    cases taken
    obtain ⟨-, bag, admitted, -⟩ := @drain_bag options state budget
    exact known.of_sublist (by rw [bag]) admitted.ge
  | drainIfPressured budget =>
    cases taken
    obtain ⟨-, bag, admitted, -⟩ :=
      @drainIfPressured_bag options state budget
    exact known.of_sublist (by rw [bag]) admitted.ge
  | drained number aborted =>
    obtain ⟨-, admitted, -, same | ⟨ids, removed⟩⟩ := drained_cases taken
    · exact known.of_sublist (by rw [same]) admitted.ge
    · refine known.of_sublist ?_ admitted.ge
      rw [removed]
      exact list_removeAll_sublist state.priority (·.id) state.bag ids

/-! ### Runs -/

theorem staysOrdered_new (options : ProposalBagOptions) : (new options).StaysOrdered where
  represents := ⟨.nil, Nat.zero_le _, rfl⟩
  lowest _ isEviction := absurd isEviction List.not_mem_nil

theorem known_new (options : ProposalBagOptions) : (new options).Known where
  distinct := List.nodup_nil
  older _ isEntry := absurd isEntry List.not_mem_nil

/-- The bag of proposals stays in order through whatever happens exactly where each admission
supersedes candidates that sum to nothing and stay in order, and each decay at a rate above one
keeps candidates of one priority only. -/
theorem stays_ordered_iff {options : ProposalBagOptions} {events : List ProposalBagEvent}
    {last : ProposalBag} (run : Run (step options) (new options) events last) :
    Run.Meets (step options) KeepsOrder (new options) events ↔
      ∀ reached, Run.Passes (step options) (new options) events reached → reached.StaysOrdered :=
  Run.meets_iff_passes_of_keeps
    (fun _ _ _ known ordered taken => ordered.step_iff known taken)
    (fun _ _ _ known _ taken => known.step taken) run (known_new options) (staysOrdered_new options)

/-- A knob that is turned. -/
def knobTuning (id : String) (riskTier : CapabilityRisk) : SelfImprovementProposal where
  proposalId := id
  kind := .knobTune
  riskTier
  payload := OrderedMap.ofList [("knob", .text "maxLoops"), ("value", .number 3)]

/-- Two proposals for one knob. -/
def tunedTwice : List ProposalBagEvent :=
  [.admitProposal (knobTuning "proposal-1" .low) 0, .admitProposal (knobTuning "proposal-2" .low) 1]

theorem stays_ordered_iff_tunedTwice : ∃ last, Run (step {}) (new {}) tunedTwice last ∧
    (Run.Meets (step {}) KeepsOrder (new {}) tunedTwice ↔
      ∀ reached, Run.Passes (step {}) (new {}) tunedTwice reached → reached.StaysOrdered) := by
  have canRun : (execute (step {}) (new {}) tunedTwice).isSome = true := rfl
  obtain ⟨last, done⟩ := Option.isSome_iff_exists.mp canRun
  exact ⟨last, run_of_execute done, stays_ordered_iff (run_of_execute done)⟩

/-- The second one halves the first, of which the total is not told. -/
theorem superseded_miscounts : ¬ ∀ (options : ProposalBagOptions) (events : List ProposalBagEvent)
    (last : ProposalBag), Run (step options) (new options) events last → last.StaysOrdered := by
  intro always
  have canRun : (execute (step {}) (new {}) tunedTwice).any (fun last =>
      last.bag.totalPriority ≠ (weights last.priority last.bag.list).sum) = true := by
    decide +kernel
  obtain ⟨last, done, miscounted⟩ := (Option.any_eq_true _ _).mp canRun
  have ordered := always {} tunedTwice last (run_of_execute done)
  exact of_decide_eq_true miscounted ordered.represents.total

end ProposalBag

end Senars.Governance
