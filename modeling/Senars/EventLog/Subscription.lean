/-
This file is about subscriptions that begin in the past. A subscriber is registered and the
history it asks for is read in one step, and replayed in a later one; an event is stored in
one step, and told to the subscribers in a later one. An event that is stored but not told
when a subscriber comes is in its history and told to it too, and one that is told before
the replay overtakes it.
-/

import Senars.EventLog.Logs
import Senars.Library.PushQueue

namespace Senars.EventLog

open Library

variable {Id Payload : Type}

/-! ### The log and its subscribers -/

structure SubscribeOptions (Id Payload : Type) where
  filter : CognitiveEvent Id Payload → Bool := fun _ => true
  fromId : Option Id := none
  types : Option (List String) := none

/-- A subscription: what it was asked for, its queue, and the history that is to be replayed. -/
structure Subscription (Id Payload : Type) extends SubscribeOptions Id Payload where
  queue : PushQueue (CognitiveEvent Id Payload) := {}
  history : Option (InMemoryEventLog Id Payload) := none

def subscriptionAdmits (options : SubscribeOptions Id Payload)
    (event : CognitiveEvent Id Payload) : Bool :=
  (typeSetOf options.types).all (event.type ∈ ·) && options.filter event

/-- The events of the history a subscription admits. -/
def Subscription.toReplay (subscription : Subscription Id Payload) :
    List (CognitiveEvent Id Payload) :=
  (subscription.history.getD []).filter (subscriptionAdmits subscription.toSubscribeOptions)

/-- Replay the history. -/
def Subscription.replay (subscription : Subscription Id Payload) : Subscription Id Payload :=
  { subscription with
    queue := subscription.toReplay.foldl PushQueue.push subscription.queue
    history := none }

def Subscription.next (subscription : Subscription Id Payload) : Subscription Id Payload :=
  { subscription with queue := subscription.queue.next }

/-- What a subscriber was told and what is to be replayed for it. -/
def Subscription.due (subscription : Subscription Id Payload) :
    List (CognitiveEvent Id Payload) :=
  subscription.queue.pushed ++ subscription.toReplay

theorem due_replay (subscription : Subscription Id Payload) :
    subscription.replay.due = subscription.due := by
  have nothing : subscription.replay.toReplay = [] := rfl
  rw [Subscription.due, nothing, List.append_nil]
  exact PushQueue.pushed_foldl_push _ _

theorem due_next (subscription : Subscription Id Payload) :
    subscription.next.due = subscription.due :=
  congrArg (· ++ subscription.toReplay) (PushQueue.pushed_next _)

variable [LinearOrder Id] [OrderBot Id]

/-- The identifier a subscription begins after. The empty one is as good as none. -/
def SubscribeOptions.since (options : SubscribeOptions Id Payload) : Option Id :=
  options.fromId.filter (· ≠ ⊥)

/-- Whether a live event is for a subscription. -/
def SubscribeOptions.takes (options : SubscribeOptions Id Payload)
    (event : CognitiveEvent Id Payload) : Bool :=
  options.since.all (· < event.id) && subscriptionAdmits options event

/-- Tell a subscriber of an event. -/
def Subscription.notify (event : CognitiveEvent Id Payload)
    (subscription : Subscription Id Payload) : Subscription Id Payload :=
  if subscription.takes event then
    { subscription with queue := subscription.queue.push event }
  else subscription

/-- The events that are stored, those of them that are yet to be told, and the subscribers. -/
structure LiveLog (Id Payload : Type) where
  events : InMemoryEventLog Id Payload := []
  untold : List (CognitiveEvent Id Payload) := []
  subscribers : List (Subscription Id Payload) := []

/-- The two halves of an append and of a subscription, and a reader that asks for an event. -/
inductive LiveEvent (Id Payload : Type) where
  | persist (event : CognitiveEvent Id Payload)
  | notify (index : ℕ)
  | register (options : SubscribeOptions Id Payload)
  | replay (index : ℕ)
  | next (index : ℕ)

/-- A new subscription with the history it asks for. -/
def subscribe (log : LiveLog Id Payload) (options : SubscribeOptions Id Payload) :
    Subscription Id Payload :=
  { options with history := options.since.map fun fromId => log.events.getRange fromId none }

/-- One step of the log. The identifiers of the events increase, and none is empty. -/
def liveStep : Machine (LiveLog Id Payload) (LiveEvent Id Payload)
  | log, .persist event =>
    if ⊥ < event.id ∧ ∀ earlier ∈ log.events, earlier.id < event.id then
      some { log with events := log.events ++ [event], untold := log.untold ++ [event] }
    else none
  | log, .notify index =>
    log.untold[index]?.map fun event =>
      { log with
        untold := log.untold.eraseIdx index
        subscribers := log.subscribers.map (Subscription.notify event) }
  | log, .register options =>
    some { log with subscribers := log.subscribers ++ [subscribe log options] }
  | log, .replay index =>
    some { log with subscribers := log.subscribers.modify index Subscription.replay }
  | log, .next index =>
    some { log with subscribers := log.subscribers.modify index Subscription.next }

/-! ### What is promised -/

/-- The events a subscription from an identifier on is for. -/
def wanted (log : LiveLog Id Payload) (subscription : Subscription Id Payload) (fromId : Id) :
    List (CognitiveEvent Id Payload) :=
  log.events.filter fun event =>
    decide (fromId < event.id) && subscriptionAdmits subscription.toSubscribeOptions event

/-- A subscriber that gave an identifier receives each event after it that it admits once, in
order. -/
def ReceivesAll (log : LiveLog Id Payload) (subscription : Subscription Id Payload) : Prop :=
  ∀ fromId, subscription.fromId = some fromId →
    subscription.queue.pushed = wanted log subscription fromId

/-- Nothing is to be told or replayed any more. -/
structure Settled (log : LiveLog Id Payload) : Prop where
  told : log.untold = []
  replayed : ∀ subscription ∈ log.subscribers, subscription.history = none

/-- An event is told to a subscriber that takes it once there is nothing to replay for it, and
before any later one. One registers while no event it takes is yet to be told, or, where it begins
with the empty identifier, while all it admits are. -/
def Orderly (log : LiveLog Id Payload) : LiveEvent Id Payload → Prop
  | .notify index => ∀ event, log.untold[index]? = some event →
    ∀ subscription ∈ log.subscribers, subscription.fromId ≠ none → subscription.takes event = true →
      subscription.toReplay = [] ∧
        ∀ other ∈ log.untold, subscription.takes other = true → event.id ≤ other.id
  | .register options =>
    (options.since ≠ none → ∀ event ∈ log.untold, options.takes event = false) ∧
      (options.fromId = some ⊥ → ∀ event ∈ log.events, subscriptionAdmits options event = true →
        event ∈ log.untold)
  | _ => True

/-! ### On the way -/

/-- A subscriber is due events it takes, and if one of its history is to be replayed then so are all
before it that it takes. -/
structure Served (events : List (CognitiveEvent Id Payload))
    (subscription : Subscription Id Payload) : Prop where
  takes : ∀ event ∈ subscription.due, event ∈ events ∧ subscription.takes event = true
  closed : ∀ event ∈ subscription.toReplay, ∀ earlier ∈ events,
    subscription.takes earlier = true → earlier.id ≤ event.id → earlier ∈ subscription.toReplay

/-- The log holds events in order, some of which are untold. -/
structure Consistent (log : LiveLog Id Payload) : Prop where
  increasing : log.events.Pairwise fun first second => first.id < second.id
  positive : ∀ event ∈ log.events, ⊥ < event.id
  stored : log.untold.Sublist log.events
  served : ∀ subscription ∈ log.subscribers, Served log.events subscription

/-- A subscriber will receive all: what it is due is in order, what is untold comes after it, and
nothing else is missing. -/
structure OnTrack (log : LiveLog Id Payload) (subscription : Subscription Id Payload) : Prop where
  sorted : subscription.due.Pairwise fun first second => first.id < second.id
  later : ∀ event ∈ log.untold, subscription.takes event = true →
    ∀ earlier ∈ subscription.due, earlier.id < event.id
  complete : ∀ event ∈ log.events, subscription.takes event = true →
    event ∈ subscription.due ∨ event ∈ log.untold

/-- All subscribers that gave an identifier will receive all. -/
def AllOnTrack (log : LiveLog Id Payload) : Prop :=
  ∀ subscription ∈ log.subscribers, subscription.fromId ≠ none → OnTrack log subscription

section

variable {log : LiveLog Id Payload} {subscription other : Subscription Id Payload}
  {event : CognitiveEvent Id Payload}

theorem onTrack_congr {events untold : List (CognitiveEvent Id Payload)} {subscribers}
    (due : other.due = subscription.due) (takes : other.takes = subscription.takes) :
    OnTrack ⟨events, untold, subscribers⟩ other ↔
      OnTrack ⟨events, untold, []⟩ subscription := by
  constructor <;> rintro ⟨sorted, later, complete⟩
  · rw [due] at sorted later complete
    rw [takes] at later complete
    exact ⟨sorted, later, complete⟩
  · rw [← due] at sorted later complete
    rw [← takes] at later complete
    exact ⟨sorted, later, complete⟩

theorem due_notify_of_takes (takes : subscription.takes event = true) :
    (subscription.notify event).due =
      subscription.queue.pushed ++ event :: subscription.toReplay := by
  rw [Subscription.notify, if_pos takes]
  have pushed := PushQueue.pushed_push subscription.queue event
  exact (congrArg (· ++ subscription.toReplay) pushed).trans (by simp)

theorem notify_of_not_takes (takes : subscription.takes event = false) :
    subscription.notify event = subscription := by
  rw [Subscription.notify, if_neg (by simp [takes])]

theorem toSubscribeOptions_notify (event : CognitiveEvent Id Payload)
    (subscription : Subscription Id Payload) :
    (subscription.notify event).toSubscribeOptions = subscription.toSubscribeOptions := by
  unfold Subscription.notify
  split <;> rfl

theorem toReplay_notify (event : CognitiveEvent Id Payload)
    (subscription : Subscription Id Payload) :
    (subscription.notify event).toReplay = subscription.toReplay := by
  unfold Subscription.notify
  split <;> rfl

/-! ### One step -/

section

variable (consistent : Consistent log)

include consistent

theorem eq_of_id_eq {first second} (isFirst : first ∈ log.events) (isSecond : second ∈ log.events)
    (same : first.id = second.id) : first = second := by
  have nodup : (log.events.map (·.id)).Nodup :=
    List.pairwise_map.mpr (consistent.increasing.imp fun order => order.ne)
  exact List.inj_on_of_nodup_map nodup isFirst isSecond same

theorem onTrack_persist (member : subscription ∈ log.subscribers)
    (newest : ∀ earlier ∈ log.events, earlier.id < event.id) :
    OnTrack ⟨log.events ++ [event], log.untold ++ [event], log.subscribers⟩ subscription ↔
      OnTrack log subscription := by
  have served := consistent.served subscription member
  constructor
  · rintro ⟨sorted, later, complete⟩
    refine ⟨sorted, fun other isUntold => later other (List.mem_append_left _ isUntold), ?_⟩
    intro other stored takes
    refine (complete other (List.mem_append_left _ stored) takes).imp_right fun isUntold => ?_
    rcases List.mem_append.mp isUntold with old | new
    · exact old
    · cases List.mem_singleton.mp new
      exact absurd (newest _ stored) (lt_irrefl _)
  · rintro ⟨sorted, later, complete⟩
    refine ⟨sorted, ?_, ?_⟩
    · intro other isUntold takes earlier isDue
      rcases List.mem_append.mp isUntold with old | new
      · exact later other old takes earlier isDue
      · cases List.mem_singleton.mp new
        exact newest earlier (served.takes earlier isDue).1
    · intro other stored takes
      rcases List.mem_append.mp stored with old | new
      · exact (complete other old takes).imp_right (List.mem_append_left _)
      · exact .inr (List.mem_append_right _ new)

theorem mem_eraseIdx_iff {index} (at_index : log.untold[index]? = some event) {other} :
    other ∈ log.untold.eraseIdx index ↔ other ∈ log.untold ∧ other ≠ event := by
  classical
  have increasing := consistent.increasing.sublist consistent.stored
  have nodup : log.untold.Nodup := increasing.imp fun order same => (same ▸ order).false
  obtain ⟨within, rfl⟩ := List.getElem?_eq_some_iff.mp at_index
  rw [← nodup.erase_getElem _ within, nodup.mem_erase_iff, and_comm]

theorem onTrack_notify_of_not_takes {index} (at_index : log.untold[index]? = some event)
    (ignores : subscription.takes event = false) :
    OnTrack ⟨log.events, log.untold.eraseIdx index, []⟩ subscription ↔
      OnTrack log subscription := by
  have among := @mem_eraseIdx_iff _ _ _ _ log event consistent index at_index
  have others : ∀ other, subscription.takes other = true →
      (other ∈ log.untold.eraseIdx index ↔ other ∈ log.untold) := by
    intro other takes
    rw [among, and_iff_left]
    rintro rfl
    rw [takes] at ignores
    cases ignores
  constructor <;> rintro ⟨sorted, later, complete⟩ <;> refine ⟨sorted, ?_, ?_⟩
  · exact fun other isUntold takes => later other ((others other takes).mpr isUntold) takes
  · exact fun other stored takes =>
      (complete other stored takes).imp_right (others other takes).mp
  · exact fun other isUntold takes => later other ((others other takes).mp isUntold) takes
  · exact fun other stored takes =>
      (complete other stored takes).imp_right (others other takes).mpr

theorem onTrack_notify_of_takes (member : subscription ∈ log.subscribers) {index}
    (at_index : log.untold[index]? = some event) (takes : subscription.takes event = true) :
    OnTrack ⟨log.events, log.untold.eraseIdx index, []⟩ (subscription.notify event) ↔
      OnTrack log subscription ∧ subscription.toReplay = [] ∧
        ∀ other ∈ log.untold, subscription.takes other = true → event.id ≤ other.id := by
  have among := @mem_eraseIdx_iff _ _ _ _ log event consistent index at_index
  have isUntold := List.mem_of_getElem? at_index
  have stored := consistent.stored.subset isUntold
  have served := consistent.served subscription member
  have due := due_notify_of_takes takes
  have sameTakes : (subscription.notify event).takes = subscription.takes := by
    rw [toSubscribeOptions_notify]
  have isDue : ∀ other, other ∈ (subscription.notify event).due ↔
      other = event ∨ other ∈ subscription.due := by
    intro other
    rw [due, Subscription.due]
    simp only [List.mem_append, List.mem_cons]
    tauto
  constructor
  · rintro ⟨sorted, later, complete⟩
    rw [sameTakes] at later complete
    rw [due] at sorted
    obtain ⟨pushedSorted, restSorted, across⟩ := List.pairwise_append.mp sorted
    obtain ⟨beforeReplay, replaySorted⟩ := List.pairwise_cons.mp restSorted
    have nothing : subscription.toReplay = [] := by
      refine List.eq_nil_iff_forall_not_mem.mpr fun other isReplayed => ?_
      have order := beforeReplay other isReplayed
      exact (beforeReplay event
        (served.closed other isReplayed event stored takes order.le)).false
    have isDueBefore : subscription.due = subscription.queue.pushed := by
      rw [Subscription.due, nothing, List.append_nil]
    have first : ∀ other ∈ log.untold, subscription.takes other = true → event.id ≤ other.id := by
      intro other otherUntold otherTakes
      by_cases same : other = event
      · rw [same]
      · exact (later other (among.mpr ⟨otherUntold, same⟩) otherTakes event
          ((isDue event).mpr (.inl rfl))).le
    refine ⟨⟨?_, ?_, ?_⟩, nothing, first⟩
    · rw [isDueBefore]
      exact pushedSorted
    · intro other otherUntold otherTakes earlier earlierDue
      rw [isDueBefore] at earlierDue
      exact (across earlier earlierDue event List.mem_cons_self).trans_le
        (first other otherUntold otherTakes)
    · intro other otherStored otherTakes
      rcases complete other otherStored otherTakes with otherDue | otherUntold
      · rcases (isDue other).mp otherDue with rfl | before
        · exact .inr isUntold
        · exact .inl before
      · exact .inr (among.mp otherUntold).1
  · rintro ⟨⟨sorted, later, complete⟩, nothing, first⟩
    have isDueBefore : subscription.due = subscription.queue.pushed := by
      rw [Subscription.due, nothing, List.append_nil]
    refine ⟨?_, ?_, ?_⟩
    · rw [due, nothing]
      rw [isDueBefore] at sorted later
      refine List.pairwise_append.mpr ⟨sorted, List.pairwise_singleton _ _, ?_⟩
      intro earlier earlierPushed other isEvent
      cases List.mem_singleton.mp isEvent
      exact later event isUntold takes earlier earlierPushed
    · rw [sameTakes]
      intro other otherUntold otherTakes earlier earlierDue
      obtain ⟨inUntold, different⟩ := among.mp otherUntold
      rcases (isDue earlier).mp earlierDue with rfl | before
      · refine lt_of_le_of_ne (first other inUntold otherTakes) fun same => different ?_
        exact (eq_of_id_eq consistent (consistent.stored.subset inUntold) stored same.symm)
      · exact later other inUntold otherTakes earlier before
    · rw [sameTakes]
      intro other otherStored otherTakes
      rcases complete other otherStored otherTakes with before | otherUntold
      · exact .inl ((isDue other).mpr (.inr before))
      · by_cases same : other = event
        · exact .inl ((isDue other).mpr (.inl same))
        · exact .inr (among.mpr ⟨otherUntold, same⟩)

theorem due_subscribe (options : SubscribeOptions Id Payload) :
    (subscribe log options).due = (subscribe log options).toReplay ∧
      (subscribe log options).toReplay =
        if options.since = none then [] else log.events.filter options.takes := by
  refine ⟨rfl, ?_⟩
  unfold Subscription.toReplay subscribe
  cases begins : options.since with
  | none => rfl
  | some fromId =>
    simp only [Option.map_some, Option.getD_some]
    rw [getRange_memory consistent.increasing, List.filter_filter]
    refine List.filter_congr fun event _ => ?_
    rw [SubscribeOptions.takes, begins, Bool.and_comm]
    simp [inRange]

theorem onTrack_register {options} (given : options.fromId ≠ none) {subscribers} :
    OnTrack ⟨log.events, log.untold, subscribers⟩ (subscribe log options) ↔
      Orderly log (.register options) := by
  obtain ⟨due, history⟩ := due_subscribe consistent options
  cases begins : options.since with
  | none =>
    rw [if_pos begins] at history
    rw [history] at due
    have empty : options.fromId = some ⊥ := by
      obtain ⟨fromId, isGiven⟩ := Option.ne_none_iff_exists'.mp given
      rw [SubscribeOptions.since, isGiven] at begins
      simpa [isGiven] using begins
    have takes : ∀ event,
        (subscribe log options).takes event = subscriptionAdmits options event := by
      intro event
      change options.takes event = _
      rw [SubscribeOptions.takes, begins]
      rfl
    constructor
    · rintro ⟨_, _, complete⟩
      refine ⟨fun begun => absurd begins begun, fun _ event stored admits => ?_⟩
      have missing := complete event stored ((takes event).trans admits)
      rw [due] at missing
      exact missing.resolve_left (List.not_mem_nil)
    · rintro ⟨_, allUntold⟩
      refine ⟨by rw [due]; exact .nil, ?_, ?_⟩
      · intro event _ _ earlier isDue
        rw [due] at isDue
        cases isDue
      · exact fun event stored isTaken =>
          .inr (allUntold empty event stored ((takes event).symm.trans isTaken))
  | some fromId =>
    have begun : options.since ≠ none := by simp [begins]
    rw [if_neg begun] at history
    rw [history] at due
    have notEmpty : options.fromId ≠ some ⊥ := by
      intro empty
      simp [SubscribeOptions.since, empty] at begun
    constructor
    · rintro ⟨_, later, _⟩
      refine ⟨fun _ event isUntold => ?_, fun empty => absurd empty notEmpty⟩
      by_contra takes
      rw [Bool.not_eq_false] at takes
      have isDue : event ∈ (subscribe log options).due := by
        rw [due]
        exact List.mem_filter.mpr ⟨consistent.stored.subset isUntold, takes⟩
      exact (later event isUntold takes event isDue).false
    · rintro ⟨noneUntold, _⟩
      refine ⟨?_, ?_, ?_⟩
      · rw [due]
        exact consistent.increasing.sublist List.filter_sublist
      · intro event isUntold takes
        cases takes.symm.trans (noneUntold begun event isUntold)
      · intro event stored takes
        rw [due]
        exact .inl (List.mem_filter.mpr ⟨stored, takes⟩)

end

/-! ### What every step keeps -/

theorem served_persist (served : Served log.events subscription)
    (newest : ∀ earlier ∈ log.events, earlier.id < event.id) :
    Served (log.events ++ [event]) subscription where
  takes other isDue := (served.takes other isDue).imp_left (List.mem_append_left _)
  closed other isReplayed earlier stored takes order := by
    rcases List.mem_append.mp stored with old | new
    · exact served.closed other isReplayed earlier old takes order
    · cases List.mem_singleton.mp new
      have isDue : other ∈ subscription.due := List.mem_append_right _ isReplayed
      exact absurd (newest other (served.takes other isDue).1) (not_lt.mpr order)

theorem served_notify (served : Served log.events subscription) (stored : event ∈ log.events) :
    Served log.events (subscription.notify event) := by
  cases takes : subscription.takes event with
  | false => exact (notify_of_not_takes takes).symm ▸ served
  | true =>
    have sameTakes : (subscription.notify event).takes = subscription.takes := by
      rw [toSubscribeOptions_notify]
    refine ⟨?_, ?_⟩
    · rw [sameTakes, due_notify_of_takes takes]
      intro other isDue
      rcases List.mem_append.mp isDue with isPushed | rest
      · exact served.takes other (List.mem_append_left _ isPushed)
      · rcases List.mem_cons.mp rest with rfl | isReplayed
        · exact ⟨stored, takes⟩
        · exact served.takes other (List.mem_append_right _ isReplayed)
    · rw [sameTakes, toReplay_notify]
      exact served.closed

theorem served_subscribe (consistent : Consistent log) (options : SubscribeOptions Id Payload) :
    Served log.events (subscribe log options) := by
  obtain ⟨due, history⟩ := due_subscribe consistent options
  have among : ∀ event ∈ (subscribe log options).toReplay,
      event ∈ log.events ∧ options.takes event = true := by
    intro event isReplayed
    rw [history] at isReplayed
    split at isReplayed
    · cases isReplayed
    · exact List.mem_filter.mp isReplayed
  refine ⟨fun event isDue => among event (due ▸ isDue), ?_⟩
  intro event isReplayed earlier stored takes _
  rw [history] at isReplayed ⊢
  split at isReplayed
  · cases isReplayed
  · next begun =>
    rw [if_neg begun]
    exact List.mem_filter.mpr ⟨stored, takes⟩

theorem served_replay (served : Served log.events subscription) :
    Served log.events subscription.replay where
  takes := by
    rw [due_replay]
    exact served.takes
  closed := by rintro event ⟨⟩

theorem served_next (served : Served log.events subscription) :
    Served log.events subscription.next where
  takes := by
    rw [due_next]
    exact served.takes
  closed := served.closed

theorem consistent_step {next : LiveLog Id Payload} {step} (consistent : Consistent log)
    (taken : liveStep log step = some next) : Consistent next := by
  obtain ⟨increasing, positive, stored, served⟩ := consistent
  cases step with
  | persist event =>
    simp only [liveStep] at taken
    split at taken
    · next newest =>
      cases taken
      refine ⟨?_, ?_, stored.append (.refl _), ?_⟩
      · refine List.pairwise_append.mpr ⟨increasing, List.pairwise_singleton _ _, ?_⟩
        intro earlier isEarlier other isNew
        cases List.mem_singleton.mp isNew
        exact newest.2 earlier isEarlier
      · intro other isOther
        rcases List.mem_append.mp isOther with old | new
        · exact positive other old
        · cases List.mem_singleton.mp new
          exact newest.1
      · exact fun subscription member => served_persist (served subscription member) newest.2
    · cases taken
  | notify index =>
    obtain ⟨event, at_index, rfl⟩ := Option.map_eq_some_iff.mp taken
    refine ⟨increasing, positive, (List.eraseIdx_sublist _ _).trans stored, ?_⟩
    intro subscription member
    obtain ⟨before, isBefore, rfl⟩ := List.mem_map.mp member
    exact served_notify (served before isBefore) (stored.subset (List.mem_of_getElem? at_index))
  | register options =>
    cases taken
    refine ⟨increasing, positive, stored, fun subscription member => ?_⟩
    rcases List.mem_append.mp member with old | new
    · exact served subscription old
    · cases List.mem_singleton.mp new
      exact served_subscribe ⟨increasing, positive, stored, served⟩ options
  | replay index =>
    cases taken
    refine ⟨increasing, positive, stored, fun subscription member => ?_⟩
    rcases mem_modify member with old | ⟨before, isBefore, rfl⟩
    · exact served subscription old
    · exact served_replay (served before isBefore)
  | next index =>
    cases taken
    refine ⟨increasing, positive, stored, fun subscription member => ?_⟩
    rcases mem_modify member with old | ⟨before, isBefore, rfl⟩
    · exact served subscription old
    · exact served_next (served before isBefore)

theorem allOnTrack_step {next step} (consistent : Consistent log)
    (taken : liveStep log step = some next) :
    AllOnTrack next ↔ AllOnTrack log ∧ Orderly log step := by
  cases step with
  | persist event =>
    have orderly : Orderly log (.persist event) := trivial
    rw [and_iff_left orderly]
    simp only [liveStep] at taken
    split at taken
    · next newest =>
      cases taken
      refine forall₂_congr fun subscription member => forall_congr' fun _ => ?_
      exact onTrack_persist consistent member newest.2
    · cases taken
  | notify index =>
    obtain ⟨event, at_index, rfl⟩ := Option.map_eq_some_iff.mp taken
    have each : ∀ subscription ∈ log.subscribers,
        (OnTrack ⟨log.events, log.untold.eraseIdx index, []⟩ (subscription.notify event) ↔
          OnTrack log subscription ∧ (subscription.takes event = true →
            subscription.toReplay = [] ∧
              ∀ other ∈ log.untold, subscription.takes other = true → event.id ≤ other.id)) := by
      intro subscription member
      cases takes : subscription.takes event with
      | true => simpa using onTrack_notify_of_takes consistent member at_index takes
      | false =>
        rw [notify_of_not_takes takes]
        simpa using onTrack_notify_of_not_takes consistent at_index takes
    unfold AllOnTrack Orderly
    simp only [List.forall_mem_map, at_index, Option.some.injEq, forall_eq']
    rw [← forall₂_and]
    refine forall₂_congr fun subscription member => ?_
    rw [toSubscribeOptions_notify, onTrack_congr rfl rfl, each subscription member]
    tauto
  | register options =>
    cases taken
    unfold AllOnTrack
    simp only [List.forall_mem_append, List.forall_mem_singleton]
    refine and_congr ?_ ?_
    · refine forall₂_congr fun subscription _ => forall_congr' fun _ => ?_
      exact (onTrack_congr rfl rfl).trans (onTrack_congr rfl rfl).symm
    · by_cases given : options.fromId = none
      · refine iff_of_true (fun some => absurd given some) ⟨fun begun => ?_, fun empty => ?_⟩
        · simp [SubscribeOptions.since, given] at begun
        · rw [given] at empty
          cases empty
      · rw [← onTrack_register consistent given]
        exact ⟨fun onTrack => onTrack given, fun onTrack _ => onTrack⟩
  | replay index =>
    have orderly : Orderly log (.replay index) := trivial
    rw [and_iff_left orderly]
    cases taken
    have same : ∀ subscription : Subscription Id Payload,
        (subscription.fromId ≠ none → OnTrack
          ⟨log.events, log.untold, log.subscribers.modify index Subscription.replay⟩
            subscription.replay) ↔
          (subscription.fromId ≠ none → OnTrack
            ⟨log.events, log.untold, log.subscribers.modify index Subscription.replay⟩
            subscription) :=
      fun subscription => forall_congr' fun _ =>
        (onTrack_congr (due_replay subscription) rfl).trans (onTrack_congr rfl rfl).symm
    refine (forall_mem_modify_iff same index).trans ?_
    refine forall₂_congr fun subscription _ => forall_congr' fun _ => ?_
    exact (onTrack_congr rfl rfl).trans (onTrack_congr rfl rfl).symm
  | next index =>
    have orderly : Orderly log (.next index) := trivial
    rw [and_iff_left orderly]
    cases taken
    have same : ∀ subscription : Subscription Id Payload,
        (subscription.fromId ≠ none → OnTrack
          ⟨log.events, log.untold, log.subscribers.modify index Subscription.next⟩
            subscription.next) ↔
          (subscription.fromId ≠ none → OnTrack
            ⟨log.events, log.untold, log.subscribers.modify index Subscription.next⟩
            subscription) :=
      fun subscription => forall_congr' fun _ =>
        (onTrack_congr (due_next subscription) rfl).trans (onTrack_congr rfl rfl).symm
    refine (forall_mem_modify_iff same index).trans ?_
    refine forall₂_congr fun subscription _ => forall_congr' fun _ => ?_
    exact (onTrack_congr rfl rfl).trans (onTrack_congr rfl rfl).symm

theorem onTrack_iff_of_settled (consistent : Consistent log) (settled : Settled log)
    (member : subscription ∈ log.subscribers) {fromId} (given : subscription.fromId = some fromId) :
    OnTrack log subscription ↔ subscription.queue.pushed = wanted log subscription fromId := by
  have due : subscription.due = subscription.queue.pushed := by
    rw [Subscription.due, Subscription.toReplay, settled.replayed subscription member]
    exact List.append_nil _
  have isWanted : wanted log subscription fromId = log.events.filter subscription.takes := by
    refine List.filter_congr fun event stored => ?_
    have positive := consistent.positive event stored
    rw [SubscribeOptions.takes, SubscribeOptions.since, given]
    by_cases empty : fromId = ⊥
    · simp [empty, positive]
    · simp [empty]
  have sortedWanted : (log.events.filter subscription.takes).Pairwise fun first second =>
      first.id < second.id := consistent.increasing.sublist List.filter_sublist
  have served := (consistent.served subscription member).takes
  rw [isWanted, ← due]
  constructor
  · rintro ⟨sorted, _, complete⟩
    have perm : subscription.due.Perm (log.events.filter subscription.takes) := by
      refine (List.perm_ext_iff_of_nodup (sorted.imp fun order same => (same ▸ order).false)
        (sortedWanted.imp fun order same => (same ▸ order).false)).mpr fun event => ?_
      rw [List.mem_filter]
      refine ⟨served event, fun both => ?_⟩
      refine (complete event both.1 both.2).resolve_right ?_
      rw [settled.told]
      exact List.not_mem_nil
    exact perm.eq_of_pairwise (fun first second _ _ order back => absurd (order.trans back)
      (lt_irrefl _)) sorted sortedWanted
  · intro same
    refine ⟨same ▸ sortedWanted, ?_, fun event stored takes => ?_⟩
    · rw [settled.told]
      rintro event ⟨⟩
    · rw [same]
      exact .inl (List.mem_filter.mpr ⟨stored, takes⟩)

end

theorem consistent_empty : Consistent ({} : LiveLog Id Payload) :=
  ⟨.nil, by rintro event ⟨⟩, .refl _, by rintro subscription ⟨⟩⟩

/-- Once all is told and replayed, all subscribers have received all exactly in the runs in which
every step was orderly. -/
theorem receivesAll_iff {events : List (LiveEvent Id Payload)} {last : LiveLog Id Payload}
    (run : Run liveStep {} events last) (settled : Settled last) :
    (∀ subscription ∈ last.subscribers, ReceivesAll last subscription) ↔
      Run.Meets liveStep Orderly {} events := by
  have consistent : Consistent last :=
    run.keeps (fun _ _ _ kept taken => consistent_step kept taken) consistent_empty
  have runs := run.last_iff_meets (fun _ _ _ kept taken => allOnTrack_step kept taken)
    (fun _ _ _ kept taken => consistent_step kept taken) consistent_empty
  have first : AllOnTrack ({} : LiveLog Id Payload) := by
    rintro subscription ⟨⟩
  rw [and_iff_right first] at runs
  rw [← runs]
  refine forall₂_congr fun subscription member => ?_
  constructor
  · intro received given
    obtain ⟨fromId, isGiven⟩ := Option.ne_none_iff_exists'.mp given
    exact (onTrack_iff_of_settled consistent settled member isGiven).mpr (received fromId isGiven)
  · intro onTrack fromId isGiven
    exact (onTrack_iff_of_settled consistent settled member isGiven).mp
      (onTrack (by simp [isGiven]))

/-! ### One subscriber -/

def happening (id : ℕ) : CognitiveEvent ℕ String where
  id
  type := "goal.achieved"
  payload := "done"
  timestamp := 1000
  correlationId := some "run"
  engine := some .nar

/-- The log with that event, all told and replayed, and its one subscriber. -/
def served (queue : PushQueue (CognitiveEvent ℕ String)) : LiveLog ℕ String where
  events := [happening 2]
  subscribers := [{ fromId := some 1, queue }]

theorem settled_served (queue : PushQueue (CognitiveEvent ℕ String)) : Settled (served queue) :=
  ⟨rfl, fun _ member => List.mem_singleton.mp member ▸ rfl⟩

/-- The event is stored and told before the subscriber comes. -/
def toldFirst : List (LiveEvent ℕ String) :=
  [.persist (happening 2), .notify 0, .register { fromId := some 1 }, .replay 0, .next 0]

theorem receivesAll_iff_toldFirst :
    ReceivesAll (served { handed := [happening 2] })
      { fromId := some 1, queue := { handed := [happening 2] } } := by
  have run : Run liveStep {} toldFirst (served { handed := [happening 2] }) :=
    .cons rfl (.cons rfl (.cons rfl (.cons rfl (.cons rfl (.nil _)))))
  refine (receivesAll_iff run (settled_served _)).mpr ?_ _ (List.mem_singleton.mpr rfl)
  refine .cons trivial rfl (.cons ?_ rfl (.cons ⟨?_, ?_⟩ rfl
    (.cons trivial rfl (.cons trivial rfl (.nil _)))))
  · rintro event _ subscription ⟨⟩
  · rintro _ event ⟨⟩
  · intro empty
    exact absurd empty (by decide)

/-- The event is stored before the subscriber comes, and told after. -/
def toldLater : List (LiveEvent ℕ String) :=
  [.persist (happening 2), .register { fromId := some 1 }, .notify 0, .replay 0]

theorem subscriber_receives_twice :
    ¬ ∀ (events : List (LiveEvent ℕ String)) (last : LiveLog ℕ String),
      Run liveStep {} events last → Settled last →
        ∀ subscription ∈ last.subscribers, ReceivesAll last subscription := by
  intro always
  have run : Run liveStep {} toldLater (served { items := [happening 2, happening 2] }) :=
    .cons rfl (.cons rfl (.cons rfl (.cons rfl (.nil _))))
  have receives := always _ _ run (settled_served _) _ (List.mem_singleton.mpr rfl) 1 rfl
  exact absurd receives (by decide +kernel)

end Senars.EventLog
