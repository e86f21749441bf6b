/-
This file says what flood protection keeps.

The rate is kept on every schedule: a message that was said within the delay still
has its timer, every timer has its pending entry, and nothing is said to a full
target. The order is kept by the queue alone, so a message said past the queue must
not have an earlier one waiting there. And the queue is the only thing that holds
messages back until the connection is ready, so it must not be drained before.
-/

import Mathlib.Data.List.Perm.Basic
import Senars.Connections.Irc

namespace Senars.Connections.IRCConnection

open Library

/-! ### What is promised -/

/-- The numbers of the messages to a target. -/
def serialsTo (target : String) (messages : List QueuedMessage) : List Nat :=
  (messages.filter (·.target = target)).map (·.serial)

/-- The messages to a target said within the delay. -/
def saidRecently (config : IRCConnectionConfig) (state : IRCConnection) (target : String) :
    List SaidMessage :=
  state.said.filter fun line =>
    line.target = target && state.now < line.saidAt + config.floodProtectionDelay

/-- No target was said more within the delay than it may have pending. -/
def KeepsRate (config : IRCConnectionConfig) (state : IRCConnection) : Prop :=
  ∀ target, (saidRecently config state target).length ≤ config.floodProtectionMaxPending

/-- The messages to each target are said at most once each, in the order they were sent, and
none is said before the connection is ready. -/
structure KeepsOrder (state : IRCConnection) : Prop where
  order : ∀ target, (serialsTo target (state.said.map (·.toQueuedMessage))).Pairwise (· < ·)
  ready : ∀ line ∈ state.said, state.readyAt ≤ line.saidAt

/-! ### Rate -/

/-- Every recent line has its timer and every timer its pending entry. -/
structure Tracked (config : IRCConnectionConfig) (state : IRCConnection) : Prop where
  timed : ∀ target, (state.pendingOf target).Perm
    ((state.timers.filter (·.target = target)).map (·.message))
  bounded : ∀ target, (state.pendingOf target).length ≤ config.floodProtectionMaxPending
  recent : (state.said.filter fun line =>
    decide (state.now < line.saidAt + config.floodProtectionDelay)).Sublist state.timers

section Rate

variable {config : IRCConnectionConfig} {state : IRCConnection}

theorem tracked_registered (now : Nat) : Tracked config (registered config now) where
  timed _ := List.Perm.refl _
  bounded _ := Nat.zero_le _
  recent := List.Sublist.refl _

theorem Tracked.keepsRate (tracked : Tracked config state) : KeepsRate config state := by
  intro target
  have inTimers : (saidRecently config state target).Sublist
      (state.timers.filter (·.target = target)) := by
    have lines := tracked.recent.filter (·.target = target)
    rw [List.filter_filter] at lines
    exact lines
  have pending := (tracked.timed target).length_eq
  rw [List.length_map] at pending
  exact Nat.le_trans inTimers.length_le (pending ▸ tracked.bounded target)

theorem pendingOf_dispatchMessage (queued : QueuedMessage) (target : String) :
    (state.dispatchMessage queued).pendingOf target =
      if target = queued.target then state.pendingOf target ++ [queued.message]
      else state.pendingOf target := by
  have get := OrderedMap.get_set state.pendingMessages queued.target target
  unfold pendingOf dispatchMessage
  rw [get]
  split
  · rename_i same
    rw [same]
    rfl
  · rfl

theorem Tracked.dispatchMessage (tracked : Tracked config state) {queued}
    (room : state.full config queued.target = false) :
    Tracked config (state.dispatchMessage queued) := by
  refine ⟨fun target => ?_, fun target => ?_, ?_⟩
  · rw [pendingOf_dispatchMessage]
    change List.Perm _ (((state.timers ++ [_]).filter _).map _)
    rw [List.filter_append, List.map_append]
    split
    · rename_i same
      rw [List.filter_cons_of_pos (by simp [same]), List.filter_nil]
      exact (tracked.timed target).append_right _
    · rename_i different
      rw [List.filter_cons_of_neg (by simpa using Ne.symm different), List.filter_nil,
        List.map_nil, List.append_nil]
      exact tracked.timed target
  · rw [pendingOf_dispatchMessage]
    split
    · rename_i same
      rw [List.length_append, same]
      exact Nat.lt_of_not_le (of_decide_eq_false room)
    · exact tracked.bounded target
  · change ((state.said ++ [_]).filter _).Sublist (state.timers ++ [_])
    rw [List.filter_append]
    exact tracked.recent.append (List.filter_sublist)

theorem Tracked.withQueue (tracked : Tracked config state) (messageQueue : List QueuedMessage) :
    Tracked config { state with messageQueue } :=
  ⟨tracked.timed, tracked.bounded, tracked.recent⟩

theorem Tracked.drainFrom (tracked : Tracked config state) (queue : List QueuedMessage) :
    Tracked config (drainFrom config queue state) := by
  induction queue generalizing state with
  | nil => exact tracked.withQueue []
  | cons next rest ih =>
    unfold IRCConnection.drainFrom
    split
    · exact tracked.withQueue _
    · rename_i room
      exact ih (tracked.dispatchMessage (Bool.eq_false_iff.mpr room))

theorem Tracked.tick (tracked : Tracked config state) {time} (later : state.now ≤ time) :
    Tracked config { state with now := time } := by
  refine ⟨tracked.timed, tracked.bounded, List.Sublist.trans ?_ tracked.recent⟩
  refine List.monotone_filter_right state.said fun line recent => ?_
  have before : time < line.saidAt + config.floodProtectionDelay := of_decide_eq_true recent
  exact decide_eq_true (by omega)

theorem Tracked.send (tracked : Tracked config state) (target text : String) :
    Tracked config (state.send config target text) := by
  have counted : Tracked config { state with sent := state.sent + 1 } :=
    ⟨tracked.timed, tracked.bounded, tracked.recent⟩
  unfold IRCConnection.send
  split
  · exact counted.withQueue _
  · split
    · exact counted.withQueue _
    · rename_i room
      exact counted.dispatchMessage (Bool.eq_false_iff.mpr room)

theorem pendingOf_release (target message other : String) :
    (state.release target message).pendingOf other =
      if other = target then (state.pendingOf target).erase message else state.pendingOf other := by
  unfold pendingOf release
  split
  · rename_i none
    split
    · rename_i same
      rw [same, none]
      rfl
    · rfl
  · rename_i pending found
    have get := OrderedMap.get_set state.pendingMessages target other (pending.erase message)
    rw [get]
    split
    · rw [found]
      rfl
    · rfl

theorem filter_eraseIdx_of_not {Value : Type} {values : List Value} {index}
    (inside : index < values.length) (keep : Value → Bool) (dropped : keep values[index] = false) :
    values.filter keep = (values.eraseIdx index).filter keep := by
  have whole : values = values.take index ++ values[index] :: values.drop (index + 1) := by
    rw [List.getElem_cons_drop, List.take_append_drop]
  rw [List.eraseIdx_eq_take_drop_succ, List.filter_append]
  conv_lhs => rw [whole]
  rw [List.filter_append, List.filter_cons_of_neg (by simp [dropped])]

theorem Tracked.release (tracked : Tracked config state) {index : Nat} {line}
    (fires : state.timers[index]? = some line)
    (late : line.saidAt + config.floodProtectionDelay ≤ state.now) :
    Tracked config ({ state with timers := state.timers.eraseIdx index }.release line.target
      line.message) := by
  obtain ⟨inside, rfl⟩ := List.getElem?_eq_some_iff.mp fires
  have taken := List.getElem_cons_eraseIdx_perm inside
  have timers : ∀ target message, ({ state with timers := state.timers.eraseIdx index }.release
      target message).timers = state.timers.eraseIdx index := by
    intro target message
    unfold IRCConnection.release
    split <;> rfl
  have pending : ∀ target, (({ state with timers := state.timers.eraseIdx index }.release
      state.timers[index].target state.timers[index].message).pendingOf target) =
      if target = state.timers[index].target then
        (state.pendingOf state.timers[index].target).erase state.timers[index].message
      else state.pendingOf target := pendingOf_release _ _
  refine ⟨fun target => ?_, fun target => ?_, ?_⟩
  · have rest := ((taken.filter (·.target = target)).map (·.message)).trans
      (tracked.timed target).symm
    rw [pending, timers]
    split
    · rename_i same
      rw [List.filter_cons_of_pos (by simp [same]), List.map_cons] at rest
      have erased := rest.symm.erase state.timers[index].message
      rw [List.erase_cons_head] at erased
      exact same ▸ erased
    · rename_i different
      rw [List.filter_cons_of_neg (by simpa using Ne.symm different)] at rest
      exact rest.symm
  · rw [pending]
    split
    · exact Nat.le_trans (List.length_erase_le) (tracked.bounded _)
    · exact tracked.bounded target
  · have still := filter_eraseIdx_of_not inside
      (fun line => decide (state.now < line.saidAt + config.floodProtectionDelay))
      (decide_eq_false (Nat.not_lt.mpr late))
    have lines := tracked.recent.filter
      fun line => decide (state.now < line.saidAt + config.floodProtectionDelay)
    rw [List.filter_filter, still] at lines
    simp only [Bool.and_self] at lines
    have now : ({ state with timers := state.timers.eraseIdx index }.release
        state.timers[index].target state.timers[index].message).now = state.now ∧
        ({ state with timers := state.timers.eraseIdx index }.release
          state.timers[index].target state.timers[index].message).said = state.said := by
      unfold IRCConnection.release
      split <;> exact ⟨rfl, rfl⟩
    rw [now.1, now.2, timers]
    exact lines.trans List.filter_sublist

theorem Tracked.step (tracked : Tracked config state) {event next}
    (taken : step config state event = some next) : Tracked config next := by
  cases event with
  | send target text time =>
    simp only [IRCConnection.step] at taken
    split at taken
    · cases taken
    · rename_i later
      cases taken
      exact (tracked.tick (Nat.not_lt.mp later)).send target text
  | timer index time =>
    simp only [IRCConnection.step] at taken
    split at taken
    · cases taken
    · rename_i line fires
      split at taken
      · cases taken
      · rename_i due
        obtain ⟨later, late⟩ := not_or.mp due
        cases taken
        have ticked := tracked.tick (Nat.not_lt.mp later)
        exact (ticked.release fires (Nat.not_lt.mp late)).drainFrom _
  | drain time =>
    simp only [IRCConnection.step] at taken
    split at taken
    · cases taken
    · rename_i later
      cases taken
      exact (tracked.tick (Nat.not_lt.mp later)).drainFrom _

end Rate

/-! ### Order -/

/-- A text is said past the queue only where nothing for its target waits in the queue, which has
room for what is queued; and the queue is drained before the connection is ready only where
nothing can be said. -/
def StaysInLine (config : IRCConnectionConfig) (state : IRCConnection) : Event → Prop
  | .send target _ time =>
    if time < state.readyAt ∨ state.full config target then
      state.messageQueue.length < maxQueuedMessages
    else ∀ queued ∈ state.messageQueue, queued.target ≠ target
  | .timer _ _ => True
  | .drain time =>
    state.readyAt ≤ time ∨ ∀ queued ∈ state.messageQueue.head?, state.full config queued.target

/-- What was said and what is queued is in order, and was said when the connection was ready. -/
structure Ordered (state : IRCConnection) : Prop where
  order : ∀ target, (serialsTo target
    (state.said.map (·.toQueuedMessage) ++ state.messageQueue)).Pairwise (· < ·)
  numbered : ∀ queued ∈ state.said.map (·.toQueuedMessage) ++ state.messageQueue,
    queued.serial < state.sent
  ready : ∀ line ∈ state.said, state.readyAt ≤ line.saidAt
  timed : ∀ line ∈ state.timers, state.readyAt ≤ line.saidAt

section Order

variable {config : IRCConnectionConfig} {state : IRCConnection}

theorem ordered_registered (now : Nat) : Ordered (registered config now) where
  order _ := List.Pairwise.nil
  numbered _ member := absurd member List.not_mem_nil
  ready _ member := absurd member List.not_mem_nil
  timed _ member := absurd member List.not_mem_nil

theorem serialsTo_append (target : String) (first second : List QueuedMessage) :
    serialsTo target (first ++ second) = serialsTo target first ++ serialsTo target second := by
  rw [serialsTo, List.filter_append, List.map_append]
  rfl

theorem serialsTo_singleton (target : String) (queued : QueuedMessage) :
    serialsTo target [queued] = if queued.target = target then [queued.serial] else [] := by
  by_cases same : queued.target = target
  · rw [if_pos same, serialsTo, List.filter_cons_of_pos (by simp [same]), List.filter_nil]
    rfl
  · rw [if_neg same, serialsTo, List.filter_cons_of_neg (by simp [same]), List.filter_nil]
    rfl

theorem Ordered.keepsOrder (ordered : Ordered state) : KeepsOrder state := by
  refine ⟨fun target => ?_, ordered.ready⟩
  have order := ordered.order target
  rw [serialsTo_append] at order
  exact order.sublist (List.sublist_append_left _ _)

theorem Ordered.dispatchHead {next rest}
    (ordered : Ordered { state with messageQueue := next :: rest }) 
    (ready : state.readyAt ≤ state.now) :
    Ordered { state.dispatchMessage next with messageQueue := rest } := by
  have same : (state.dispatchMessage next).said.map (·.toQueuedMessage) ++ rest =
      state.said.map (·.toQueuedMessage) ++ next :: rest := by
    change (state.said ++ [_]).map _ ++ rest = _
    rw [List.map_append, List.append_assoc]
    rfl
  refine ⟨fun target => ?_, ?_, ?_, ?_⟩
  · rw [same]
    exact ordered.order target
  · rw [same]
    exact ordered.numbered
  · exact List.forall_mem_append.mpr ⟨ordered.ready, List.forall_mem_singleton.mpr ready⟩
  · exact List.forall_mem_append.mpr ⟨ordered.timed, List.forall_mem_singleton.mpr ready⟩

theorem Ordered.drainFrom (queue : List QueuedMessage)
    (ordered : Ordered { state with messageQueue := queue })
    (ready : state.readyAt ≤ state.now ∨ ∀ queued ∈ queue.head?, state.full config queued.target) :
    Ordered (drainFrom config queue state) := by
  induction queue generalizing state with
  | nil => exact ordered
  | cons next rest ih =>
    unfold IRCConnection.drainFrom
    split
    · exact ordered
    · rename_i room
      have isReady : state.readyAt ≤ state.now :=
        ready.resolve_right fun blocked => room (blocked next rfl)
      exact ih (ordered.dispatchHead isReady) (Or.inl isReady)

theorem pairwise_concat {serials} {serial : Nat} (order : serials.Pairwise (· < ·))
    (last : ∀ earlier ∈ serials, earlier < serial) : (serials ++ [serial]).Pairwise (· < ·) :=
  List.pairwise_append.mpr ⟨order, List.pairwise_singleton _ _,
    fun earlier member _ isLast => List.mem_singleton.mp isLast ▸ last earlier member⟩

theorem mem_serialsTo {target messages serial} (member : serial ∈ serialsTo target messages) :
    ∃ queued ∈ messages, queued.target = target ∧ queued.serial = serial := by
  obtain ⟨queued, kept, same⟩ := List.mem_map.mp member
  obtain ⟨inside, isTarget⟩ := List.mem_filter.mp kept
  exact ⟨queued, inside, of_decide_eq_true isTarget, same⟩

theorem Ordered.enqueue (ordered : Ordered state) (target text : String)
    (room : state.messageQueue.length < maxQueuedMessages) :
    Ordered ({ state with sent := state.sent + 1 }.enqueue ⟨target, text, state.sent⟩) := by
  have queue : ({ state with sent := state.sent + 1 }.enqueue
      ⟨target, text, state.sent⟩).messageQueue =
      state.messageQueue ++ [⟨target, text, state.sent⟩] := by
    refine if_neg (Nat.not_lt.mpr ?_)
    rw [List.length_append]
    exact room
  refine ⟨fun other => ?_, ?_, ordered.ready, ordered.timed⟩
  · rw [queue, ← List.append_assoc, serialsTo_append, serialsTo_singleton]
    split
    · refine pairwise_concat (ordered.order other) fun earlier member => ?_
      obtain ⟨queued, inside, _, rfl⟩ := mem_serialsTo member
      exact ordered.numbered queued inside
    · rw [List.append_nil]
      exact ordered.order other
  · intro queued member
    rw [queue, ← List.append_assoc] at member
    rcases List.mem_append.mp member with old | new
    · exact Nat.lt_succ_of_lt (ordered.numbered queued old)
    · rw [List.mem_singleton.mp new]
      exact Nat.lt_succ_self _

theorem Ordered.dispatchNew (ordered : Ordered state) (target text : String)
    (ready : state.readyAt ≤ state.now)
    (clear : ∀ queued ∈ state.messageQueue, queued.target ≠ target) :
    Ordered ({ state with sent := state.sent + 1 }.dispatchMessage
      ⟨target, text, state.sent⟩) := by
  have said : ({ state with sent := state.sent + 1 }.dispatchMessage
      ⟨target, text, state.sent⟩).said.map SaidMessage.toQueuedMessage =
      state.said.map (·.toQueuedMessage) ++ [⟨target, text, state.sent⟩] := by
    change (state.said ++ [_]).map _ = _
    rw [List.map_append]
    rfl
  refine ⟨fun other => ?_, ?_, ?_, ?_⟩
  · have before := ordered.order other
    rw [said, serialsTo_append, serialsTo_append, serialsTo_singleton]
    rw [serialsTo_append] at before
    split
    · rename_i same
      have none : serialsTo other state.messageQueue = [] := by
        refine List.eq_nil_iff_forall_not_mem.mpr fun serial member => ?_
        obtain ⟨queued, inside, isTarget, _⟩ := mem_serialsTo member
        exact clear queued inside (isTarget.trans same.symm)
      change (_ ++ serialsTo other state.messageQueue).Pairwise _
      rw [none, List.append_nil] at before ⊢
      refine pairwise_concat before fun earlier member => ?_
      obtain ⟨queued, inside, _, rfl⟩ := mem_serialsTo member
      exact ordered.numbered queued (List.mem_append_left _ inside)
    · rw [List.append_nil]
      exact before
  · intro queued member
    rw [said, List.append_assoc] at member
    rcases List.mem_append.mp member with old | later
    · exact Nat.lt_succ_of_lt (ordered.numbered queued (List.mem_append_left _ old))
    · rcases List.mem_cons.mp later with rfl | waiting
      · exact Nat.lt_succ_self _
      · exact Nat.lt_succ_of_lt (ordered.numbered queued (List.mem_append_right _ waiting))
  · exact List.forall_mem_append.mpr ⟨ordered.ready, List.forall_mem_singleton.mpr ready⟩
  · exact List.forall_mem_append.mpr ⟨ordered.timed, List.forall_mem_singleton.mpr ready⟩

theorem Ordered.tick (ordered : Ordered state) (time : Nat) :
    Ordered { state with now := time } :=
  ⟨ordered.order, ordered.numbered, ordered.ready, ordered.timed⟩

theorem Ordered.send (ordered : Ordered state) (target text : String)
    (inLine : StaysInLine config state (.send target text state.now)) :
    Ordered (state.send config target text) := by
  unfold IRCConnection.send
  simp only [StaysInLine] at inLine
  split
  · rename_i early
    rw [if_pos (Or.inl early)] at inLine
    exact ordered.enqueue target text inLine
  · rename_i late
    split
    · rename_i isFull
      rw [if_pos (Or.inr isFull)] at inLine
      exact ordered.enqueue target text inLine
    · rename_i room
      rw [if_neg (not_or.mpr ⟨late, room⟩)] at inLine
      exact ordered.dispatchNew target text (Nat.not_lt.mp late) inLine

theorem release_frame (state : IRCConnection) (target message : String) :
    (state.release target message).said = state.said ∧
      (state.release target message).messageQueue = state.messageQueue ∧
      (state.release target message).sent = state.sent ∧
      (state.release target message).readyAt = state.readyAt ∧
      (state.release target message).now = state.now ∧
      (state.release target message).timers = state.timers := by
  unfold IRCConnection.release
  split <;> exact ⟨rfl, rfl, rfl, rfl, rfl, rfl⟩

theorem Ordered.release (ordered : Ordered state) (target message : String) :
    Ordered (state.release target message) := by
  obtain ⟨said, queue, sent, readyAt, _, timers⟩ := release_frame state target message
  refine ⟨?_, ?_, ?_, ?_⟩
  · rw [said, queue]
    exact ordered.order
  · rw [said, queue, sent]
    exact ordered.numbered
  · rw [said, readyAt]
    exact ordered.ready
  · rw [timers, readyAt]
    exact ordered.timed

theorem Ordered.step (ordered : Ordered state) {event next}
    (inLine : StaysInLine config state event) (taken : step config state event = some next) :
    Ordered next := by
  cases event with
  | send target text time =>
    simp only [IRCConnection.step] at taken
    split at taken
    · cases taken
    · cases taken
      exact (ordered.tick time).send target text inLine
  | timer index time =>
    simp only [IRCConnection.step] at taken
    split at taken
    · cases taken
    · rename_i line fires
      split at taken
      · cases taken
      · rename_i due
        cases taken
        have fired : Ordered { state with now := time, timers := state.timers.eraseIdx index } :=
          ⟨ordered.order, ordered.numbered, ordered.ready,
            fun line member => ordered.timed line (List.mem_of_mem_eraseIdx member)⟩
        obtain ⟨_, _, _, readyAt, now, _⟩ := release_frame
          { state with now := time, timers := state.timers.eraseIdx index } line.target line.message
        have isReady : ({ state with now := time, timers := state.timers.eraseIdx index }.release
            line.target line.message).readyAt ≤ ({ state with
              now := time, timers := state.timers.eraseIdx index }.release line.target
              line.message).now := by
          rw [readyAt, now]
          exact Nat.le_trans (ordered.timed line (List.mem_of_getElem? fires))
            (Nat.le_trans (Nat.le_add_right _ _) (Nat.not_lt.mp (not_or.mp due).2))
        exact (fired.release line.target line.message).drainFrom _ (Or.inl isReady)
  | drain time =>
    simp only [IRCConnection.step] at taken
    split at taken
    · cases taken
    · cases taken
      exact (ordered.tick time).drainFrom _ inLine

end Order

/-! ### Runs -/

/-- On every schedule the rate is kept. Where every event stays in line, the messages to each
target are said at most once each, in the order they were sent and not before the connection is
ready. -/
theorem run_protected (config : IRCConnectionConfig) (now : Nat) (events : List Event)
    (state : IRCConnection) (run : Run (step config) (registered config now) events state) :
    KeepsRate config state ∧
      (Run.Meets (step config) (StaysInLine config) (registered config now) events →
        KeepsOrder state) := by
  constructor
  · have tracked : Tracked config state :=
      run.keeps (fun _ _ _ before taken => before.step taken) (tracked_registered now)
    exact tracked.keepsRate
  · intro meets
    have ordered : Ordered state :=
      run.keeps_of_meets (fun _ _ _ before inLine taken => before.step inLine taken) meets
        (ordered_registered now)
    exact ordered.keepsOrder

/-- One message, sent once the connection is ready. -/
def sendOnce : List Event := [.send "#senars" "hello" 9000]

theorem run_protected_sendOnce :
    ∃ state, Run (step {}) (registered {} 0) sendOnce state ∧ KeepsOrder state := by
  obtain ⟨state, run⟩ : ∃ state, Run (step {}) (registered {} 0) sendOnce state :=
    ⟨_, .cons rfl (.nil _)⟩
  refine ⟨state, run, (run_protected {} 0 sendOnce state run).2 (.cons ?_ rfl (.nil _))⟩
  exact fun queued member => absurd member List.not_mem_nil

/-! ### Schedules that break the promise -/

/-- The queue has room. -/
def Roomy (state : IRCConnection) (_ : Event) : Prop :=
  state.messageQueue.length < maxQueuedMessages

/-- A message sent and drained before the connection is ready. -/
def drainEarly : List Event := [.send "#senars" "hello" 0, .drain 2000]

/-- The periodic drain says a queued message before the connection is ready. -/
theorem early_drain_breaks_order :
    ¬ ∀ (config : IRCConnectionConfig) (now : Nat) (events : List Event) (state : IRCConnection),
      Run (step config) (registered config now) events state →
      Run.Meets (step config) Roomy (registered config now) events →
      KeepsRate config state ∧ KeepsOrder state := by
  intro promised
  have kept := (promised {} 0 drainEarly _ (.cons rfl (.cons rfl (.nil _)))
    (.cons (by unfold Roomy; decide) rfl (.cons (by unfold Roomy; decide) rfl (.nil _)))).2
  have ready := kept.ready ⟨⟨"#senars", "hello", 0⟩, 2000⟩ (List.mem_singleton.mpr rfl)
  exact absurd ready (by decide)

end Senars.Connections.IRCConnection
