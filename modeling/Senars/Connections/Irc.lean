/-
This file is the outbound side of an IRC connection: messages said at once or held
in one queue for all targets, and the entries that are pending until their timer
fires.

Time is what the clock shows when something happens, and a timer fires no earlier
than its delay. A message carries the number of the `send` it came from, and what
was said is kept as a history; the connection reads neither.
-/

import Senars.Library.OrderedMap
import Senars.Library.Runs

namespace Senars.Connections

open Library

/-- The part of the configuration that flood protection reads, its defaults resolved. -/
structure IRCConnectionConfig where
  channels : List String := ["#senars"]
  floodProtectionDelay : Nat := 2000
  floodProtectionMaxPending : Nat := 2

/-- A message of one `send`, with the number of the call. -/
structure QueuedMessage where
  target : String
  message : String
  serial : Nat
  deriving DecidableEq

/-- A message that was said, and when. -/
structure SaidMessage extends QueuedMessage where
  saidAt : Nat
  deriving DecidableEq

def maxQueuedMessages : Nat := 1000

structure IRCConnection where
  pendingMessages : OrderedMap String (List String)
  messageQueue : List QueuedMessage
  readyAt : Nat
  now : Nat
  /-- The timers that have not fired, each of a message that was said. -/
  timers : List SaidMessage
  /-- How many times `send` was called. -/
  sent : Nat
  /-- Everything said so far. -/
  said : List SaidMessage

namespace IRCConnection

section Operations

variable (config : IRCConnectionConfig) (state : IRCConnection)

/-- The connection once the server has registered it. It is ready after the joins. -/
def registered (now : Nat) : IRCConnection where
  pendingMessages := .empty
  messageQueue := []
  readyAt := now + config.floodProtectionDelay * (config.channels.length + 1) + 5000
  now := now
  timers := []
  sent := 0
  said := []

/-- The pending texts of a target. -/
def pendingOf (target : String) : List String := (state.pendingMessages.get target).getD []

/-- A target has as many pending messages as it may. -/
def full (target : String) : Bool :=
  config.floodProtectionMaxPending ≤ (state.pendingOf target).length

/-- Queue a message. Past the capacity the oldest is dropped. -/
def enqueue (queued : QueuedMessage) : IRCConnection :=
  let items := state.messageQueue ++ [queued]
  { state with
    messageQueue := if maxQueuedMessages < items.length then items.tail else items }

/-- Say a message and start its timer. -/
def dispatchMessage (queued : QueuedMessage) : IRCConnection :=
  let line : SaidMessage := { queued with saidAt := state.now }
  { state with
    pendingMessages :=
      state.pendingMessages.set queued.target (state.pendingOf queued.target ++ [queued.message])
    said := state.said ++ [line]
    timers := state.timers ++ [line] }

/-- Send a text: queue it while the connection is not ready or the target is full, and say it
otherwise. -/
def send (target text : String) : IRCConnection :=
  let queued : QueuedMessage := ⟨target, text, state.sent⟩
  let counted := { state with sent := state.sent + 1 }
  if state.now < state.readyAt then counted.enqueue queued
  else if state.full config target then counted.enqueue queued
  else counted.dispatchMessage queued

/-- Say queued messages until one is for a full target. -/
def drainFrom : List QueuedMessage → IRCConnection → IRCConnection
  | [], state => { state with messageQueue := [] }
  | next :: rest, state =>
    if state.full config next.target then { state with messageQueue := next :: rest }
    else drainFrom rest (state.dispatchMessage next)

def drainQueue : IRCConnection := drainFrom config state.messageQueue state

/-- Remove one pending entry of a text. -/
def release (target message : String) : IRCConnection :=
  match state.pendingMessages.get target with
  | none => state
  | some pending =>
    { state with pendingMessages := state.pendingMessages.set target (pending.erase message) }

/-- A timer fires. -/
def completeDispatch (target message : String) : IRCConnection :=
  (state.release target message).drainQueue config

end Operations

/-- What can happen to a connection, and when. -/
inductive Event where
  | send (target text : String) (time : Nat)
  /-- The timer at an index fires. -/
  | timer (index time : Nat)
  /-- The periodic drain. -/
  | drain (time : Nat)

/-- The state after an event. The clock does not go back. -/
def step (config : IRCConnectionConfig) (state : IRCConnection) : Event → Option IRCConnection
  | .send target text time =>
    if time < state.now then none else some ({ state with now := time }.send config target text)
  | .timer index time =>
    match state.timers[index]? with
    | none => none
    | some line =>
      if time < state.now ∨ time < line.saidAt + config.floodProtectionDelay then none
      else some ({ state with now := time, timers := state.timers.eraseIdx index }.completeDispatch
        config line.target line.message)
  | .drain time =>
    if time < state.now then none else some ({ state with now := time }.drainQueue config)

end IRCConnection

end Senars.Connections
