/-
This file is the embedding cache: vectors in pooled buffers, entries filed under
their text in a recency map that expires them, and an index from pointers to
entries.

A buffer belongs to its pool and an entry names it by its slot, so two entries of
one slot share one vector. A `write` that misses waits for its generator, and
anything may happen before it goes on; the waiting texts are part of the state.
The vectors stored so far are kept as a history that nothing reads, and the sink
for metrics is left out.
-/

import Senars.Library.JsNumber
import Senars.Library.OrderedMap

namespace Senars.SystemOne

open Library

/-- A vector of a model. -/
abbrev Vector (Component : Type) := List Component

/-- The buffers of one width. The free slots are a stack, its top first. -/
structure BufferPool (Component : Type) where
  buffers : List (Vector Component)
  free : List Nat

/-- What the cache knows of a stored vector. Its buffer is the slot of its pool. -/
structure CacheEntry where
  key : String
  pointer : Nat
  dimension : Nat
  slot : Nat
  deriving DecidableEq

/-- An entry of the recency map. -/
structure Timed where
  value : CacheEntry
  expiresAt : JsNumber

structure EmbeddingCacheConfig where
  maxSize : Nat
  ttlMs : JsNumber
  dimension : Option Nat

structure EmbeddingCache (Component : Type) where
  pools : Nat → BufferPool Component
  cache : OrderedMap String Timed
  pointerIndex : OrderedMap Nat CacheEntry
  pointerCounter : Nat
  writes : Nat
  evictions : Nat
  /-- The texts whose generator has not answered. -/
  waiting : List String
  /-- The vectors stored so far, in the order of their pointers, which count from one. -/
  stored : List (Vector Component)

namespace EmbeddingCache

variable {Component : Type}

/-- A cache of a fresh process. -/
def new : EmbeddingCache Component where
  pools _ := ⟨[], []⟩
  cache := .empty
  pointerIndex := .empty
  pointerCounter := 0
  writes := 0
  evictions := 0
  waiting := []
  stored := []

/-! ### The recency map -/

/-- Release what an entry holds outside the map: its buffer and its pointer. -/
def forgetEntry (state : EmbeddingCache Component) (entry : CacheEntry) :
    EmbeddingCache Component :=
  let pool := state.pools entry.dimension
  { state with
    pools := Function.update state.pools entry.dimension
      { pool with free := entry.slot :: pool.free }
    pointerIndex := state.pointerIndex.delete entry.pointer
    evictions := state.evictions + 1 }

def evict (state : EmbeddingCache Component) (key : String) : EmbeddingCache Component :=
  match state.cache.get key with
  | none => state
  | some timed => ({ state with cache := state.cache.delete key }).forgetEntry timed.value

section Clock

variable (config : EmbeddingCacheConfig) (now : JsNumber)

def expired (timed : Timed) : Bool :=
  config.ttlMs != .infinite false && JsNumber.lessEq timed.expiresAt now

/-- The entry at a key. An expired one is evicted. -/
def live (state : EmbeddingCache Component) (key : String) :
    Option Timed × EmbeddingCache Component :=
  match state.cache.get key with
  | none => (none, state)
  | some timed => if expired config now timed then (none, state.evict key) else (some timed, state)

/-- Put an entry last. -/
def reinsert (state : EmbeddingCache Component) (key : String) (timed : Timed) :
    EmbeddingCache Component :=
  { state with cache := (state.cache.delete key).set key timed }

/-- Read a key, which makes it the most recent. -/
def get (state : EmbeddingCache Component) (key : String) :
    Option CacheEntry × EmbeddingCache Component :=
  match live config now state key with
  | (none, state) => (none, state)
  | (some timed, state) => (some timed.value, state.reinsert key timed)

/-- Make a key the most recent. -/
def touch (state : EmbeddingCache Component) (key : String) : Bool × EmbeddingCache Component :=
  match live config now state key with
  | (none, state) => (false, state)
  | (some timed, state) => (true, state.reinsert key timed)

/-- Evict the least recently used entry. -/
def evictVictim (state : EmbeddingCache Component) : EmbeddingCache Component :=
  match state.cache.entries with
  | [] => state
  | victim :: _ => state.evict victim.1

/-- Make room for a key. An entry under the key is dropped, not evicted; otherwise a full map
evicts its least recently used entry. -/
def makeRoom (state : EmbeddingCache Component) (key : String) : EmbeddingCache Component :=
  match state.cache.get key with
  | some _ => { state with cache := state.cache.delete key }
  | none => if max 1 config.maxSize ≤ state.cache.size then state.evictVictim else state

/-- Write a key. -/
def set (state : EmbeddingCache Component) (key : String) (value : CacheEntry) :
    EmbeddingCache Component :=
  let room := makeRoom config state key
  let expiresAt := if config.ttlMs = .infinite false then .infinite false else now + config.ttlMs
  { room with cache := room.cache.set key ⟨value, expiresAt⟩ }

end Clock

/-! ### Storing a vector -/

variable [Zero Component]

/-- A free slot of a width, or a new one. -/
def allocateBuffer (state : EmbeddingCache Component) (dimension : Nat) :
    Nat × EmbeddingCache Component :=
  let pool := state.pools dimension
  match pool.free with
  | recycled :: free =>
    (recycled, { state with pools := Function.update state.pools dimension { pool with free } })
  | [] =>
    (pool.buffers.length, { state with
      pools := Function.update state.pools dimension
        { pool with buffers := pool.buffers ++ [List.replicate dimension 0] } })

/-- Copy a vector into a buffer. -/
def setBuffer (state : EmbeddingCache Component) (dimension slot : Nat)
    (embedding : Vector Component) : EmbeddingCache Component :=
  let pool := state.pools dimension
  { state with
    pools := Function.update state.pools dimension
      { pool with buffers := pool.buffers.set slot embedding } }

section Clock

variable (config : EmbeddingCacheConfig) (now : JsNumber)

/-- File an entry under its key and its pointer. -/
def insert (state : EmbeddingCache Component) (key : String) (entry : CacheEntry) :
    EmbeddingCache Component :=
  let filed := set config now state key entry
  { filed with pointerIndex := filed.pointerIndex.set entry.pointer entry }

/-- Store a vector under a key, which depends on its pointer, and give the pointer out. -/
def store (state : EmbeddingCache Component) (keyOf : Nat → String)
    (embedding : Vector Component) : Nat × EmbeddingCache Component :=
  let dimension := embedding.length
  let slot := (state.allocateBuffer dimension).1
  let filled := (state.allocateBuffer dimension).2.setBuffer dimension slot embedding
  let pointer := filled.pointerCounter + 1
  let counted := { filled with
    pointerCounter := pointer
    writes := filled.writes + 1
    stored := filled.stored ++ [embedding] }
  (pointer, insert config now counted (keyOf pointer) ⟨keyOf pointer, pointer, dimension, slot⟩)

/-! ### The operations -/

/-- Begin to write a text: its pointer where it is cached, and otherwise the text waits. -/
def write (state : EmbeddingCache Component) (text : String) :
    Option Nat × EmbeddingCache Component :=
  match get config now state text with
  | (some existing, state) => (some existing.pointer, state)
  | (none, state) => (none, { state with waiting := state.waiting ++ [text] })

/-- Go on with a waiting write once its generator answered. A vector of another width than the
configured one is refused. -/
def resumeWrite (state : EmbeddingCache Component) (text : String)
    (embedding : Vector Component) : Option Nat × EmbeddingCache Component :=
  if config.dimension.any (· ≠ embedding.length) then (none, state)
  else
    let stored := store config now state (fun _ => text) embedding
    (some stored.1, stored.2)

/-- The key of a raw vector. -/
def rawKey (pointer : Nat) : String := "\x00raw:" ++ toString pointer

def writeRaw (state : EmbeddingCache Component) (embedding : Vector Component) :
    Nat × EmbeddingCache Component :=
  store config now state rawKey embedding

/-- The vector in the buffer of an entry. -/
def bufferOf (state : EmbeddingCache Component) (entry : CacheEntry) :
    Option (Vector Component) :=
  (state.pools entry.dimension).buffers[entry.slot]?

/-- Read a pointer, which makes its entry the most recent. -/
def read (state : EmbeddingCache Component) (pointer : Nat) :
    Option (Vector Component) × EmbeddingCache Component :=
  match state.pointerIndex.get pointer with
  | none => (none, state)
  | some entry =>
    match touch config now state entry.key with
    | (true, touched) => (touched.bufferOf entry, touched)
    | (false, touched) => (none, touched)

def has (state : EmbeddingCache Component) (text : String) : Bool × EmbeddingCache Component :=
  ((live config now state text).1.isSome, (live config now state text).2)

end Clock

def clear (state : EmbeddingCache Component) : EmbeddingCache Component :=
  let released := state.cache.entries.foldl (fun state entry => state.forgetEntry entry.2.value)
    state
  { released with
    cache := .empty
    pointerIndex := .empty
    writes := 0
    evictions := 0 }

/-! ### Interleavings -/

/-- What can happen to a cache. The time is whatever the clock shows then. -/
inductive Event (Component : Type) where
  | write (text : String) (now : JsNumber)
  /-- The generator of a waiting write answers. -/
  | resume (index : Nat) (embedding : Vector Component) (now : JsNumber)
  /-- The generator of a waiting write fails. -/
  | reject (index : Nat)
  | writeRaw (embedding : Vector Component) (now : JsNumber)
  | read (pointer : Nat) (now : JsNumber)
  | has (text : String) (now : JsNumber)
  | clear

/-- The state after an event. Only a waiting write can go on. -/
def step (config : EmbeddingCacheConfig) (state : EmbeddingCache Component) :
    Event Component → Option (EmbeddingCache Component)
  | .write text now => some (write config now state text).2
  | .resume index embedding now =>
    state.waiting[index]?.map fun text =>
      (resumeWrite config now { state with waiting := state.waiting.eraseIdx index } text
        embedding).2
  | .reject index =>
    state.waiting[index]?.map fun _ => { state with waiting := state.waiting.eraseIdx index }
  | .writeRaw embedding now => some (writeRaw config now state embedding).2
  | .read pointer now => some (read config now state pointer).2
  | .has text now => some (has config now state text).2
  | .clear => some state.clear

end EmbeddingCache

end Senars.SystemOne
