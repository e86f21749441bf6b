/-
This file is a layer of links between terms. The links are in a bounded map under an id made
of the keys of both ends and the type, and an index keeps for the key of every term the ids of
the links at it. A link leaves the map by being removed, by decaying below the floor, or by
being evicted for a new one, and whichever way it goes the index forgets it.

An operation works on the map of the links and the index follows: each entry that the map
reports as evicted is forgotten.
-/

import Senars.Containers.StaysBounded
import Senars.Learning.Bag
import Senars.Memory.Coherence

namespace Senars.Links

open Library Containers Terms
open Learning (retain)
open Memory (addToSet removeFromSet Filed filed_addToSet filed_removeFromSet)

inductive LinkType where
  | termLink
  | inheritance
  | similarity
  | implication
  | temporal
  | semantic
  deriving DecidableEq

def LinkType.text : LinkType → String
  | .termLink => "term-link"
  | .inheritance => "inheritance"
  | .similarity => "similarity"
  | .implication => "implication"
  | .temporal => "temporal"
  | .semantic => "semantic"

/-- The link noise floor. -/
def minPriority : JsNumber := .finite (1 / 100)

structure LinkEntry (Data : Type) where
  id : String
  sourceTerm : Term
  targetTerm : Term
  type : LinkType
  priority : JsNumber
  createdAt : JsNumber
  lastAccessedAt : JsNumber
  data : Option Data

structure LinkInput (Data : Type) where
  sourceTerm : Term
  targetTerm : Term
  type : LinkType := .termLink
  priority : JsNumber := .finite (1 / 2)
  data : Option Data := none

structure LinkQuery where
  type : Option LinkType := none
  minPriority : JsNumber := 0
  maxResults : Option ℕ := none

namespace LinkEntry

variable {Data : Type}

/-- The link, stamped as read. -/
def touch (now : JsNumber) (entry : LinkEntry Data) : LinkEntry Data :=
  { entry with lastAccessedAt := now }

/-- The link, added again. -/
def update (now : JsNumber) (input : LinkInput Data) (entry : LinkEntry Data) : LinkEntry Data :=
  { entry.touch now with priority := input.priority, data := input.data.or entry.data }

def decay (decayRate : JsNumber) (entry : LinkEntry Data) : LinkEntry Data :=
  { entry with priority := retain entry.priority decayRate }

end LinkEntry

def linkId (source target : Term) (type : LinkType) : String :=
  termKey source ++ "_" ++ termKey target ++ "_" ++ type.text

inductive LinkForgetPolicy where
  | priority
  | lru
  | fifo
  | random
  deriving DecidableEq

def linkEvictionOrder {Data : Type} : LinkForgetPolicy → EvictionOrder (LinkEntry Data)
  | .priority => .byScore fun entry => entry.priority
  | .fifo => .fifo
  | .lru => .lru
  | .random => .random

/-- A layer of links with its index by term. -/
structure Layer (Data : Type) where
  capacity : ℕ
  links : BoundedMap String (LinkEntry Data)
  byTerm : OrderedMap String (List String) := .empty

namespace Layer

variable {Data : Type}

/-- A new layer. -/
def new (capacity : ℕ) (forgetPolicy : LinkForgetPolicy := .priority) : Layer Data where
  capacity := capacity
  links := .new { maxSize := capacity, eviction := linkEvictionOrder forgetPolicy }

/-- Drop every index reference to a link. -/
def forget (byTerm : OrderedMap String (List String)) (entry : LinkEntry Data) :
    OrderedMap String (List String) :=
  removeFromSet (removeFromSet byTerm (termKey entry.sourceTerm) entry.id)
    (termKey entry.targetTerm) entry.id

/-- Add the index references to a link. -/
def refer (byTerm : OrderedMap String (List String)) (entry : LinkEntry Data) :
    OrderedMap String (List String) :=
  let bySource := addToSet byTerm (termKey entry.sourceTerm) entry.id
  if termKey entry.targetTerm = termKey entry.sourceTerm then bySource
  else addToSet bySource (termKey entry.targetTerm) entry.id

/-- The layer after an operation on its links: what the map reported since is forgotten. -/
def withLinks (layer : Layer Data) (links : BoundedMap String (LinkEntry Data)) : Layer Data :=
  { layer with
    links
    byTerm := (links.reported.drop layer.links.reported.length).foldl
      (fun byTerm report => forget byTerm report.1) layer.byTerm }

/-- The layer after a change of the link under an id. -/
def mutate (layer : Layer Data) (id : String) (change : LinkEntry Data → LinkEntry Data) :
    Layer Data :=
  { layer with links := layer.links.mutate id change }

/-- Drop a link from the map and every index. -/
def purge (layer : Layer Data) (entry : LinkEntry Data) : Layer Data :=
  { layer with links := layer.links.delete entry.id, byTerm := forget layer.byTerm entry }

def addLink (layer : Layer Data) (now draw : JsNumber) (input : LinkInput Data) :
    Layer Data × Option (LinkEntry Data) :=
  if layer.capacity < 1 then (layer, none)
  else
    let id := linkId input.sourceTerm input.targetTerm input.type
    let (links, existing) := layer.links.get now id
    let layer := layer.withLinks links
    match existing with
    | some entry => (layer.mutate id (.update now input), some (entry.update now input))
    | none =>
      let entry : LinkEntry Data := { input with id, createdAt := now, lastAccessedAt := now }
      let layer := layer.withLinks (layer.links.set now draw id entry)
      ({ layer with byTerm := refer layer.byTerm entry }, some entry)

/-- Remove what is under an id. -/
def purgeId (layer : Layer Data) (now : JsNumber) (id : String) : Layer Data × Bool :=
  let (links, peeked) := layer.links.peek now id
  let layer := layer.withLinks links
  match peeked with
  | some entry => (layer.purge entry, (layer.links.entries.get entry.id).isSome)
  | none => (layer, false)

def removeLink (layer : Layer Data) (now : JsNumber) (source target : Term) (type : LinkType) :
    Layer Data × Bool :=
  layer.purgeId now (linkId source target type)

/-- Drop every link the layer holds for a term. -/
def removeAllLinksForTerm (layer : Layer Data) (now : JsNumber) (term : Term) : Layer Data :=
  ((layer.byTerm.get (termKey term)).getD []).foldl
    (fun layer id => (layer.purgeId now id).1) layer

/-- The link under an id decays, which answers whether it comes to be below the floor. -/
def decayLink (decayRate : JsNumber) (layer : Layer Data) (id : String) : Layer Data × Bool :=
  let next := layer.mutate id (.decay decayRate)
  (next, (next.links.entries.get id).any fun stored =>
    JsNumber.less stored.value.priority minPriority)

/-- The links under some ids decay, and the ids of those below the floor are kept. -/
def decayAll (decayRate : JsNumber) : Layer Data → List String → Layer Data × List String
  | layer, [] => (layer, [])
  | layer, id :: rest =>
    let (next, low) := decayLink decayRate layer id
    let (last, doomed) := decayAll decayRate next rest
    (last, if low then id :: doomed else doomed)

def applyDecay (layer : Layer Data) (now decayRate : JsNumber) : Layer Data :=
  let (decayed, doomed) := decayAll decayRate layer (layer.links.entries.entries.map Prod.fst)
  doomed.foldl (fun layer id => (layer.purgeId now id).1) decayed

/-- The links under some ids that a query asks for; those it returns are stamped as read. -/
def collect (now : JsNumber) (query : LinkQuery) :
    Layer Data → List String → Option ℕ → Layer Data × List (LinkEntry Data)
  | layer, [], _ => (layer, [])
  | layer, id :: rest, limit =>
    if limit = some 0 then (layer, [])
    else
      let (links, found) := layer.links.get now id
      let layer := layer.withLinks links
      match found with
      | none => collect now query layer rest limit
      | some entry =>
        if (query.type.any fun type => decide (entry.type ≠ type)) ||
            JsNumber.less entry.priority query.minPriority then
          collect now query layer rest limit
        else
          let read := layer.mutate id (.touch now)
          let (last, others) := collect now query read rest (limit.map (· - 1))
          (last, entry.touch now :: others)

def getLinksByTerm (layer : Layer Data) (now : JsNumber) (term : Term) (query : LinkQuery) :
    Layer Data × List (LinkEntry Data) :=
  match layer.byTerm.get (termKey term) with
  | none => (layer, [])
  | some ids => layer.collect now query ids query.maxResults

end Layer

end Senars.Links
