/-
This file is what holds of a link layer over whole runs of its operations. The index is exact:
the ids under the key of a term are those of the links that have a term with this key as an
end, and no set of ids is empty. This is so whichever way links come and go, for links of a
term with itself, and where the texts of two ids coincide.

The links are no more than the capacity exactly where each new link at a full layer finds a
link to evict. By priority that is a link with a priority below infinity.
-/

import Senars.Links.Layer

namespace Senars.Links

open Library Containers Terms
open Memory (addToSet removeFromSet Filed filed_addToSet filed_removeFromSet)

/-! ### Sets under keys that are not empty -/

section

variable {Key Value : Type} [DecidableEq Key] [DecidableEq Value]

/-- No set of the map is empty. -/
def NoneEmpty (map : OrderedMap Key (List Value)) : Prop :=
  ∀ key bucket, map.get key = some bucket → bucket ≠ []

theorem NoneEmpty.addToSet {map} (filled : NoneEmpty map) (key : Key) (value : Value) :
    NoneEmpty (addToSet map key value) := by
  intro other bucket found
  unfold Memory.addToSet at found
  rw [OrderedMap.get_set] at found
  split at found
  · rintro rfl
    have inside := mem_addMember.mpr (.inr rfl : value ∈ (map.get key).getD [] ∨ value = value)
    rw [Option.some.inj found] at inside
    exact List.not_mem_nil inside
  · exact filled other bucket found

theorem NoneEmpty.removeFromSet {map} (filled : NoneEmpty map) (key : Key) (value : Value) :
    NoneEmpty (removeFromSet map key value) := by
  intro other bucket found
  unfold Memory.removeFromSet at found
  split at found
  · exact filled other bucket found
  · rename_i held _
    simp only at found
    split at found
    · rw [OrderedMap.get_delete] at found
      split at found
      · cases found
      · exact filled other bucket found
    · rename_i some
      rw [OrderedMap.get_set] at found
      split at found
      · exact Option.some.inj found ▸ some
      · exact filled other bucket found

end

namespace Layer

variable {Data : Type} {layer next : Layer Data}

/-! ### The links and their index -/

/-- The link under an id. -/
def find (layer : Layer Data) (id : String) : Option (LinkEntry Data) :=
  (layer.links.entries.get id).map (·.value)

/-- A term with this key is an end of the link. -/
def Touches (entry : LinkEntry Data) (key : String) : Prop :=
  key = termKey entry.sourceTerm ∨ key = termKey entry.targetTerm

/-- The links are under their ids, and the index has the ids of the links at each key and no
empty sets. -/
structure Indexed (found : String → Option (LinkEntry Data))
    (byTerm : OrderedMap String (List String)) : Prop where
  named : ∀ {id entry}, found id = some entry → entry.id = id
  exact : ∀ key id, Filed byTerm key id ↔ ∃ entry, found id = some entry ∧ Touches entry key
  noneEmpty : NoneEmpty byTerm

variable {entry : LinkEntry Data}

theorem filed_forget {byTerm key id} :
    Filed (forget byTerm entry) key id ↔
      Filed byTerm key id ∧ ¬ (id = entry.id ∧ Touches entry key) := by
  unfold forget Touches
  rw [filed_removeFromSet, filed_removeFromSet]
  tauto

theorem filed_refer {byTerm key id} :
    Filed (refer byTerm entry) key id ↔
      Filed byTerm key id ∨ id = entry.id ∧ Touches entry key := by
  unfold refer Touches
  split
  · next same =>
    rw [filed_addToSet, same]
    tauto
  · rw [filed_addToSet, filed_addToSet]
    tauto

variable {found : String → Option (LinkEntry Data)} {byTerm : OrderedMap String (List String)}

theorem Indexed.forget (indexed : Indexed found byTerm) {entry}
    (here : found entry.id = some entry) :
    Indexed (fun id => if id = entry.id then none else found id) (forget byTerm entry) where
  named := by
    intro id other there
    split at there
    · cases there
    · exact indexed.named there
  exact := by
    intro key id
    rw [filed_forget, indexed.exact]
    by_cases same : id = entry.id
    · subst same
      simp [here]
    · simp [same]
  noneEmpty := (indexed.noneEmpty.removeFromSet _ _).removeFromSet _ _

theorem Indexed.refer (indexed : Indexed found byTerm) {entry} (free : found entry.id = none) :
    Indexed (fun id => if id = entry.id then some entry else found id) (refer byTerm entry) where
  named := by
    intro id other there
    split at there
    · next same => exact same.symm ▸ Option.some.inj there ▸ rfl
    · exact indexed.named there
  exact := by
    intro key id
    rw [filed_refer, indexed.exact]
    by_cases same : id = entry.id
    · subst same
      simp [free]
    · simp [same]
  noneEmpty := by
    unfold Layer.refer
    split
    · exact indexed.noneEmpty.addToSet _ _
    · exact (indexed.noneEmpty.addToSet _ _).addToSet _ _

/-- A change of links that leaves the id and the ends as they are. -/
structure Steady (change : LinkEntry Data → LinkEntry Data) : Prop where
  sameId : ∀ entry, (change entry).id = entry.id
  sameSource : ∀ entry, (change entry).sourceTerm = entry.sourceTerm
  sameTarget : ∀ entry, (change entry).targetTerm = entry.targetTerm

theorem steady_touch (now : JsNumber) : Steady (.touch now : LinkEntry Data → LinkEntry Data) :=
  ⟨fun _ => rfl, fun _ => rfl, fun _ => rfl⟩

theorem steady_update (now : JsNumber) (input : LinkInput Data) :
    Steady (LinkEntry.update now input) :=
  ⟨fun _ => rfl, fun _ => rfl, fun _ => rfl⟩

theorem steady_decay (decayRate : JsNumber) :
    Steady (.decay decayRate : LinkEntry Data → LinkEntry Data) :=
  ⟨fun _ => rfl, fun _ => rfl, fun _ => rfl⟩

theorem Indexed.change (indexed : Indexed found byTerm) {id change} (steady : Steady change) :
    Indexed (fun other => if other = id then (found other).map change else found other) byTerm where
  named := by
    intro other entry there
    split at there
    · obtain ⟨old, isOld, rfl⟩ := Option.map_eq_some_iff.mp there
      exact (steady.sameId old).trans (indexed.named isOld)
    · exact indexed.named there
  exact := by
    intro key other
    rw [indexed.exact]
    have sameEnds : ∀ entry, Touches (change entry) key ↔ Touches entry key := by
      intro entry
      unfold Touches
      rw [steady.sameSource, steady.sameTarget]
    by_cases same : other = id
    · simp only [if_pos same, Option.map_eq_some_iff]
      constructor
      · rintro ⟨entry, there, touches⟩
        exact ⟨_, ⟨entry, there, rfl⟩, (sameEnds entry).mpr touches⟩
      · rintro ⟨_, ⟨entry, there, rfl⟩, touches⟩
        exact ⟨entry, there, (sameEnds entry).mp touches⟩
    · simp only [if_neg same]
  noneEmpty := indexed.noneEmpty

/-- The links of a layer do not expire, and its index is that of its links. -/
structure Coherent (layer : Layer Data) : Prop where
  lasting : layer.links.neverExpires = true
  indexed : Indexed layer.find layer.byTerm

/-- What leads to a layer that is coherent and no larger, with the same settings. -/
structure Keeps (layer next : Layer Data) : Prop where
  capacity : next.capacity = layer.capacity
  options : next.links.options = layer.links.options
  size_le : next.links.size ≤ layer.links.size
  coherent : next.Coherent

theorem Keeps.refl (coherent : layer.Coherent) : Keeps layer layer :=
  ⟨rfl, rfl, le_refl _, coherent⟩

theorem Keeps.trans {last} (first : Keeps layer next) (second : Keeps next last) :
    Keeps layer last where
  capacity := second.capacity.trans first.capacity
  options := second.options.trans first.options
  size_le := second.size_le.trans first.size_le
  coherent := second.coherent

theorem Keeps.foldl {Item : Type} {step}
    (each : ∀ layer item, Coherent layer → Keeps layer (step layer item)) (items : List Item)
    (coherent : layer.Coherent) : Keeps layer (items.foldl step layer) := by
  induction items generalizing layer with
  | nil => exact .refl coherent
  | cons item rest ih =>
    have here := each layer item coherent
    exact here.trans (ih here.coherent)

theorem lasting_of_options (lasting : layer.links.neverExpires = true)
    (same : next.links.options = layer.links.options) : next.links.neverExpires = true := by
  unfold BoundedMap.neverExpires at lasting ⊢
  rwa [same]

/-! ### The operations on one link -/

theorem withLinks_of_reported {links : BoundedMap String (LinkEntry Data)}
    (silent : links.reported = layer.links.reported) :
    layer.withLinks links = { layer with links } := by
  unfold withLinks
  rw [silent, List.drop_length]
  rfl

@[simp] theorem withLinks_self (layer : Layer Data) : layer.withLinks layer.links = layer :=
  withLinks_of_reported rfl

theorem read_spec (coherent : layer.Coherent) (now : JsNumber) (id : String) :
    (layer.links.get now id).2 = layer.find id ∧
      Keeps layer (layer.withLinks (layer.links.get now id).1) ∧
      (layer.find id = none → layer.withLinks (layer.links.get now id).1 = layer) := by
  obtain ⟨found, after⟩ := BoundedMap.get_of_neverExpires coherent.lasting now id
  refine ⟨found, ?_⟩
  rcases after with same | ⟨entry, isThere, same⟩
  · rw [same, withLinks_self]
    exact ⟨.refl coherent, fun _ => rfl⟩
  · have silent : (layer.links.reinsert id entry).reported = layer.links.reported := rfl
    rw [same, withLinks_of_reported silent]
    have sameFind : find { layer with links := layer.links.reinsert id entry } = layer.find :=
      funext fun other => congrArg _ (BoundedMap.get_reinsert isThere other)
    refine ⟨⟨rfl, rfl, (BoundedMap.size_reinsert isThere).le, coherent.lasting, ?_⟩, ?_⟩
    · rw [sameFind]
      exact coherent.indexed
    · intro absent
      exact absurd (isThere.symm.trans (Option.map_eq_none_iff.mp absent)) (by simp)

theorem keeps_mutate (coherent : layer.Coherent) (id : String) {change} (steady : Steady change) :
    Keeps layer (layer.mutate id change) := by
  have sameOptions := layer.links.options_mutate id change
  refine ⟨rfl, sameOptions, (layer.links.size_mutate id change).le,
    lasting_of_options coherent.lasting sameOptions, ?_⟩
  have changed : (layer.mutate id change).find =
      fun other => if other = id then (layer.find other).map change else layer.find other :=
    funext fun other => layer.links.get_mutate id other change
  rw [changed]
  exact coherent.indexed.change steady

theorem keeps_purgeId (coherent : layer.Coherent) (now : JsNumber) (id : String) :
    Keeps layer (layer.purgeId now id).1 := by
  unfold purgeId
  rw [BoundedMap.peek_of_neverExpires coherent.lasting]
  simp only [withLinks_self]
  cases found : layer.links.entries.get id with
  | none => exact .refl coherent
  | some stored =>
    have there : layer.find id = some stored.value := congrArg _ found
    have sameId := coherent.indexed.named there
    refine ⟨rfl, rfl, OrderedMap.size_delete_le _ _, coherent.lasting, ?_⟩
    have gone : (layer.purge stored.value).find =
        fun other => if other = stored.value.id then none else layer.find other := by
      funext other
      show ((layer.links.entries.delete stored.value.id).get other).map _ = _
      rw [OrderedMap.get_delete]
      split <;> rfl
    show Indexed (layer.purge stored.value).find _
    rw [gone]
    exact coherent.indexed.forget (sameId.symm ▸ there)

/-! ### The operations that bring no link -/

section

variable (coherent : layer.Coherent)

include coherent

theorem keeps_removeAllLinksForTerm (now : JsNumber) (term : Term) :
    Keeps layer (layer.removeAllLinksForTerm now term) :=
  .foldl (fun _ id held => keeps_purgeId held now id) _ coherent

theorem keeps_decayAll (decayRate : JsNumber) (ids : List String) :
    Keeps layer (decayAll decayRate layer ids).1 := by
  induction ids generalizing layer with
  | nil => exact .refl coherent
  | cons id rest ih =>
    have here : Keeps layer (decayLink decayRate layer id).1 :=
      keeps_mutate coherent id (steady_decay decayRate)
    exact here.trans (ih here.coherent)

theorem keeps_applyDecay (now decayRate : JsNumber) :
    Keeps layer (layer.applyDecay now decayRate) := by
  have decayed := keeps_decayAll coherent decayRate (layer.links.entries.entries.map Prod.fst)
  exact decayed.trans (.foldl (fun _ id held => keeps_purgeId held now id) _ decayed.coherent)

theorem keeps_collect (now : JsNumber) (query : LinkQuery) (ids : List String) (limit : Option ℕ) :
    Keeps layer (layer.collect now query ids limit).1 := by
  induction ids generalizing layer limit with
  | nil => exact .refl coherent
  | cons id rest ih =>
    unfold collect
    split
    · exact .refl coherent
    · obtain ⟨_, reads, _⟩ := read_spec coherent now id
      simp only
      split
      · exact reads.trans (ih reads.coherent _)
      · split
        · exact reads.trans (ih reads.coherent _)
        · have touched := keeps_mutate reads.coherent id (steady_touch now)
          exact reads.trans (touched.trans (ih touched.coherent _))

theorem keeps_getLinksByTerm (now : JsNumber) (term : Term) (query : LinkQuery) :
    Keeps layer (layer.getLinksByTerm now term query).1 := by
  unfold getLinksByTerm
  split
  · exact .refl coherent
  · exact keeps_collect coherent now query _ _

end

/-! ### A new link -/

theorem indexed_addNew (coherent : layer.Coherent) (now draw : JsNumber)
    (free : layer.find entry.id = none) :
    Indexed
      (fun id => ((layer.links.set now draw entry.id entry).entries.get id).map (·.value))
      (refer (layer.withLinks (layer.links.set now draw entry.id entry)).byTerm entry) := by
  have absent : layer.links.entries.get entry.id = none := Option.map_eq_none_iff.mp free
  have after :
      (fun id => ((layer.links.set now draw entry.id entry).entries.get id).map (·.value)) =
        fun id => if id = entry.id then some entry
          else ((layer.links.makeRoom draw entry.id).entries.get id).map (·.value) :=
    funext fun id => BoundedMap.get_set layer.links now draw entry.id id entry
  have silent : (layer.links.set now draw entry.id entry).reported =
      (layer.links.makeRoom draw entry.id).reported := rfl
  rw [after]
  rcases layer.links.makeRoom_cases draw entry.id with
    ⟨_, there, _⟩ | ⟨victim, stored, _, _, _, found, same⟩ | ⟨_, same, _⟩
  · cases absent.symm.trans there
  · have isVictim : layer.find victim = some stored.value := congrArg _ found
    have sameId := coherent.indexed.named isVictim
    have forgotten : (layer.withLinks (layer.links.set now draw entry.id entry)).byTerm =
        forget layer.byTerm stored.value := by
      unfold withLinks
      rw [silent, same, BoundedMap.reported_evict, found, List.drop_left]
      rfl
    have left : (fun id => ((layer.links.makeRoom draw entry.id).entries.get id).map (·.value)) =
        fun id => if id = stored.value.id then none else layer.find id := by
      funext id
      rw [same, BoundedMap.get_evict, sameId]
      split <;> rfl
    rw [forgotten]
    have indexed := coherent.indexed.forget (sameId.symm ▸ isVictim)
    rw [← left] at indexed
    refine indexed.refer ?_
    rw [BoundedMap.get_makeRoom_self]
    rfl
  · have kept : (layer.withLinks (layer.links.set now draw entry.id entry)).byTerm =
        layer.byTerm := by
      rw [withLinks_of_reported (silent.trans (congrArg _ same))]
    rw [kept, same]
    exact coherent.indexed.refer free

end Layer

/-! ### Runs -/

/-- The operations of a layer. -/
inductive LinkCall (Data : Type) where
  | addLink (input : LinkInput Data)
  | removeLink (source target : Term) (type : LinkType)
  | removeAllLinksForTerm (term : Term)
  | applyDecay (decayRate : JsNumber)
  | getLinksByTerm (term : Term) (query : LinkQuery)

/-- A call, with what the clock and the source of randomness answer during it. -/
structure LinkEvent (Data : Type) where
  call : LinkCall Data
  now : JsNumber
  draw : JsNumber

namespace Layer

variable {Data : Type} {layer next : Layer Data} {capacity : ℕ} {policy : LinkForgetPolicy}

def apply (layer : Layer Data) (event : LinkEvent Data) : Layer Data :=
  match event.call with
  | .addLink input => (layer.addLink event.now event.draw input).1
  | .removeLink source target type => (layer.removeLink event.now source target type).1
  | .removeAllLinksForTerm term => layer.removeAllLinksForTerm event.now term
  | .applyDecay decayRate => layer.applyDecay event.now decayRate
  | .getLinksByTerm term query => (layer.getLinksByTerm event.now term query).1

/-- A layer as a machine. -/
def machine : Machine (Layer Data) (LinkEvent Data) := fun layer event => some (layer.apply event)

/-- A new link at a full layer finds a link to evict. -/
def FindsVictim (layer : Layer Data) (event : LinkEvent Data) : Prop :=
  match event.call with
  | .addLink input =>
    1 ≤ layer.capacity → layer.find (linkId input.sourceTerm input.targetTerm input.type) = none →
      layer.capacity ≤ layer.links.size →
        BoundedMap.HasVictim layer.links.options.eviction event.draw layer.links.values
  | _ => True

/-- The layer has its settings and is coherent. -/
structure Formed (capacity : ℕ) (policy : LinkForgetPolicy) (layer : Layer Data) : Prop where
  sameCapacity : layer.capacity = capacity
  sameOptions : layer.links.options = { maxSize := capacity, eviction := linkEvictionOrder policy }
  coherent : layer.Coherent

theorem formed_new : Formed capacity policy (new capacity policy : Layer Data) where
  sameCapacity := rfl
  sameOptions := rfl
  coherent := by
    refine ⟨rfl, ?_, ?_, ?_⟩
    · intro id entry found
      cases found
    · intro key id
      constructor
      · rintro ⟨_, there, _⟩
        cases there
      · rintro ⟨_, there, _⟩
        cases there
    · intro key bucket found
      cases found

theorem Formed.keeps (formed : Formed capacity policy layer) (keeps : Keeps layer next) :
    Formed capacity policy next where
  sameCapacity := keeps.capacity.trans formed.sameCapacity
  sameOptions := keeps.options.trans formed.sameOptions
  coherent := keeps.coherent

theorem addLink_spec (formed : Formed capacity policy layer) (now draw : JsNumber)
    (input : LinkInput Data) :
    Formed capacity policy (layer.addLink now draw input).1 ∧
      (layer.links.size ≤ capacity →
        (layer.FindsVictim ⟨.addLink input, now, draw⟩ ↔
          (layer.addLink now draw input).1.links.size ≤ capacity)) := by
  obtain ⟨found, reads, untouched⟩ := read_spec formed.coherent now
    (linkId input.sourceTerm input.targetTerm input.type)
  unfold addLink FindsVictim
  simp only [formed.sameCapacity, found]
  by_cases without : capacity < 1
  · rw [if_pos without]
    refine ⟨formed, fun bounded => iff_of_true ?_ bounded⟩
    omega
  rw [if_neg without]
  cases existing : layer.find (linkId input.sourceTerm input.targetTerm input.type) with
  | some entry =>
    have updated := reads.trans (keeps_mutate reads.coherent
      (linkId input.sourceTerm input.targetTerm input.type) (steady_update now input))
    exact ⟨formed.keeps updated, fun bounded =>
      iff_of_true (fun _ absent => by cases absent) (updated.size_le.trans bounded)⟩
  | none =>
    have absent := Option.map_eq_none_iff.mp existing
    have sameBound : layer.links.maxSize = capacity := by
      unfold BoundedMap.maxSize
      rw [formed.sameOptions]
      exact Nat.max_eq_right (Nat.not_lt.mp without)
    let entry : LinkEntry Data := { input with
      id := linkId input.sourceTerm input.targetTerm input.type
      createdAt := now, lastAccessedAt := now }
    have free : layer.find entry.id = none := existing
    rw [untouched existing]
    refine ⟨⟨formed.sameCapacity, ?_, lasting_of_options formed.coherent.lasting ?_, ?_⟩, ?_⟩
    · exact (layer.links.options_makeRoom draw _).trans formed.sameOptions
    · exact layer.links.options_makeRoom draw _
    · exact indexed_addNew formed.coherent now draw free
    · intro bounded
      show _ ↔ (layer.links.set now draw _ _).size ≤ capacity
      rw [BoundedMap.size_set, ← sameBound,
        BoundedMap.size_makeRoom_lt_iff (bounded.trans sameBound.ge)]
      simp [absent, sameBound, Nat.not_lt.mp without]

theorem keeps_apply (formed : Formed capacity policy layer) (event : LinkEvent Data)
    (bringsNone : ∀ input, event.call ≠ .addLink input) : Keeps layer (layer.apply event) := by
  obtain ⟨call, now, draw⟩ := event
  cases call with
  | addLink input => exact absurd rfl (bringsNone input)
  | removeLink source target type => exact keeps_purgeId formed.coherent now _
  | removeAllLinksForTerm term => exact keeps_removeAllLinksForTerm formed.coherent now term
  | applyDecay decayRate => exact keeps_applyDecay formed.coherent now decayRate
  | getLinksByTerm term query => exact keeps_getLinksByTerm formed.coherent now term query

theorem apply_spec (formed : Formed capacity policy layer) (event : LinkEvent Data) :
    Formed capacity policy (layer.apply event) ∧
      (layer.links.size ≤ capacity →
        (layer.FindsVictim event ↔ (layer.apply event).links.size ≤ capacity)) := by
  by_cases brings : ∃ input, event.call = .addLink input
  · obtain ⟨call, now, draw⟩ := event
    obtain ⟨input, rfl⟩ := brings
    exact addLink_spec formed now draw input
  · have keeps := keeps_apply formed event fun input same => brings ⟨input, same⟩
    refine ⟨formed.keeps keeps, fun bounded => iff_of_true ?_ (keeps.size_le.trans bounded)⟩
    unfold FindsVictim
    split
    · rename_i input same
      exact absurd ⟨input, same⟩ brings
    · trivial

/-- In every run of a new layer, its index is exact in each state, and its links are never more than
its capacity exactly where each new link at the full layer finds a link to evict. -/
theorem indexed_and_bounded_iff {last : Layer Data} {events : List (LinkEvent Data)}
    (run : Run machine (new capacity policy) events last) :
    (∀ reached, Run.Passes machine (new capacity policy) events reached →
        Indexed reached.find reached.byTerm ∧ reached.links.size ≤ capacity) ↔
      Run.Meets machine FindsVictim (new capacity policy) events := by
  have keeps : ∀ (layer : Layer Data) event next, Formed capacity policy layer →
      machine layer event = some next → Formed capacity policy next := by
    intro layer event next formed taken
    cases Option.some.inj taken
    exact (apply_spec formed event).1
  have agree : ∀ (layer : Layer Data) event next, Formed capacity policy layer →
      layer.links.size ≤ capacity → machine layer event = some next →
        (layer.FindsVictim event ↔ next.links.size ≤ capacity) := by
    intro layer event next formed bounded taken
    cases Option.some.inj taken
    exact (apply_spec formed event).2 bounded
  rw [Run.meets_iff_passes_of_keeps agree
    (fun layer event next formed _ taken => keeps layer event next formed taken) run formed_new
    (Nat.zero_le _)]
  refine forall_congr' fun reached => forall_congr' fun passed => ?_
  obtain ⟨_, _, _, toReached⟩ := passed
  exact and_iff_right (toReached.keeps keeps formed_new).coherent.indexed

/-- Two links whose priorities are not numbers, in a layer for one. -/
theorem grows_of_nan_priorities :
    ∃ last, Run machine (new 1 : Layer Unit)
      [⟨.addLink { sourceTerm := .atom "a", targetTerm := .atom "b", priority := .nan }, 0, 0⟩,
        ⟨.addLink { sourceTerm := .atom "a", targetTerm := .atom "c", priority := .nan }, 0, 0⟩]
      last ∧ 1 < last.links.size := by
  refine ⟨_, run_of_execute rfl, ?_⟩
  decide

theorem indexed_and_bounded_iff_fifo :
    (∃ last, Run machine (new 1 .fifo : Layer Unit)
      [⟨.addLink { sourceTerm := .atom "a", targetTerm := .atom "a" }, 0, 0⟩,
        ⟨.addLink { sourceTerm := .atom "a", targetTerm := .atom "c" }, 0, 0⟩] last) ∧
      ∀ reached, Run.Passes machine (new 1 .fifo : Layer Unit)
        [⟨.addLink { sourceTerm := .atom "a", targetTerm := .atom "a" }, 0, 0⟩,
          ⟨.addLink { sourceTerm := .atom "a", targetTerm := .atom "c" }, 0, 0⟩] reached →
        Indexed reached.find reached.byTerm ∧ reached.links.size ≤ 1 :=
  ⟨⟨_, run_of_execute rfl⟩, (indexed_and_bounded_iff (run_of_execute rfl)).mpr <|
    .cons (fun _ _ _ => trivial) rfl <| .cons (fun _ _ _ => trivial) rfl <| .nil _⟩

end Layer

end Senars.Links
