/-
This file is the test that two stamps rest on common evidence. The test looks for an
identifier the first stamp is derived from in the lineage of the second, and for the first
stamp itself only where it is the second: it misses that the second is derived from the
first, unless the first is derived from something too.
-/

import Senars.Library.Runs
import Senars.Terms.Stamp

namespace Senars.Terms

open Library

namespace Stamp

/-- Everything a stamp rests on, with the stamp itself last. -/
def lineage (stamp : Stamp) : List String := stamp.derivations ++ [stamp.id]

def overlaps (a b : Stamp) : Bool :=
  if a.id = b.id then true
  else a.derivations.any fun id => decide (id ∈ b.derivations ++ [b.id])

/-- The lineages of two stamps have an identifier in common. -/
def Share (a b : Stamp) : Prop := ∃ id, id ∈ a.lineage ∧ id ∈ b.lineage

/-- A stamp is named in what another is derived from, and nothing it is derived from itself is in
the lineage of the other. -/
def Missed (a b : Stamp) : Prop :=
  a.id ≠ b.id ∧ a.id ∈ b.derivations ∧ ∀ id ∈ a.derivations, id ∉ b.lineage

theorem mem_lineage {stamp : Stamp} {id} :
    id ∈ stamp.lineage ↔ id ∈ stamp.derivations ∨ id = stamp.id := by
  simp [lineage]

theorem overlaps_iff (a b : Stamp) :
    overlaps a b = true ↔ a.id = b.id ∨ ∃ id ∈ a.derivations, id ∈ b.lineage := by
  unfold overlaps lineage
  split
  · next same => simp [same]
  · next different => simp [different]

theorem share_iff (a b : Stamp) : Share a b ↔ overlaps a b = true ∨ Missed a b := by
  rw [overlaps_iff]
  constructor
  · rintro ⟨id, inFirst, inSecond⟩
    by_cases found : a.id = b.id ∨ ∃ id ∈ a.derivations, id ∈ b.lineage
    · exact .inl found
    · push Not at found
      obtain ⟨different, none⟩ := found
      rcases mem_lineage.mp inFirst with derived | rfl
      · exact absurd inSecond (none id derived)
      · exact .inr ⟨different, (mem_lineage.mp inSecond).resolve_right different, none⟩
  · rintro ((same | ⟨id, derived, inSecond⟩) | ⟨_, derived, _⟩)
    · exact ⟨a.id, mem_lineage.mpr (.inr rfl), mem_lineage.mpr (.inr same)⟩
    · exact ⟨id, mem_lineage.mpr (.inl derived), inSecond⟩
    · exact ⟨a.id, mem_lineage.mpr (.inr rfl), mem_lineage.mpr (.inl derived)⟩

theorem overlaps_iff_share_iff (a b : Stamp) :
    (overlaps a b = true ↔ Share a b) ↔ ¬ Missed a b := by
  rw [share_iff, iff_self_or]
  constructor
  · intro finds missed
    rcases (overlaps_iff a b).mp (finds missed) with same | ⟨id, derived, inSecond⟩
    · exact missed.1 same
    · exact missed.2.2 id derived inSecond
  · intro notMissed missed
    exact absurd missed notMissed

end Stamp

/-! ### Minting -/

/-- How a stamp comes about. The identifier is the one that is given or minted for it. -/
inductive StampEvent where
  | createInput (id : String)
  | derive (parentStamps : List Stamp) (id : String)
  deriving DecidableEq

/-- The stamps there are after another one is made, which is derived from stamps there are. -/
def mintStamp : Machine (List Stamp) StampEvent
  | stamps, .createInput id => some (stamps ++ [Stamp.createInput id])
  | stamps, .derive parentStamps id =>
    if ∀ parent ∈ parentStamps, parent ∈ stamps then
      some (stamps ++ (Stamp.derive parentStamps id).toList)
    else none

/-- What a stamp is derived from has been made before it, and a stamp it is derived from has given
it all of its own lineage. -/
def ClosedUnder (before : List Stamp) (stamp : Stamp) : Prop :=
  ∀ id ∈ stamp.derivations, ∃ ancestor ∈ before, ancestor.id = id ∧
    ancestor.derivations ⊆ stamp.derivations

/-- Each stamp is derived from stamps that come before it. -/
def Closed (stamps : List Stamp) : Prop :=
  ∀ before stamp after, stamps = before ++ stamp :: after → ClosedUnder before stamp

variable {stamps : List Stamp}

theorem Closed.append {stamp} (closed : Closed stamps) (under : ClosedUnder stamps stamp) :
    Closed (stamps ++ [stamp]) := by
  intro before other after split
  rcases List.eq_nil_or_concat after with rfl | ⟨rest, last, rfl⟩
  · obtain ⟨rfl, same⟩ := List.append_inj' split rfl
    cases List.singleton_injective same
    exact under
  · rw [List.concat_eq_append, ← List.cons_append, ← List.append_assoc] at split
    exact closed before other rest (List.append_inj' split rfl).1

theorem Closed.of_mem {stamp} (closed : Closed stamps) (member : stamp ∈ stamps) :
    ClosedUnder stamps stamp := by
  obtain ⟨before, after, rfl⟩ := List.mem_iff_append.mp member
  intro id derived
  obtain ⟨ancestor, made, named, passed⟩ := closed before stamp after rfl id derived
  exact ⟨ancestor, List.mem_append_left _ made, named, passed⟩

theorem closedUnder_derive {parentStamps id derived} (closed : Closed stamps)
    (parents : ∀ parent ∈ parentStamps, parent ∈ stamps)
    (done : Stamp.derive parentStamps id = some derived) : ClosedUnder stamps derived := by
  unfold Stamp.derive at done
  split at done
  · cases done
  cases done
  have mem_derivations : ∀ name, name ∈ uniqueBy (fun name => name)
      (parentStamps.flatMap fun parent => parent.derivations ++ [parent.id]) ↔
      ∃ parent ∈ parentStamps, name ∈ parent.derivations ∨ name = parent.id := by
    intro name
    exact mem_uniqueBy_id.trans (by simp [List.mem_flatMap])
  intro name listed
  obtain ⟨parent, isParent, below⟩ := (mem_derivations name).mp listed
  have made := parents parent isParent
  rcases below with further | rfl
  · obtain ⟨ancestor, known, named, passed⟩ := closed.of_mem made name further
    exact ⟨ancestor, known, named, fun other ofAncestor =>
      (mem_derivations other).mpr ⟨parent, isParent, .inl (passed ofAncestor)⟩⟩
  · exact ⟨parent, made, rfl, fun other ofParent =>
      (mem_derivations other).mpr ⟨parent, isParent, .inl ofParent⟩⟩

theorem Closed.mintStamp {stamps next event} (closed : Closed stamps)
    (taken : mintStamp stamps event = some next) : Closed next := by
  cases event with
  | createInput id =>
    cases taken
    refine closed.append ?_
    rintro name ⟨⟩
  | derive parentStamps id =>
    simp only [Terms.mintStamp] at taken
    split at taken
    · next parents =>
      cases taken
      cases done : Stamp.derive parentStamps id with
      | none => rwa [Option.toList_none, List.append_nil]
      | some derived => exact closed.append (closedUnder_derive closed parents done)
    · cases taken

theorem closed_of_run {events} (run : Run mintStamp [] events stamps) : Closed stamps := by
  have keeps : ∀ state event next, Closed state → mintStamp state event = some next →
      Closed next := fun _ _ _ closed taken => closed.mintStamp taken
  refine run.keeps keeps ?_
  rintro (_ | ⟨_, _⟩) stamp after split <;> cases split

theorem Closed.missed_iff {a b} (closed : Closed stamps) (distinct : (stamps.map Stamp.id).Nodup)
    (first : a ∈ stamps) (second : b ∈ stamps) :
    Stamp.Missed a b ↔ a.derivations = [] ∧ a.id ∈ b.derivations := by
  constructor
  · rintro ⟨_, named, apart⟩
    refine ⟨List.eq_nil_iff_forall_not_mem.mpr fun id derived => ?_, named⟩
    obtain ⟨ancestor, made, sameName, passed⟩ := closed.of_mem second a.id named
    cases List.inj_on_of_nodup_map distinct made first sameName
    exact apart id derived (Stamp.mem_lineage.mpr (.inl (passed derived)))
  · rintro ⟨alone, named⟩
    refine ⟨?_, named, fun id derived => by rw [alone] at derived; cases derived⟩
    obtain ⟨before, after, rfl⟩ := List.mem_iff_append.mp second
    obtain ⟨ancestor, made, sameName, _⟩ := closed before b after rfl a.id named
    intro sameAsSecond
    rw [List.map_append] at distinct
    exact (List.nodup_append.mp distinct).2.2 _ (List.mem_map_of_mem made) _ List.mem_cons_self
      (sameName.trans sameAsSecond)

/-- The test finds exactly the stamps that rest on common evidence, unless the first is missed in
the second. Where no identifier is made twice these are the stamps that are derived from nothing
and the stamps derived from them. -/
theorem overlapsExactly_iff {stamps : List Stamp} {events : List StampEvent} {a b : Stamp}
    (run : Run mintStamp [] events stamps) (first : a ∈ stamps) (second : b ∈ stamps) :
    ((Stamp.overlaps a b = true ↔ Stamp.Share a b) ↔ ¬ Stamp.Missed a b) ∧
      ((stamps.map Stamp.id).Nodup →
        ((Stamp.overlaps a b = true ↔ Stamp.Share a b) ↔
          ¬ (a.derivations = [] ∧ a.id ∈ b.derivations))) := by
  have exactly := Stamp.overlaps_iff_share_iff a b
  refine ⟨exactly, fun distinct => ?_⟩
  rw [exactly, (closed_of_run run).missed_iff distinct first second]

/-- An input and what is derived from it. -/
def parentAndChild : List StampEvent :=
  [.createInput "0:0", .derive [⟨"0:0", []⟩] "0:1"]

theorem overlapsExactly_parentAndChild :
    (Stamp.overlaps ⟨"0:1", ["0:0"]⟩ ⟨"0:0", []⟩ = true ↔
      Stamp.Share ⟨"0:1", ["0:0"]⟩ ⟨"0:0", []⟩) := by
  have canRun : execute mintStamp [] parentAndChild =
      some [⟨"0:0", []⟩, ⟨"0:1", ["0:0"]⟩] := by decide +kernel
  refine (overlapsExactly_iff (run_of_execute canRun) (List.mem_cons_of_mem _
    List.mem_cons_self) List.mem_cons_self).1.mpr ?_
  rintro ⟨_, ⟨⟩, _⟩

theorem overlaps_misses_child :
    ¬ ∀ (events : List StampEvent) (stamps : List Stamp), Run mintStamp [] events stamps →
      ∀ a ∈ stamps, ∀ b ∈ stamps, (Stamp.overlaps a b = true ↔ Stamp.Share a b) := by
  intro exact
  have canRun : execute mintStamp [] parentAndChild =
      some [⟨"0:0", []⟩, ⟨"0:1", ["0:0"]⟩] := by decide +kernel
  have shared : Stamp.Share ⟨"0:0", []⟩ ⟨"0:1", ["0:0"]⟩ :=
    ⟨"0:0", List.mem_cons_self, List.mem_cons_self⟩
  have found := (exact parentAndChild _ (run_of_execute canRun) _ List.mem_cons_self _
    (List.mem_cons_of_mem _ List.mem_cons_self)).mpr shared
  exact absurd found (by decide)

end Senars.Terms
