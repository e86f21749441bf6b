/-
This file determines which calls are read back from their operation terms.

An argument whose key is the symbol of its value is read as two arguments named by
their places, so it is lost unless its key happens to be one of the two names and
another argument makes up for the other one. An argument named `__proto__` is never
read back. Every other argument is, if its value is read back from its symbol.

The proof follows the writes: every argument is written back under its key or under two
place names, and what a record holds at a key is the last write to it.
-/

import Senars.Terms.NormalForm
import Senars.Terms.OperationValues

namespace Senars.Terms

open Library

/-! ### What an operation term holds -/

/-- An argument with its place among the arguments of the term. -/
structure PlacedArg where
  place : Nat
  key : String
  value : ArgValue

/-- An argument whose key is the symbol of its value. -/
def PlacedArg.SelfNamed (arg : PlacedArg) : Prop := valueSymbol arg.value = arg.key

instance (arg : PlacedArg) : Decidable arg.SelfNamed :=
  inferInstanceAs (Decidable (valueSymbol arg.value = arg.key))

/-- The arguments of the term an argument becomes. -/
def PlacedArg.parts (arg : PlacedArg) : List Term :=
  if arg.SelfNamed then [.atom arg.key, .atom arg.key]
  else [.compound .inheritance [.atom (valueSymbol arg.value), .atom arg.key]]

/-- The writes an argument is read back as. -/
def PlacedArg.writes (arg : PlacedArg) : List (String × ArgValue) :=
  if arg.SelfNamed then
    [(placeName arg.place, atomValue arg.key), (placeName (arg.place + 1), atomValue arg.key)]
  else [(arg.key, atomValue (valueSymbol arg.value))]

/-- The arguments of a record with their places, from a place on. -/
def placedFrom : Nat → List (String × ArgValue) → List PlacedArg
  | _, [] => []
  | place, (key, value) :: rest =>
    ⟨place, key, value⟩ ::
      placedFrom (place + if (⟨place, key, value⟩ : PlacedArg).SelfNamed then 2 else 1) rest

/-- The arguments of a record with their places. -/
def placedArgs (args : ArgRecord) : List PlacedArg := placedFrom 0 args.entries

theorem mapIdx_argEntry (place : Nat) (entries : List (String × ArgValue)) :
    (((placedFrom place entries).flatMap PlacedArg.parts).mapIdx
        fun index => argEntry (index + place)) =
      (placedFrom place entries).flatMap PlacedArg.writes := by
  induction entries generalizing place with
  | nil => rfl
  | cons entry rest ih =>
    obtain ⟨key, value⟩ := entry
    rw [placedFrom, List.flatMap_cons, List.flatMap_cons, List.mapIdx_append,
      ← ih]
    by_cases same : (⟨place, key, value⟩ : PlacedArg).SelfNamed
    · rw [PlacedArg.parts, PlacedArg.writes, if_pos same, if_pos same, if_pos same]
      simp [argEntry, termValue, Nat.add_comm, Nat.add_left_comm]
    · rw [PlacedArg.parts, PlacedArg.writes, if_neg same, if_neg same, if_neg same]
      simp [argEntry, termValue, Nat.add_comm, Nat.add_left_comm]

section Encoding

variable {collator : Collator}

/-- The term one argument becomes. -/
def argTermOf (key : String) (value : ArgValue) : Term :=
  if valueSymbol value = key then .compound .product [.atom key, .atom key]
  else .compound .inheritance [.atom (valueSymbol value), .atom key]

theorem canonical_atoms {kind} (pair : kind = .inheritance ∨ kind = .product)
    (first second : String) :
    Canonical termKey collator (.compound kind [.atom first, .atom second]) := by
  refine .compound kind _ ?_ ?_ ?_
  · intro arg member
    simp only [List.mem_cons, List.not_mem_nil, or_false] at member
    rcases member with rfl | rfl <;> exact .atom _
  · rcases pair with rfl | rfl <;> rfl
  · intro reducer member
    simp only [termReducers, List.mem_cons, List.not_mem_nil, or_false] at member
    rcases pair with rfl | rfl <;>
      rcases member with rfl | rfl | rfl | rfl | rfl | rfl | rfl | rfl | rfl | rfl | rfl <;> rfl

theorem argTerm_eq {key value} (valid : isValidAtomSymbol key = true)
    (argument : IsArgument value) : argTerm collator key value = .ok (argTermOf key value) := by
  have written : atomOf (writtenSymbol (valueString value)) = .ok (.atom (valueSymbol value)) :=
    atomOf_of_valid (isValidAtomSymbol_valueSymbol argument)
  have named : atomOf (writtenSymbol key) = .ok (.atom key) := by
    rw [writtenSymbol_of_valid valid, atomOf_of_valid valid]
  have contains : ∀ first second : String,
      containsSubterm (.atom first) (.atom second) = decide (second = first) := by
    intro first second
    simp only [containsSubterm, visited, List.map_cons, List.map_nil, termKey,
      List.contains_eq_mem, List.mem_singleton, String.append_right_inj]
  unfold argTerm inheritanceOf argTermOf
  simp only [written, named, bind, Except.bind, contains]
  by_cases same : valueSymbol value = key
  · rw [same]
    simp [(canonical_atoms (Or.inr rfl) key key).createCompound_eq]
  · simp [same, Ne.symm same, Except.map,
      (canonical_atoms (Or.inl rfl) (valueSymbol value) key).createCompound_eq]

theorem operationTerm_eq {name args} (valid : isValidAtomSymbol name = true)
    (each : ∀ entry ∈ args.entries, isValidAtomSymbol entry.1 = true ∧ IsArgument entry.2) :
    operationTerm collator name args =
      .ok (.compound .operation
        [.atom name, .compound .product ((placedArgs args).flatMap PlacedArg.parts)]) := by
  have argTerms : (args.entries.mapM fun entry => argTerm collator entry.1 entry.2) =
      .ok (args.entries.map fun entry => argTermOf entry.1 entry.2) := by
    have step : ∀ entry ∈ args.entries, argTerm collator entry.1 entry.2 =
        .ok (argTermOf entry.1 entry.2) := fun entry member =>
      argTerm_eq (each entry member).1 (each entry member).2
    generalize args.entries = entries at step
    induction entries with
    | nil => rfl
    | cons entry rest ih =>
      rw [List.mapM_cons, step entry List.mem_cons_self,
        ih fun other member => step other (List.mem_cons_of_mem _ member)]
      rfl
  have canonical : ∀ arg ∈ args.entries.map fun entry => argTermOf entry.1 entry.2,
      Canonical termKey collator arg := by
    intro arg member
    obtain ⟨entry, -, rfl⟩ := List.mem_map.mp member
    unfold argTermOf
    split
    · exact canonical_atoms (Or.inr rfl) _ _
    · exact canonical_atoms (Or.inl rfl) _ _
  have parts : ∀ place : Nat, ∀ entries : List (String × ArgValue),
      spliced .product (entries.map fun entry => argTermOf entry.1 entry.2) =
        (placedFrom place entries).flatMap PlacedArg.parts := by
    intro place entries
    induction entries generalizing place with
    | nil => rfl
    | cons entry rest ih =>
      obtain ⟨key, value⟩ := entry
      rw [List.map_cons, spliced, List.flatMap_cons, ← spliced, placedFrom, List.flatMap_cons,
        ← ih]
      by_cases same : (⟨place, key, value⟩ : PlacedArg).SelfNamed
      · have equal : valueSymbol value = key := same
        rw [PlacedArg.parts, if_pos same, argTermOf, if_pos equal]
        rfl
      · have different : valueSymbol value ≠ key := same
        rw [PlacedArg.parts, if_neg same, argTermOf, if_neg different]
        rfl
  have product := createCompound_product canonical
  rw [parts 0] at product
  have whole : Canonical termKey collator
      (.compound .operation [.atom name, .compound .product
        ((placedArgs args).flatMap PlacedArg.parts)]) := by
    refine .compound .operation _ ?_ rfl ?_
    · intro arg member
      simp only [List.mem_cons, List.not_mem_nil, or_false] at member
      rcases member with rfl | rfl
      · exact .atom _
      · exact createCompound_canonical product
    · intro reducer member
      simp only [termReducers, List.mem_cons, List.not_mem_nil, or_false] at member
      rcases member with rfl | rfl | rfl | rfl | rfl | rfl | rfl | rfl | rfl | rfl | rfl <;> rfl
  unfold operationTerm
  rw [argTerms, writtenSymbol_of_valid valid, atomOf_of_valid valid]
  simp only [bind, Except.bind, product]
  exact whole.createCompound_eq

end Encoding

theorem readOperationTerm_eq (name : String) (args : ArgRecord) :
    readOperationTerm (.compound .operation
        [.atom name, .compound .product ((placedArgs args).flatMap PlacedArg.parts)]) =
      some { name := name, args := mapToRecord ((placedArgs args).flatMap PlacedArg.writes) } := by
  have entries : argEntriesOf (some (.compound .product
      ((placedArgs args).flatMap PlacedArg.parts))) =
        (placedArgs args).flatMap PlacedArg.writes := by
    have indexed := mapIdx_argEntry 0 args.entries
    unfold argEntriesOf
    dsimp only
    split
    · rename_i noArguments
      have empty := (Term.compound.inj (of_decide_eq_true noArguments)).2
      unfold placedArgs at empty ⊢
      rw [empty] at indexed
      exact indexed
    · exact indexed
  simp only [readOperationTerm, operationNameOf, Option.map_some, getArgs_compound,
    List.getElem?_cons_succ, List.getElem?_cons_zero, entries]


/-! ### The last write to a key -/

theorem get_assign (record : ArgRecord) (entry : String × ArgValue) (key : String) :
    (assign record entry).get key =
      if key = entry.1 ∧ key ≠ "__proto__" then some entry.2 else record.get key := by
  unfold assign
  by_cases proto : entry.1 = "__proto__"
  · rw [if_pos proto, if_neg fun both => both.2 (both.1.trans proto)]
  · rw [if_neg proto, OrderedMap.get_set]
    by_cases same : key = entry.1
    · rw [if_pos same, if_pos ⟨same, same ▸ proto⟩]
    · rw [if_neg same, if_neg fun both => same both.1]

variable {key : String} {arg : PlacedArg} {value : ArgValue} {entries : List (String × ArgValue)}

theorem get_foldl_assign (nodup : (entries.map Prod.fst).Nodup) (record : ArgRecord) :
    (entries.foldl assign record).get key = some value ↔
      key ≠ "__proto__" ∧ (key, value) ∈ entries ∨
        (key = "__proto__" ∨ key ∉ entries.map Prod.fst) ∧ record.get key = some value := by
  induction entries generalizing record with
  | nil => simp
  | cons entry rest ih =>
    obtain ⟨other, written⟩ := entry
    rw [List.map_cons, List.nodup_cons] at nodup
    rw [List.foldl_cons, ih nodup.2, get_assign]
    by_cases proto : key = "__proto__"
    · simp [proto]
    by_cases same : key = other
    · subst same
      have absent : (key, value) ∉ rest := fun member =>
        nodup.1 (List.mem_map.mpr ⟨(key, value), member, rfl⟩)
      simp [proto, absent, nodup.1, eq_comm]
    · simp [proto, same]

theorem isSome_foldl_assign {record} (notProto : key ≠ "__proto__")
    (written : (record.get key).isSome = true ∨ key ∈ entries.map Prod.fst) :
    ((entries.foldl assign record).get key).isSome = true := by
  induction entries generalizing record with
  | nil => exact written.resolve_right (by simp)
  | cons entry rest ih =>
    refine ih ?_
    rw [get_assign]
    by_cases here : key = entry.1
    · rw [if_pos ⟨here, notProto⟩]
      exact Or.inl rfl
    · rw [if_neg fun both => here both.1]
      exact written.imp id fun member => (List.mem_cons.mp member).resolve_left here

theorem PlacedArg.nodup_writes (arg : PlacedArg) : (arg.writes.map Prod.fst).Nodup := by
  unfold PlacedArg.writes
  split
  · have apart : placeName arg.place ≠ placeName (arg.place + 1) := fun same =>
      absurd (placeName_injective same) (by omega)
    simp [apart]
  · simp

theorem get_mapToRecord_iff {args : List PlacedArg}
    (increasing : args.Pairwise fun arg later => arg.place < later.place) :
    (mapToRecord (args.flatMap PlacedArg.writes)).get key = some value ↔
      key ≠ "__proto__" ∧ ∃ arg ∈ args, (key, value) ∈ arg.writes ∧
        ∀ later ∈ args, arg.place < later.place → key ∉ later.writes.map Prod.fst := by
  induction args using List.reverseRecOn with
  | nil =>
    have empty : (mapToRecord []).get key = none := rfl
    simp [empty]
  | append_singleton args last ih =>
    rw [List.pairwise_append] at increasing
    obtain ⟨before, -, below⟩ := increasing
    have beforeLast : ∀ arg ∈ args, arg.place < last.place := fun arg member =>
      below arg member last List.mem_cons_self
    have split : mapToRecord ((args ++ [last]).flatMap PlacedArg.writes) =
        last.writes.foldl assign (mapToRecord (args.flatMap PlacedArg.writes)) := by
      rw [List.flatMap_append, List.flatMap_singleton, mapToRecord, List.foldl_append,
        ← mapToRecord]
    rw [split, get_foldl_assign last.nodup_writes, ih before]
    constructor
    · rintro (⟨notProto, member⟩ | ⟨unwritten, notProto, arg, member, writes, unchanged⟩)
      · refine ⟨notProto, last, by simp, member, fun later laterMember after => ?_⟩
        rcases List.mem_append.mp laterMember with early | only
        · exact absurd (beforeLast later early) (by omega)
        · rw [List.mem_singleton.mp only] at after
          exact absurd after (lt_irrefl _)
      · refine ⟨notProto, arg, List.mem_append_left _ member, writes,
          fun later laterMember after => ?_⟩
        rcases List.mem_append.mp laterMember with early | only
        · exact unchanged later early after
        · rw [List.mem_singleton.mp only]
          exact unwritten.resolve_left notProto
    · rintro ⟨notProto, arg, member, writes, unchanged⟩
      rcases List.mem_append.mp member with early | only
      · refine Or.inr ⟨Or.inr (unchanged last (by simp) (beforeLast arg early)), notProto, arg,
          early, writes, fun later laterMember after =>
            unchanged later (List.mem_append_left _ laterMember) after⟩
      · rw [List.mem_singleton.mp only] at writes
        exact Or.inl ⟨notProto, writes⟩

/-! ### The places of the arguments -/

/-- The place after an argument. -/
def PlacedArg.next (arg : PlacedArg) : Nat := arg.place + if arg.SelfNamed then 2 else 1

theorem le_place_of_mem {place} (member : arg ∈ placedFrom place entries) : place ≤ arg.place := by
  induction entries generalizing place with
  | nil => cases member
  | cons entry rest ih =>
    rcases List.mem_cons.mp member with rfl | later
    · exact le_rfl
    · have after := ih later
      omega

theorem placedFrom_increasing (place : Nat) (entries : List (String × ArgValue)) :
    (placedFrom place entries).Pairwise fun arg later => arg.next ≤ later.place := by
  induction entries generalizing place with
  | nil => exact List.Pairwise.nil
  | cons entry rest ih =>
    exact List.pairwise_cons.mpr ⟨fun later member => le_place_of_mem member,
      ih _⟩

theorem map_placedFrom (place : Nat) (entries : List (String × ArgValue)) :
    (placedFrom place entries).map (fun arg => (arg.key, arg.value)) = entries := by
  induction entries generalizing place with
  | nil => rfl
  | cons entry rest ih =>
    rw [placedFrom, List.map_cons, ih]

section Places

variable {args : ArgRecord}

variable {arg : PlacedArg}

theorem mem_entries_of_mem (member : arg ∈ placedArgs args) :
    (arg.key, arg.value) ∈ args.entries := by
  rw [← map_placedFrom 0 args.entries]
  exact List.mem_map.mpr ⟨arg, member, rfl⟩

theorem get_of_mem (member : arg ∈ placedArgs args) : args.get arg.key = some arg.value :=
  (args.get_eq_some_iff arg.key arg.value).mpr (mem_entries_of_mem member)

theorem exists_of_get {key value} (found : args.get key = some value) :
    ∃ arg ∈ placedArgs args, arg.key = key ∧ arg.value = value := by
  have member := (args.get_eq_some_iff key value).mp found
  rw [← map_placedFrom 0 args.entries] at member
  obtain ⟨arg, inside, same⟩ := List.mem_map.mp member
  exact ⟨arg, inside, (Prod.mk.inj same).1, (Prod.mk.inj same).2⟩

theorem eq_of_key_eq {other} (member : arg ∈ placedArgs args)
    (otherMember : other ∈ placedArgs args) (same : arg.key = other.key) : arg = other := by
  have keys : ((placedArgs args).map PlacedArg.key).Nodup := by
    have nodup := args.nodup
    rw [← map_placedFrom 0 args.entries, List.map_map] at nodup
    exact nodup
  exact List.inj_on_of_nodup_map keys member otherMember same

theorem next_le_or {other} (member : arg ∈ placedArgs args)
    (otherMember : other ∈ placedArgs args) (different : arg ≠ other) :
    arg.next ≤ other.place ∨ other.next ≤ arg.place := by
  obtain ⟨i, iBound, rfl⟩ := List.getElem_of_mem member
  obtain ⟨j, jBound, rfl⟩ := List.getElem_of_mem otherMember
  have ordered := List.pairwise_iff_getElem.mp (placedFrom_increasing 0 args.entries)
  rcases Nat.lt_trichotomy i j with before | same | after
  · exact Or.inl (ordered i j iBound jBound before)
  · exact absurd (by simp only [same]) different
  · exact Or.inr (ordered j i jBound iBound after)

theorem placedArgs_increasing (args : ArgRecord) :
    (placedArgs args).Pairwise fun arg later => arg.place < later.place := by
  refine (placedFrom_increasing 0 args.entries).imp fun {arg later} after => ?_
  unfold PlacedArg.next at after
  split at after <;> omega

end Places

/-! ### Who writes where -/

/-- The names of the places a self-named argument takes. -/
def PlacedArg.Names (arg : PlacedArg) (key : String) : Prop :=
  key = placeName arg.place ∨ key = placeName (arg.place + 1)

theorem PlacedArg.mem_writes_of_selfNamed (same : arg.SelfNamed) :
    (key, value) ∈ arg.writes ↔ arg.Names key ∧ value = atomValue arg.key := by
  rw [PlacedArg.writes, if_pos same, PlacedArg.Names]
  simp only [List.mem_cons, List.not_mem_nil, or_false, Prod.mk.injEq]
  tauto

theorem PlacedArg.mem_writes_of_not (other : ¬ arg.SelfNamed) :
    (key, value) ∈ arg.writes ↔ key = arg.key ∧ value = atomValue (valueSymbol arg.value) := by
  rw [PlacedArg.writes, if_neg other]
  simp

theorem PlacedArg.mem_keys_of_selfNamed (same : arg.SelfNamed) :
    key ∈ arg.writes.map Prod.fst ↔ arg.Names key := by
  rw [PlacedArg.writes, if_pos same, PlacedArg.Names]
  simp

theorem PlacedArg.mem_keys_of_not (other : ¬ arg.SelfNamed) :
    key ∈ arg.writes.map Prod.fst ↔ key = arg.key := by
  rw [PlacedArg.writes, if_neg other]
  simp

theorem PlacedArg.Names.ne_proto (named : arg.Names key) : key ≠ "__proto__" := by
  have begins : ∀ index, placeName index ≠ "__proto__" := by
    intro index same
    have heads : (placeName index).toList.head? = "__proto__".toList.head? := by rw [same]
    rw [placeName, String.toList_append] at heads
    cases heads
  rcases named with rfl | rfl
  · exact begins _
  · exact begins _

theorem PlacedArg.Names.eq_of_ne {first second third} (firstNamed : arg.Names first)
    (secondNamed : arg.Names second) (thirdNamed : arg.Names third) (firstApart : first ≠ third)
    (secondApart : second ≠ third) : first = second := by
  rcases thirdNamed with rfl | rfl
  · rw [firstNamed.resolve_left firstApart, secondNamed.resolve_left secondApart]
  · rw [firstNamed.resolve_right firstApart, secondNamed.resolve_right secondApart]

theorem eq_of_names {args other} (member : arg ∈ placedArgs args)
    (otherMember : other ∈ placedArgs args) (same : arg.SelfNamed) (otherSame : other.SelfNamed)
    (named : arg.Names key) (otherNamed : other.Names key) : arg = other := by
  by_contra different
  have apart := next_le_or member otherMember different
  unfold PlacedArg.next at apart
  rw [if_pos same, if_pos otherSame] at apart
  rcases named with rfl | rfl
  · rcases otherNamed with equal | equal <;>
      have index := placeName_injective equal <;> omega
  · rcases otherNamed with equal | equal <;>
      have index := placeName_injective equal <;> omega

/-! ### Which records are read back -/

/-- An argument that makes up for a self-named one: the key of the self-named one is a name of
its places, and this one has the other name for a key, and comes later or has the same value. -/
def MakesUpFor (other arg : PlacedArg) : Prop :=
  ¬ other.SelfNamed ∧ arg.Names arg.key ∧ arg.Names other.key ∧
    (arg.place < other.place ∨ other.value = arg.value)

/-- A record of arguments no part of which is lost. -/
structure ReadsBack (args : ArgRecord) : Prop where
  noProto : args.get "__proto__" = none
  faithful : ∀ entry ∈ args.entries, Faithful entry.2
  madeUp : ∀ arg ∈ placedArgs args, arg.SelfNamed → ∃ other ∈ placedArgs args, MakesUpFor other arg

section RoundTrip

variable {args : ArgRecord} (argument : ∀ entry ∈ args.entries, IsArgument entry.2)

include argument

/-- The record read back from the arguments' writes. -/
abbrev readBack (args : ArgRecord) : ArgRecord :=
  mapToRecord ((placedArgs args).flatMap PlacedArg.writes)

variable {arg : PlacedArg}

theorem isArgument_of_mem (member : arg ∈ placedArgs args) : IsArgument arg.value :=
  argument _ (mem_entries_of_mem member)

theorem faithful_of_write {writer} (member : arg ∈ placedArgs args)
    (writerMember : writer ∈ placedArgs args) (written : (arg.key, arg.value) ∈ writer.writes) :
    Faithful arg.value := by
  by_cases same : writer.SelfNamed
  · obtain ⟨-, value⟩ := (PlacedArg.mem_writes_of_selfNamed same).mp written
    rw [value, ← same]
    exact (isArgument_atomValue (isArgument_of_mem argument writerMember)).2
  · obtain ⟨key, value⟩ := (PlacedArg.mem_writes_of_not same).mp written
    rw [eq_of_key_eq member writerMember key] at value ⊢
    exact (atomValue_valueSymbol_iff (isArgument_of_mem argument writerMember)).mp value.symm

theorem names_of_write {writer} (member : arg ∈ placedArgs args)
    (writerMember : writer ∈ placedArgs args) (writerFaithful : Faithful writer.value)
    (same : arg.SelfNamed) (written : (arg.key, arg.value) ∈ writer.writes) :
    arg.Names arg.key := by
  by_cases writerSame : writer.SelfNamed
  · obtain ⟨named, value⟩ := (PlacedArg.mem_writes_of_selfNamed writerSame).mp written
    have writerValue : writer.value = arg.value := by
      rw [value, ← writerSame, (atomValue_valueSymbol_iff
        (isArgument_of_mem argument writerMember)).mpr writerFaithful]
    have equal : writer = arg := by
      refine eq_of_key_eq writerMember member ?_
      rw [← writerSame, ← same, writerValue]
    exact equal ▸ named
  · obtain ⟨key, -⟩ := (PlacedArg.mem_writes_of_not writerSame).mp written
    exact absurd (eq_of_key_eq member writerMember key ▸ same) writerSame

theorem madeUp_of_sameBindings (same : (readBack args).SameBindings args)
    (faithful : ∀ arg ∈ placedArgs args, Faithful arg.value)
    (named : ∀ arg ∈ placedArgs args, arg.SelfNamed → arg.Names arg.key)
    (member : arg ∈ placedArgs args) (selfNamed : arg.SelfNamed) :
    ∃ other ∈ placedArgs args, MakesUpFor other arg := by
  obtain ⟨otherName, otherNamed, apart⟩ : ∃ otherName, arg.Names otherName ∧
      otherName ≠ arg.key := by
    have different : placeName arg.place ≠ placeName (arg.place + 1) := fun equal =>
      absurd (placeName_injective equal) (by omega)
    rcases named arg member selfNamed with key | key
    · exact ⟨placeName (arg.place + 1), Or.inr rfl, key ▸ different.symm⟩
    · exact ⟨placeName arg.place, Or.inl rfl, key ▸ different⟩
  -- The argument writes at its other name, so something is there.
  have written : ((readBack args).get otherName).isSome = true := by
    refine isSome_foldl_assign otherNamed.ne_proto (Or.inr ?_)
    obtain ⟨write, writeMember, key⟩ :=
      List.mem_map.mp ((PlacedArg.mem_keys_of_selfNamed selfNamed).mpr otherNamed)
    exact List.mem_map.mpr ⟨write, List.mem_flatMap.mpr ⟨arg, member, writeMember⟩, key⟩
  obtain ⟨value, found⟩ := Option.isSome_iff_exists.mp written
  obtain ⟨other, otherMember, rfl, rfl⟩ := exists_of_get ((same otherName).symm.trans found)
  have different : other ≠ arg := fun equal => apart (equal ▸ rfl)
  have plain : ¬ other.SelfNamed := fun otherSame => different
    (eq_of_names otherMember member otherSame selfNamed (named other otherMember otherSame)
      otherNamed)
  refine ⟨other, otherMember, plain, named arg member selfNamed, otherNamed, ?_⟩
  by_contra neither
  obtain ⟨notLater, otherValue⟩ := not_or.mp neither
  obtain ⟨-, writer, writerMember, writes, last⟩ :=
    (get_mapToRecord_iff (placedArgs_increasing args)).mp found
  have writesHere : other.key ∈ arg.writes.map Prod.fst :=
    (PlacedArg.mem_keys_of_selfNamed selfNamed).mpr otherNamed
  have notBefore : ¬ writer.place < arg.place := fun before =>
    last arg member before writesHere
  by_cases writerSame : writer.SelfNamed
  · obtain ⟨writerNamed, value⟩ := (PlacedArg.mem_writes_of_selfNamed writerSame).mp writes
    rw [eq_of_names writerMember member writerSame selfNamed writerNamed otherNamed, ← selfNamed,
      (atomValue_valueSymbol_iff (isArgument_of_mem argument member)).mpr
        (faithful arg member)] at value
    exact otherValue value
  · obtain ⟨key, -⟩ := (PlacedArg.mem_writes_of_not writerSame).mp writes
    have equal := eq_of_key_eq otherMember writerMember key
    subst equal
    have ordered := next_le_or otherMember member different
    unfold PlacedArg.next at ordered
    rw [if_neg plain, if_pos selfNamed] at ordered
    omega

theorem readsBack_of_sameBindings (same : (readBack args).SameBindings args) :
    ReadsBack args := by
  have written : ∀ arg ∈ placedArgs args, arg.key ≠ "__proto__" ∧
      ∃ writer ∈ placedArgs args, (arg.key, arg.value) ∈ writer.writes := by
    intro arg member
    obtain ⟨notProto, writer, writerMember, writes, -⟩ :=
      (get_mapToRecord_iff (placedArgs_increasing args)).mp
        ((same arg.key).trans (get_of_mem member))
    exact ⟨notProto, writer, writerMember, writes⟩
  have faithful : ∀ arg ∈ placedArgs args, Faithful arg.value := by
    intro arg member
    obtain ⟨-, writer, writerMember, writes⟩ := written arg member
    exact faithful_of_write argument member writerMember writes
  have named : ∀ arg ∈ placedArgs args, arg.SelfNamed → arg.Names arg.key := by
    intro arg member selfNamed
    obtain ⟨-, writer, writerMember, writes⟩ := written arg member
    exact names_of_write argument member writerMember (faithful writer writerMember) selfNamed
      writes
  refine ⟨?_, ?_, fun arg member => madeUp_of_sameBindings argument same faithful named member⟩
  · rw [Option.eq_none_iff_forall_ne_some]
    intro value found
    obtain ⟨arg, member, key, -⟩ := exists_of_get found
    exact (written arg member).1 key
  · intro entry member
    obtain ⟨arg, argMember, -, value⟩ := exists_of_get ((args.get_eq_some_iff _ _).mpr member)
    exact value ▸ faithful arg argMember

theorem get_readBack (reads : ReadsBack args) (member : arg ∈ placedArgs args) :
    (readBack args).get arg.key = some arg.value := by
  have notProto : arg.key ≠ "__proto__" := by
    intro proto
    have found := get_of_mem member
    rw [proto, reads.noProto] at found
    cases found
  have value : ∀ other ∈ placedArgs args, atomValue (valueSymbol other.value) = other.value :=
    fun other otherMember =>
      (atomValue_valueSymbol_iff (isArgument_of_mem argument otherMember)).mpr
        (reads.faithful _ (mem_entries_of_mem otherMember))
  -- No argument without a place name writes under this key, except the argument itself.
  have plainWriter : ∀ later ∈ placedArgs args, ¬ later.SelfNamed →
      arg.key ∈ later.writes.map Prod.fst → later = arg := fun later laterMember plain writes =>
    eq_of_key_eq laterMember member ((PlacedArg.mem_keys_of_not plain).mp writes).symm
  rw [get_mapToRecord_iff (placedArgs_increasing args)]
  refine ⟨notProto, ?_⟩
  by_cases named : ∃ owner ∈ placedArgs args, owner.SelfNamed ∧ owner.Names arg.key ∧
      arg.place ≤ owner.place
  · -- A place name that comes last: the argument's own, or that of one it makes up for.
    obtain ⟨owner, ownerMember, ownerSame, ownerNamed, after⟩ := named
    have ownerValue : owner.value = arg.value := by
      by_cases self : owner = arg
      · rw [self]
      · obtain ⟨other, otherMember, plain, ownNamed, otherNamed, makesUp⟩ :=
          reads.madeUp owner ownerMember ownerSame
        have keys : other.key = arg.key := by
          refine otherNamed.eq_of_ne ownerNamed ownNamed (fun same => ?_) fun same => ?_
          · exact plain (eq_of_key_eq otherMember ownerMember same ▸ ownerSame)
          · exact self (eq_of_key_eq member ownerMember same).symm
        have equal := eq_of_key_eq otherMember member keys
        subst equal
        exact (makesUp.resolve_left (by omega)).symm
    refine ⟨owner, ownerMember, (PlacedArg.mem_writes_of_selfNamed ownerSame).mpr
      ⟨ownerNamed, ?_⟩, fun later laterMember laterAfter writes => ?_⟩
    · rw [← ownerSame, value owner ownerMember, ownerValue]
    · by_cases laterSame : later.SelfNamed
      · have equal := eq_of_names laterMember ownerMember laterSame ownerSame
          ((PlacedArg.mem_keys_of_selfNamed laterSame).mp writes) ownerNamed
        rw [equal] at laterAfter
        exact lt_irrefl _ laterAfter
      · have equal := plainWriter later laterMember laterSame writes
        rw [equal] at laterAfter
        omega
  · have plain : ¬ arg.SelfNamed := by
      intro same
      obtain ⟨other, -, -, ownNamed, -⟩ := reads.madeUp arg member same
      exact named ⟨arg, member, same, ownNamed, le_rfl⟩
    refine ⟨arg, member, (PlacedArg.mem_writes_of_not plain).mpr ⟨rfl, (value arg member).symm⟩,
      fun later laterMember laterAfter writes => ?_⟩
    by_cases laterSame : later.SelfNamed
    · exact named ⟨later, laterMember, laterSame,
        (PlacedArg.mem_keys_of_selfNamed laterSame).mp writes, laterAfter.le⟩
    · rw [plainWriter later laterMember laterSame writes] at laterAfter
      exact lt_irrefl _ laterAfter

theorem sameBindings_of_readsBack (reads : ReadsBack args) :
    (readBack args).SameBindings args := by
  intro key
  by_cases known : ∃ arg ∈ placedArgs args, arg.key = key
  · obtain ⟨arg, member, rfl⟩ := known
    rw [get_readBack argument reads member, get_of_mem member]
  · have absent : args.get key = none := by
      rw [Option.eq_none_iff_forall_ne_some]
      intro value found
      obtain ⟨arg, member, same, -⟩ := exists_of_get found
      exact known ⟨arg, member, same⟩
    rw [absent, Option.eq_none_iff_forall_ne_some]
    intro value found
    obtain ⟨-, writer, writerMember, writes, -⟩ :=
      (get_mapToRecord_iff (placedArgs_increasing args)).mp found
    by_cases selfNamed : writer.SelfNamed
    · obtain ⟨named, -⟩ := (PlacedArg.mem_writes_of_selfNamed selfNamed).mp writes
      obtain ⟨other, otherMember, plain, ownNamed, otherNamed, -⟩ :=
        reads.madeUp writer writerMember selfNamed
      refine known ⟨other, otherMember, ?_⟩
      refine otherNamed.eq_of_ne named ownNamed (fun same => ?_) fun same => ?_
      · exact plain (eq_of_key_eq otherMember writerMember same ▸ selfNamed)
      · exact known ⟨writer, writerMember, same.symm⟩
    · exact known ⟨writer, writerMember,
        ((PlacedArg.mem_writes_of_not selfNamed).mp writes).1.symm⟩

end RoundTrip

/-- A call is read back from its operation term. -/
def RoundTrips (collator : Collator) (name : String) (args : ArgRecord) : Prop :=
  ∃ term call, operationTerm collator name args = .ok term ∧
    readOperationTerm term = some call ∧ call.name = name ∧ call.args.SameBindings args

/-- A call of a valid name with valid keys and values is read back from its operation term exactly
when no key is `__proto__`, every value is read back from its symbol, and every argument whose
key is its own symbol is made up for. -/
theorem operation_roundTrips_iff (collator : Collator) (name : String) (args : ArgRecord)
    (valid : isValidAtomSymbol name = true)
    (each : ∀ entry ∈ args.entries, isValidAtomSymbol entry.1 = true ∧ IsArgument entry.2) :
    RoundTrips collator name args ↔ ReadsBack args := by
  have argument : ∀ entry ∈ args.entries, IsArgument entry.2 := fun entry member =>
    (each entry member).2
  have written : operationTerm collator name args = _ := operationTerm_eq valid each
  have read := readOperationTerm_eq name args
  constructor
  · rintro ⟨term, call, built, decoded, -, same⟩
    rw [written] at built
    rw [← Except.ok.inj built, read] at decoded
    rw [← Option.some.inj decoded] at same
    exact readsBack_of_sameBindings argument same
  · intro reads
    exact ⟨_, _, written, read, rfl, sameBindings_of_readsBack argument reads⟩

/-- A call with a direction and a number of steps is read back. -/
theorem operation_roundTrips_iff_move :
    RoundTrips codePointCollator "move"
      (OrderedMap.ofList [("dir", .text "left"), ("steps", .number (.finite (3 : ℕ)))]) := by
  have entries : (OrderedMap.ofList [("dir", ArgValue.text "left"),
      ("steps", ArgValue.number (.finite (3 : ℕ)))]).entries =
        [("dir", .text "left"), ("steps", .number (.finite (3 : ℕ)))] := rfl
  refine (operation_roundTrips_iff codePointCollator "move" _ (by decide) ?_).mpr ⟨rfl, ?_, ?_⟩
  · intro entry member
    rw [entries] at member
    simp only [List.mem_cons, List.not_mem_nil, or_false] at member
    rcases member with rfl | rfl
    · exact ⟨by decide, by decide, by decide⟩
    · exact ⟨by decide, 3, rfl, by unfold IsDouble; decide +kernel⟩
  · intro entry member
    rw [entries] at member
    simp only [List.mem_cons, List.not_mem_nil, or_false] at member
    rcases member with rfl | rfl
    · exact ⟨by decide, by decide⟩
    · intro whole same
      have cast : ((3 : ℕ) : ℚ) = whole := JsNumber.finite.inj same
      have three : 3 = whole := by exact_mod_cast cast
      omega
  · intro arg member selfNamed
    unfold placedArgs at member
    rw [entries] at member
    simp only [placedFrom, List.mem_cons, List.not_mem_nil, or_false] at member
    rcases member with rfl | rfl
    · exact absurd selfNamed (by decide +kernel)
    · exact absurd selfNamed (by decide +kernel)

/-- A call whose one argument is named by its own value is read back with two arguments, neither
of that name. -/
theorem self_named_argument_lost :
    ¬ ∀ (collator : Collator) (name : String) (args : ArgRecord),
      isValidAtomSymbol name = true →
      (∀ entry ∈ args.entries, isValidAtomSymbol entry.1 = true ∧ IsArgument entry.2) →
        RoundTrips collator name args := by
  intro claim
  have each : ∀ entry ∈ (OrderedMap.ofList [("red", ArgValue.text "red")]).entries,
      isValidAtomSymbol entry.1 = true ∧ IsArgument entry.2 := by
    intro entry member
    rw [List.mem_singleton.mp member]
    exact ⟨by decide, by decide, by decide⟩
  obtain ⟨term, call, built, decoded, -, same⟩ :=
    claim codePointCollator "paint" _ (by decide) each
  rw [operationTerm_eq (by decide) each] at built
  rw [← Except.ok.inj built, readOperationTerm_eq] at decoded
  rw [← Option.some.inj decoded] at same
  have lost := congrArg Option.isSome (same "red")
  exact absurd lost (by decide +kernel)

end Senars.Terms
