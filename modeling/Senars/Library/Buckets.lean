/-
This file is about indexes: maps from a key to a bucket of values, filled value by value under the
keys of each. A bucket holds the values that have its key, in the order they came in, each as often
as it has the key.
-/

import Senars.Library.Lists
import Senars.Library.OrderedMap

namespace Senars.Library

variable {Key Value : Type} [DecidableEq Key]

/-- An index, by the buckets of the keys that are there. -/
abbrev Buckets (Key Value : Type) := OrderedMap Key (List Value)

namespace Buckets

variable {index : Buckets Key Value}

/-- The bucket of a key, which is empty where the key is not there. -/
def bucket (index : Buckets Key Value) (key : Key) : List Value := (index.get key).getD []

/-- Put a value in the bucket of a key, which is made where it is missing. -/
def push (index : Buckets Key Value) (key : Key) (value : Value) : Buckets Key Value :=
  index.set key (index.bucket key ++ [value])

/-- Put a value in the bucket of each key. -/
def pushEach (index : Buckets Key Value) (keys : List Key) (value : Value) : Buckets Key Value :=
  keys.foldl (fun index key => index.push key value) index

/-- Put a value in the bucket of a key that is there. -/
def pushKnown (index : Buckets Key Value) (key : Key) (value : Value) : Buckets Key Value :=
  match index.get key with
  | some values => index.set key (values ++ [value])
  | none => index

theorem bucket_push (index : Buckets Key Value) (key other : Key) (value : Value) :
    (index.push key value).bucket other =
      index.bucket other ++ if key = other then [value] else [] := by
  unfold push bucket
  rw [OrderedMap.get_set]
  by_cases same : other = key
  · subst same
    rw [if_pos rfl, if_pos rfl]
    rfl
  · rw [if_neg same, if_neg (Ne.symm same), List.append_nil]

theorem bucket_pushEach (index : Buckets Key Value) (keys : List Key) (value : Value)
    (other : Key) :
    (index.pushEach keys value).bucket other =
      index.bucket other ++ List.replicate (keys.count other) value := by
  induction keys generalizing index with
  | nil => exact (List.append_nil _).symm
  | cons key rest ih =>
    show ((index.push key value).pushEach rest value).bucket other = _
    rw [ih, bucket_push, List.append_assoc]
    by_cases same : key = other
    · subst same
      rw [if_pos rfl, List.count_cons_self]
      rfl
    · rw [if_neg same, List.count_cons_of_ne same]
      rfl

theorem get_pushKnown (index : Buckets Key Value) (key other : Key) (value : Value) :
    (index.pushKnown key value).get other =
      (index.get other).map (· ++ if key = other then [value] else []) := by
  have unchanged : ∀ found : Option (List Value), found.map (· ++ []) = found := by
    intro found
    cases found with
    | none => rfl
    | some values => exact congrArg some (List.append_nil values)
  unfold pushKnown
  split
  · next values known =>
    rw [OrderedMap.get_set]
    by_cases same : other = key
    · subst same
      rw [if_pos rfl, if_pos rfl, known]
      rfl
    · rw [if_neg same, if_neg (Ne.symm same), unchanged]
  · next missing =>
    by_cases same : key = other
    · rw [← same, missing]
      rfl
    · rw [if_neg same, unchanged]

end Buckets

/-! ### Values that come more than once -/

section

variable {values more : List Value} {times : Value → ℕ}

theorem filter_flatMap_replicate (keep : Value → Bool) (times : Value → ℕ) (values : List Value) :
    (values.flatMap fun value => List.replicate (times value) value).filter keep =
      (values.filter keep).flatMap fun value => List.replicate (times value) value := by
  induction values with
  | nil => rfl
  | cons value rest ih =>
    rw [List.flatMap_cons, List.filter_append, ih]
    by_cases kept : keep value = true
    · rw [List.filter_replicate_of_pos kept, List.filter_cons_of_pos kept, List.flatMap_cons]
    · rw [List.filter_replicate_of_neg kept, List.filter_cons_of_neg kept, List.nil_append]

theorem flatMap_replicate_once (once : ∀ value ∈ values, times value = 1) :
    (values.flatMap fun value => List.replicate (times value) value) = values := by
  induction values with
  | nil => rfl
  | cons value rest ih =>
    obtain ⟨first, later⟩ := List.forall_mem_cons.mp once
    rw [List.flatMap_cons, first, ih later]
    rfl

theorem length_le_flatMap_replicate (some : ∀ value ∈ values, times value ≠ 0) :
    values.length ≤ (values.flatMap fun value => List.replicate (times value) value).length := by
  induction values with
  | nil => exact Nat.zero_le _
  | cons value rest ih =>
    obtain ⟨first, later⟩ := List.forall_mem_cons.mp some
    have rest := ih later
    rw [List.flatMap_cons, List.length_append, List.length_replicate, List.length_cons]
    omega

theorem kept_once_of_length_le {keep} (some : ∀ value ∈ values, times value ≠ 0)
    (short : (values.flatMap fun value => List.replicate (times value) value).length ≤
      (values.filter keep).length) : ∀ value ∈ values, keep value = true ∧ times value = 1 := by
  induction values with
  | nil => exact fun _ none => absurd none List.not_mem_nil
  | cons value rest ih =>
    obtain ⟨first, later⟩ := List.forall_mem_cons.mp some
    have least : (rest.filter keep).length ≤
        (rest.flatMap fun value => List.replicate (times value) value).length :=
      (List.length_filter_le keep rest).trans (length_le_flatMap_replicate later)
    rw [List.flatMap_cons, List.length_append, List.length_replicate, List.filter_cons] at short
    split at short
    · next kept =>
      rw [List.length_cons] at short
      refine List.forall_mem_cons.mpr ⟨⟨kept, by omega⟩, ih later (by omega)⟩
    · omega

variable [DecidableEq Value]

theorem uniqueByFrom_flatMap_replicate {seen} (distinct : values.Nodup)
    (fresh : ∀ value ∈ values, value ∉ seen) (some : ∀ value ∈ values, times value ≠ 0) :
    uniqueByFrom id seen (values.flatMap fun value => List.replicate (times value) value) =
      values := by
  induction values generalizing seen with
  | nil => rfl
  | cons value rest ih =>
    obtain ⟨notLater, distinctLater⟩ := List.nodup_cons.mp distinct
    obtain ⟨isFresh, freshLater⟩ := List.forall_mem_cons.mp fresh
    obtain ⟨first, later⟩ := List.forall_mem_cons.mp some
    obtain ⟨again, same⟩ := Nat.exists_eq_succ_of_ne_zero first
    have repeats : uniqueByFrom id (value :: seen) (List.replicate again value) = [] :=
      uniqueByFrom_eq_nil id _ fun other member => by
        rw [List.eq_of_mem_replicate member]
        exact List.mem_cons_self
    rw [List.flatMap_cons, same, List.replicate_succ, List.cons_append, uniqueByFrom,
      id_eq, if_neg isFresh, uniqueByFrom_append, repeats, List.nil_append]
    congr 1
    refine ih distinctLater (fun other member seenBefore => ?_) later
    rw [List.mem_append, List.mem_map] at seenBefore
    rcases seenBefore with ⟨repeated, isRepeated, isOther⟩ | before
    · have isValue : repeated = value := List.eq_of_mem_replicate isRepeated
      have isSame : repeated = other := isOther
      exact notLater (isValue ▸ isSame ▸ member)
    · rcases List.mem_cons.mp before with isValue | seenEarlier
      · exact notLater (isValue ▸ member)
      · exact freshLater other member seenEarlier

theorem uniqueBy_flatMap_replicate_append (distinct : values.Nodup)
    (some : ∀ value ∈ values, times value ≠ 0) (known : ∀ value ∈ more, value ∈ values) :
    uniqueBy id ((values.flatMap fun value => List.replicate (times value) value) ++ more) =
      values := by
  have nothingSeen : ∀ value ∈ values, value ∉ ([] : List Value) :=
    fun _ _ => List.not_mem_nil
  have first := uniqueByFrom_flatMap_replicate distinct nothingSeen some
  rw [uniqueBy, uniqueByFrom_append, first, uniqueByFrom_eq_nil, List.append_nil]
  intro value member
  refine List.mem_append_left _ (List.mem_map.mpr ⟨value, ?_, rfl⟩)
  exact List.mem_flatMap.mpr ⟨value, known value member,
    List.mem_replicate.mpr ⟨some value (known value member), rfl⟩⟩

end

end Senars.Library
