/-
This file is about script objects as records. An object lists its own properties by name: the
names that are array indices first, from the least up, then the others in the order in which
they were first assigned. Assigning to `__proto__` makes no property.

So an object that is written from a map and read back into one lists the same entries, but for
one named `__proto__`, and may list them in another order.
-/

import Mathlib.Algebra.Order.Ring.Nat
import Senars.Library.OrderedMap
import Senars.Library.StableSort

namespace Senars.Library

variable {Value : Type}

/-- The array index a name is. -/
def arrayIndex (name : String) : Option ℕ :=
  name.toNat?.filter fun index => decide (toString index = name ∧ index < 2 ^ 32 - 1)

def byIndex : Comparison (String × Value) where
  le first second := decide ((arrayIndex first.1).getD 0 ≤ (arrayIndex second.1).getD 0)
  total first second := by simpa using Nat.le_total _ _
  trans first second third := by simpa using Nat.le_trans

/-- The order in which an object lists properties that were assigned one after the other. -/
def propertyOrder (entries : List (String × Value)) : List (String × Value) :=
  byIndex.toSorted (entries.filter fun entry => (arrayIndex entry.1).isSome) ++
    entries.filter fun entry => !(arrayIndex entry.1).isSome

theorem propertyOrder_perm (entries : List (String × Value)) :
    (propertyOrder entries).Perm entries :=
  ((byIndex.toSorted_perm _).append_right _).trans (List.filter_append_perm _ _)

theorem mem_propertyOrder {entries} {entry : String × Value} :
    entry ∈ propertyOrder entries ↔ entry ∈ entries :=
  (propertyOrder_perm entries).mem_iff

theorem propertyOrder_map {Other} (change : Value → Other) (entries : List (String × Value)) :
    propertyOrder (entries.map fun entry => (entry.1, change entry.2)) =
      (propertyOrder entries).map fun entry => (entry.1, change entry.2) := by
  unfold propertyOrder
  rw [List.map_append, List.filter_map, List.filter_map]
  refine congrArg (· ++ _) (byIndex.map_toSorted ?_ _).symm
  intro first second
  rfl

namespace OrderedMap

variable {Key : Type} [DecidableEq Key]

variable {entries : List (Key × Value)}

theorem setEntry_of_notMem {key} (value : Value) (absent : key ∉ entries.map Prod.fst) :
    setEntry key value entries = entries ++ [(key, value)] := by
  induction entries with
  | nil => rfl
  | cons entry rest ih =>
    rw [List.map_cons, List.mem_cons, not_or] at absent
    rw [setEntry, if_neg (Ne.symm absent.1), ih absent.2, List.cons_append]

theorem entries_setAll {map : OrderedMap Key Value}
    (nodup : (map.entries ++ entries |>.map Prod.fst).Nodup) :
    (map.setAll entries).entries = map.entries ++ entries := by
  induction entries generalizing map with
  | nil => exact (List.append_nil _).symm
  | cons entry rest ih =>
    have set : (map.set entry.1 entry.2).entries = map.entries ++ [entry] := by
      refine setEntry_of_notMem entry.2 fun inside => ?_
      rw [List.map_append] at nodup
      exact (List.disjoint_of_nodup_append nodup) inside List.mem_cons_self
    have together : (map.set entry.1 entry.2).entries ++ rest = map.entries ++ entry :: rest := by
      rw [set, List.append_assoc]
      rfl
    rw [← together] at nodup ⊢
    exact ih nodup

theorem entries_ofList (nodup : (entries.map Prod.fst).Nodup) :
    (ofList entries).entries = entries :=
  entries_setAll nodup

end OrderedMap

abbrev JsObject (Value : Type) : Type := OrderedMap String Value

namespace JsObject

def assign (object : JsObject Value) (name : String) (value : Value) : JsObject Value :=
  if name = "__proto__" then object else OrderedMap.set object name value

/-- `Object.entries` -/
def ownEntries (object : JsObject Value) : List (String × Value) := propertyOrder object.entries

/-- The object some properties are assigned to, one after the other. -/
def ofEntries (entries : List (String × Value)) : JsObject Value :=
  entries.foldl (fun object entry => object.assign entry.1 entry.2) OrderedMap.empty

/-- What an object keeps of some entries. -/
def assignable (entries : List (String × Value)) : List (String × Value) :=
  entries.filter fun entry => decide (entry.1 ≠ "__proto__")

theorem ofEntries_eq (entries : List (String × Value)) :
    ofEntries entries = OrderedMap.ofList (assignable entries) := by
  have from_ : ∀ object : JsObject Value,
      entries.foldl (fun object entry => object.assign entry.1 entry.2) object =
        object.setAll (assignable entries) := by
    induction entries with
    | nil => exact fun _ => rfl
    | cons entry rest ih =>
      intro object
      rw [List.foldl_cons, ih, assign]
      by_cases proto : entry.1 = "__proto__"
      · have dropped : assignable (entry :: rest) = assignable rest :=
          List.filter_cons_of_neg (by simpa using proto)
        rw [if_pos proto, dropped]
      · have kept : assignable (entry :: rest) = entry :: assignable rest :=
          List.filter_cons_of_pos (by simpa using proto)
        rw [if_neg proto, kept]
        rfl
  exact from_ _

theorem ownEntries_ofEntries {entries : List (String × Value)}
    (nodup : (entries.map Prod.fst).Nodup) :
    (ofEntries entries).ownEntries = propertyOrder (assignable entries) := by
  rw [ownEntries, ofEntries_eq, OrderedMap.entries_ofList]
  exact nodup.sublist (List.filter_sublist.map Prod.fst)

theorem mem_assignable {entries} {entry : String × Value} :
    entry ∈ assignable entries ↔ entry ∈ entries ∧ entry.1 ≠ "__proto__" := by
  rw [assignable, List.mem_filter, decide_eq_true_iff]

theorem nodup_assignable (map : OrderedMap String Value) :
    ((propertyOrder (assignable map.entries)).map Prod.fst).Nodup :=
  ((propertyOrder_perm _).map Prod.fst).nodup_iff.mpr
    (map.nodup.sublist (List.filter_sublist.map Prod.fst))

theorem get_ofList_assignable {Other} (map : OrderedMap String Value) (change : Value → Other)
    (name : String) :
    (OrderedMap.ofList ((propertyOrder (assignable map.entries)).map fun entry =>
        (entry.1, change entry.2))).get name =
      if name = "__proto__" then none else (map.get name).map change := by
  have nodup := nodup_assignable map
  refine Option.ext fun value => ?_
  rw [OrderedMap.get_eq_some_iff, OrderedMap.entries_ofList (by rwa [List.map_map]),
    List.mem_map]
  constructor
  · rintro ⟨entry, inside, same⟩
    obtain ⟨rfl, rfl⟩ := Prod.mk.inj same
    obtain ⟨inMap, notProto⟩ := mem_assignable.mp (mem_propertyOrder.mp inside)
    rw [if_neg notProto, (map.get_eq_some_iff _ _).mpr inMap]
    rfl
  · intro found
    split at found
    · cases found
    · next notProto =>
      obtain ⟨old, inMap, rfl⟩ := Option.map_eq_some_iff.mp found
      exact ⟨(name, old), mem_propertyOrder.mpr
        (mem_assignable.mpr ⟨(map.get_eq_some_iff _ _).mp inMap, notProto⟩), rfl⟩

theorem sum_assignable_iff (weight : String × Value → ℕ) (entries : List (String × Value)) :
    ((assignable entries).map weight).sum ≤ (entries.map weight).sum ∧
      (((assignable entries).map weight).sum = (entries.map weight).sum ↔
        ∀ entry ∈ entries, entry.1 = "__proto__" → weight entry = 0) := by
  induction entries with
  | nil => simp [assignable]
  | cons entry rest ih =>
    obtain ⟨least, same⟩ := ih
    by_cases proto : entry.1 = "__proto__"
    · have dropped : assignable (entry :: rest) = assignable rest :=
        List.filter_cons_of_neg (by simpa using proto)
      rw [dropped, List.map_cons, List.sum_cons, List.forall_mem_cons, ← same]
      refine ⟨by omega, fun equal => ⟨fun _ => by omega, by omega⟩, ?_⟩
      rintro ⟨adds, equal⟩
      rw [adds proto, Nat.zero_add, equal]
    · have kept : assignable (entry :: rest) = entry :: assignable rest :=
        List.filter_cons_of_pos (by simpa using proto)
      rw [kept, List.map_cons, List.sum_cons, List.map_cons, List.sum_cons, List.forall_mem_cons,
        ← same]
      refine ⟨by omega, fun equal => ⟨fun same => absurd same proto, by omega⟩, ?_⟩
      rintro ⟨-, equal⟩
      rw [equal]

end JsObject

end Senars.Library
