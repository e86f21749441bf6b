/-
This file is the script `Map`: a finite map that remembers in which order its
keys came in. Setting a key that is there keeps its place, deleting it forgets
it. A key occurs once, which the structure carries.

Everything else asks a map only for the value at a key, so the lemmas say what
that value is after each operation.
-/

import Mathlib.Algebra.BigOperators.Group.List.Basic
import Mathlib.Algebra.Ring.Nat
import Mathlib.Data.List.Nodup

namespace Senars.Library

/-- A map with its entries in insertion order. -/
structure OrderedMap (Key Value : Type) where
  entries : List (Key × Value)
  nodup : (entries.map Prod.fst).Nodup

namespace OrderedMap

variable {Key Value : Type} [DecidableEq Key]

/-- The map without entries. -/
def empty : OrderedMap Key Value where
  entries := []
  nodup := List.nodup_nil

def size (map : OrderedMap Key Value) : Nat := map.entries.length

def getEntry (key : Key) : List (Key × Value) → Option Value
  | [] => none
  | entry :: rest => if entry.1 = key then some entry.2 else getEntry key rest

/-- The value at a key. -/
def get (map : OrderedMap Key Value) (key : Key) : Option Value := getEntry key map.entries

def setEntry (key : Key) (value : Value) : List (Key × Value) → List (Key × Value)
  | [] => [(key, value)]
  | entry :: rest =>
    if entry.1 = key then (key, value) :: rest else entry :: setEntry key value rest

variable {key : Key} {entries : List (Key × Value)} {value old : Value} {map : OrderedMap Key Value}

theorem mem_keys_setEntry {other : Key} :
    other ∈ (setEntry key value entries).map Prod.fst ↔
      other = key ∨ other ∈ entries.map Prod.fst := by
  induction entries with
  | nil => simp [setEntry]
  | cons entry rest ih =>
    unfold setEntry
    split
    · rename_i same
      subst same
      simp
    · rw [List.map_cons, List.mem_cons, List.map_cons, List.mem_cons]
      tauto

theorem mem_setEntry {entry} (inside : entry ∈ setEntry key value entries) :
    entry = (key, value) ∨ entry ∈ entries := by
  induction entries with
  | nil => exact .inl (List.mem_singleton.mp inside)
  | cons head rest ih =>
    unfold setEntry at inside
    split at inside
    · exact (List.mem_cons.mp inside).imp_right (List.mem_cons_of_mem head)
    · rcases List.mem_cons.mp inside with same | later
      · exact .inr (same ▸ List.mem_cons_self)
      · exact (ih later).imp_right (List.mem_cons_of_mem head)

theorem nodup_setEntry (nodup : (entries.map Prod.fst).Nodup) :
    ((setEntry key value entries).map Prod.fst).Nodup := by
  induction entries with
  | nil => exact List.nodup_singleton key
  | cons entry rest ih =>
    have parts := List.nodup_cons.mp nodup
    unfold setEntry
    split
    · rename_i same
      exact same ▸ nodup
    · rename_i different
      rw [List.map_cons, List.nodup_cons, mem_keys_setEntry]
      exact ⟨fun inside => inside.elim different parts.1, ih parts.2⟩

/-- The map with a value at a key, in the key's place or at the end. -/
def set (map : OrderedMap Key Value) (key : Key) (value : Value) : OrderedMap Key Value where
  entries := setEntry key value map.entries
  nodup := nodup_setEntry map.nodup

/-- The map with the entries of some of its keys. -/
def filterKeys (map : OrderedMap Key Value) (keep : Key → Bool) : OrderedMap Key Value where
  entries := map.entries.filter fun entry => keep entry.1
  nodup := map.nodup.sublist (List.filter_sublist.map Prod.fst)

/-- The map without a key. -/
def delete (map : OrderedMap Key Value) (key : Key) : OrderedMap Key Value where
  entries := map.entries.filter fun entry => entry.1 ≠ key
  nodup := map.nodup.sublist (List.filter_sublist.map Prod.fst)

/-- The map with the entries of a list set one after the other. -/
def setAll (map : OrderedMap Key Value) (entries : List (Key × Value)) : OrderedMap Key Value :=
  entries.foldl (fun current entry => current.set entry.1 entry.2) map

/-- The map of a list of entries. -/
def ofList (entries : List (Key × Value)) : OrderedMap Key Value := empty.setAll entries

/-! ### The value at a key -/

@[simp] theorem get_empty (key : Key) : (empty : OrderedMap Key Value).get key = none := rfl

theorem getEntry_setEntry (key other : Key) (value : Value) (entries : List (Key × Value)) :
    getEntry other (setEntry key value entries) =
      if other = key then some value else getEntry other entries := by
  induction entries with
  | nil =>
    by_cases same : other = key
    · simp [setEntry, getEntry, same]
    · simp [setEntry, getEntry, same, Ne.symm same]
  | cons entry rest ih =>
    unfold setEntry
    by_cases found : entry.1 = key
    · by_cases same : other = key
      · simp [getEntry, found, same]
      · have later : entry.1 ≠ other := fun equal => same (equal.symm.trans found)
        simp [getEntry, found, same, Ne.symm same]
    · rw [if_neg found, getEntry, ih, getEntry]
      by_cases here : entry.1 = other
      · rw [if_pos here, if_pos here, if_neg fun same => found (here.trans same)]
      · rw [if_neg here, if_neg here]

theorem get_set (map : OrderedMap Key Value) (key other : Key) (value : Value) :
    (map.set key value).get other = if other = key then some value else map.get other :=
  getEntry_setEntry key other value map.entries

@[simp] theorem get_set_self (map : OrderedMap Key Value) (key : Key) (value : Value) :
    (map.set key value).get key = some value := by
  rw [get_set, if_pos rfl]

theorem get_set_of_ne (map : OrderedMap Key Value) {other : Key} (different : other ≠ key)
    (value : Value) : (map.set key value).get other = map.get other := by
  rw [get_set, if_neg different]

theorem getEntry_filter (keep : Key → Bool) (key : Key) (entries : List (Key × Value)) :
    getEntry key (entries.filter fun entry => keep entry.1) =
      if keep key then getEntry key entries else none := by
  induction entries with
  | nil => simp [getEntry]
  | cons entry rest ih =>
    by_cases kept : keep entry.1 = true
    · rw [List.filter_cons_of_pos (by exact kept), getEntry, ih, getEntry]
      by_cases here : entry.1 = key
      · rw [if_pos here, if_pos here, if_pos (here ▸ kept)]
      · rw [if_neg here, if_neg here]
    · rw [List.filter_cons_of_neg (by exact kept), ih, getEntry]
      by_cases here : entry.1 = key
      · rw [if_neg (here ▸ kept), if_neg (here ▸ kept)]
      · rw [if_neg here]

theorem get_filterKeys (map : OrderedMap Key Value) (keep : Key → Bool) (key : Key) :
    (map.filterKeys keep).get key = if keep key then map.get key else none :=
  getEntry_filter keep key map.entries

theorem get_delete (map : OrderedMap Key Value) (key other : Key) :
    (map.delete key).get other = if other = key then none else map.get other := by
  refine (getEntry_filter (fun other => decide (other ≠ key)) other map.entries).trans ?_
  by_cases same : other = key
  · rw [if_pos same, if_neg (by simpa using same)]
  · rw [if_neg same, if_pos (by simpa using same)]
    rfl

theorem mem_of_getEntry (found : getEntry key entries = some value) : (key, value) ∈ entries := by
  induction entries with
  | nil => cases found
  | cons entry rest ih =>
    unfold getEntry at found
    split at found
    · rename_i same
      rw [← Option.some.inj found, ← same]
      exact List.mem_cons_self
    · exact List.mem_cons_of_mem _ (ih found)

theorem getEntry_of_mem (nodup : (entries.map Prod.fst).Nodup) (member : (key, value) ∈ entries) :
    getEntry key entries = some value := by
  induction entries with
  | nil => exact absurd member List.not_mem_nil
  | cons entry rest ih =>
    have parts := List.nodup_cons.mp nodup
    rw [getEntry]
    rcases List.mem_cons.mp member with rfl | tail
    · rw [if_pos rfl]
    · rw [if_neg, ih parts.2 tail]
      intro same
      exact parts.1 (same ▸ List.mem_map_of_mem tail)

theorem get_eq_some_iff (map : OrderedMap Key Value) (key : Key) (value : Value) :
    map.get key = some value ↔ (key, value) ∈ map.entries :=
  ⟨mem_of_getEntry, getEntry_of_mem map.nodup⟩

theorem filter_entries (map : OrderedMap Key Value)
    (key : Key) : map.entries.filter (·.1 = key) = (map.get key).toList.map (key, ·) := by
  obtain ⟨entries, nodup⟩ := map
  show entries.filter (·.1 = key) = (getEntry key entries).toList.map (key, ·)
  induction entries with
  | nil => rfl
  | cons entry rest ih =>
    obtain ⟨absent, restNodup⟩ := List.nodup_cons.mp nodup
    rw [getEntry]
    by_cases here : entry.1 = key
    · have none : rest.filter (·.1 = key) = [] :=
        List.filter_eq_nil_iff.mpr fun other isOther same =>
          absent (here.trans (of_decide_eq_true same).symm ▸ List.mem_map_of_mem isOther)
      rw [if_pos here, List.filter_cons_of_pos (by simpa using here), none, ← here]
      rfl
    · rw [if_neg here, List.filter_cons_of_neg (by simpa using here)]
      exact ih restNodup

theorem length_setEntry_le (key : Key) (value : Value) (entries : List (Key × Value)) :
    (setEntry key value entries).length ≤ entries.length + 1 := by
  induction entries with
  | nil => exact Nat.le_refl _
  | cons entry rest ih =>
    rw [setEntry]
    split
    · exact Nat.le_succ _
    · exact Nat.succ_le_succ ih

theorem size_set_le (map : OrderedMap Key Value) (key : Key) (value : Value) :
    (map.set key value).size ≤ map.size + 1 :=
  length_setEntry_le key value map.entries

theorem length_setEntry_of_absent (value : Value) (absent : getEntry key entries = none) :
    (setEntry key value entries).length = entries.length + 1 := by
  induction entries with
  | nil => rfl
  | cons entry rest ih =>
    rw [getEntry] at absent
    rw [setEntry]
    split at absent
    · cases absent
    · next different =>
      rw [if_neg different, List.length_cons, ih absent, List.length_cons]

theorem size_set_of_absent (absent : map.get key = none) (value : Value) :
    (map.set key value).size = map.size + 1 :=
  length_setEntry_of_absent value absent

theorem length_setEntry_of_present (value : Value) (present : getEntry key entries = some old) :
    (setEntry key value entries).length = entries.length := by
  induction entries with
  | nil => cases present
  | cons entry rest ih =>
    rw [getEntry] at present
    rw [setEntry]
    split at present
    · next same => rw [if_pos same, List.length_cons, List.length_cons]
    · next different =>
      rw [if_neg different, List.length_cons, ih present, List.length_cons]

theorem size_set_of_present (present : map.get key = some old) (value : Value) :
    (map.set key value).size = map.size :=
  length_setEntry_of_present value present

theorem sum_setEntry_of_present (weight : Value → ℕ) (value : Value)
    (present : getEntry key entries = some old) :
    ((setEntry key value entries).map fun entry => weight entry.2).sum + weight old =
      (entries.map fun entry => weight entry.2).sum + weight value := by
  induction entries with
  | nil => cases present
  | cons entry rest ih =>
    rw [getEntry] at present
    rw [setEntry]
    split at present
    · next same =>
      rw [if_pos same, ← Option.some.inj present, List.map_cons, List.sum_cons, List.map_cons,
        List.sum_cons]
      dsimp only
      omega
    · next different =>
      have later := ih present
      rw [if_neg different, List.map_cons, List.sum_cons, List.map_cons, List.sum_cons]
      omega

theorem sum_setEntry_of_absent (weight : Value → ℕ) (value : Value)
    (absent : getEntry key entries = none) :
    ((setEntry key value entries).map fun entry => weight entry.2).sum =
      (entries.map fun entry => weight entry.2).sum + weight value := by
  induction entries with
  | nil => exact Nat.add_comm _ _
  | cons entry rest ih =>
    rw [getEntry] at absent
    rw [setEntry]
    split at absent
    · cases absent
    · next different =>
      rw [if_neg different, List.map_cons, List.sum_cons, ih absent,
        List.map_cons, List.sum_cons, Nat.add_assoc]

theorem size_delete (found : map.get key = some value) : (map.delete key).size + 1 = map.size := by
  have parts := List.length_eq_length_filter_add (l := map.entries) fun entry => entry.1 = key
  have one : (map.entries.filter fun entry => entry.1 = key).length = 1 := by
    rw [filter_entries, found]
    rfl
  have others : (map.delete key).size =
      (map.entries.filter fun entry => !decide (entry.1 = key)).length := by
    unfold size delete
    simp
  have total : map.size = map.entries.length := rfl
  rw [others, total, parts, one, Nat.add_comm]

theorem size_delete_le (map : OrderedMap Key Value) (key : Key) :
    (map.delete key).size ≤ map.size :=
  List.length_filter_le _ _

/-! ### Maps with the same values -/

/-- Two maps have the same bindings. -/
def SameBindings (first second : OrderedMap Key Value) : Prop :=
  ∀ key, first.get key = second.get key

theorem SameBindings.set {first second : OrderedMap Key Value}
    (same : first.SameBindings second) (key : Key) (value : Value) :
    (first.set key value).SameBindings (second.set key value) := by
  intro other
  rw [get_set, get_set, same other]

/-! ### Maps with more bindings -/

/-- The second map has every binding of the first. -/
def Extends (first second : OrderedMap Key Value) : Prop :=
  ∀ key value, first.get key = some value → second.get key = some value

theorem Extends.refl (map : OrderedMap Key Value) : map.Extends map := fun _ _ found => found

theorem Extends.trans {first second third : OrderedMap Key Value}
    (firstSecond : first.Extends second) (secondThird : second.Extends third) :
    first.Extends third :=
  fun key value found => secondThird key value (firstSecond key value found)

theorem extends_set (fresh : map.get key = none) (value : Value) :
    map.Extends (map.set key value) := by
  intro other old found
  rw [get_set_of_ne]
  · exact found
  · rintro rfl
    exact absurd (fresh.symm.trans found) (by simp)

/-! ### The value at a key after a list of entries -/

theorem get_setAll_eq_none_iff :
    (map.setAll entries).get key = none ↔ map.get key = none ∧ key ∉ entries.map Prod.fst := by
  induction entries generalizing map with
  | nil => simp [setAll]
  | cons entry rest ih =>
    show ((map.set entry.1 entry.2).setAll rest).get key = none ↔ _
    rw [ih, get_set, List.map_cons, List.mem_cons]
    by_cases same : key = entry.1
    · simp [same]
    · simp [same]

theorem of_get_setAll (found : (map.setAll entries).get key = some value) :
    map.get key = some value ∨ (key, value) ∈ entries := by
  induction entries generalizing map with
  | nil => exact .inl found
  | cons entry rest ih =>
    have here : ((map.set entry.1 entry.2).setAll rest).get key = some value := found
    rcases ih here with before | later
    · rw [get_set] at before
      split at before
      · next same =>
        cases before
        exact .inr (same ▸ List.mem_cons_self)
      · exact .inl before
    · exact .inr (List.mem_cons_of_mem _ later)

theorem setAll_append (map : OrderedMap Key Value) (first second : List (Key × Value)) :
    map.setAll (first ++ second) = (map.setAll first).setAll second :=
  List.foldl_append

end OrderedMap

end Senars.Library
