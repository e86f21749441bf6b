/-
This file compares the two ways of asking whether two values are one: `deepEqual`,
which walks both, and `stableStringify`, which writes each as a text with its keys
in order.

The text is that of the value's canonical form: a zero has lost its sign, an
`undefined` is a `null` and as a member is not there. What the walk still tells apart
is exactly that, so the two ways agree unless two values of one canonical form differ
at such a place.
-/

import Senars.Library.JsonText

namespace Senars.Util

open Library

/-! ### Values -/

/-- A finite number, of which there are two zeros. -/
inductive FiniteNumber where
  | negativeZero
  | double (number : FiniteDouble)
  deriving DecidableEq

/-- A value as it is passed around. -/
inductive Value where
  | null
  | undefined
  | boolean (value : Bool)
  | number (value : FiniteNumber)
  | string (text : Units)
  | array (items : List Value)
  | object (members : List (Units × Value))

namespace Value

/-- `value === undefined`. -/
def isUndefined : Value → Bool
  | .undefined => true
  | _ => false

/-- No object within the value has a key twice. -/
inductive DistinctKeys : Value → Prop
  | null : DistinctKeys .null
  | undefined : DistinctKeys .undefined
  | boolean (value : Bool) : DistinctKeys (.boolean value)
  | number (value : FiniteNumber) : DistinctKeys (.number value)
  | string (text : Units) : DistinctKeys (.string text)
  | array {items : List Value} : (∀ item ∈ items, DistinctKeys item) → DistinctKeys (.array items)
  | object {members : List (Units × Value)} : (members.map Prod.fst).Nodup →
      (∀ member ∈ members, DistinctKeys member.2) → DistinctKeys (.object members)

theorem induction {motive : Value → Prop} (null : motive .null) (undefined : motive .undefined)
    (boolean : ∀ value, motive (.boolean value)) (number : ∀ value, motive (.number value))
    (string : ∀ text, motive (.string text))
    (array : ∀ items, (∀ item ∈ items, motive item) → motive (.array items))
    (object : ∀ members, (∀ member ∈ members, motive member.2) → motive (.object members))
    (value : Value) : motive value := by
  match value with
  | .null => exact null
  | .undefined => exact undefined
  | .boolean value => exact boolean value
  | .number value => exact number value
  | .string text => exact string text
  | .array items =>
    exact array items fun item _ =>
      induction null undefined boolean number string array object item
  | .object members =>
    refine object members fun member inside => ?_
    have smaller : sizeOf member.2 < sizeOf members := by
      have whole := List.sizeOf_lt_of_mem inside
      have part : sizeOf member.2 < sizeOf member := by
        obtain ⟨key, value⟩ := member
        simp only [Prod.mk.sizeOf_spec]
        omega
      exact part.trans whole
    exact induction null undefined boolean number string array object member.2
termination_by sizeOf value
decreasing_by
  all_goals simp_wf
  · have whole := List.sizeOf_lt_of_mem ‹_ ∈ items›
    omega
  · omega

end Value

/-- A value built from plain arrays and objects. -/
structure PlainValue where
  value : Value
  distinctKeys : value.DistinctKeys

/-! ### The digest -/

/-- The order of texts by `<`, which is by code units. -/
def byUnits : Comparison Units where
  le first second := decide (first ≤ second)
  total first second := by
    simpa only [decide_eq_true_eq] using le_total first second
  trans first second third forward next :=
    decide_eq_true ((of_decide_eq_true forward).trans (of_decide_eq_true next))

/-- Entries in the order of their keys. -/
def byKey (Content : Type) : Comparison (Units × Content) := byUnits.comap Prod.fst

/-- `JSON.stringify` of a finite number, which writes both zeros alike. -/
def numberJson : FiniteNumber → Json
  | .negativeZero => .number 0
  | .double number => .number number

mutual

/-- `stableStringify`. -/
def stableStringify (sortArrays : Bool) : Value → Units
  | .null => Json.null.text
  | .undefined => Json.null.text
  | .boolean value => (Json.bool value).text
  | .number value => (numberJson value).text
  | .string text => quoted text
  | .array items =>
    let written := stringifiedItems sortArrays items
    91 :: (commas (if sortArrays then byUnits.toSorted written else written) ++ [93])
  | .object members =>
    -- each value is written before the entries are sorted by key, and not after
    let entries := (byKey Units).toSorted (stringifiedEntries sortArrays members)
    123 :: (commas (entries.map Json.entryText) ++ [125])
  termination_by structural value => value

def stringifiedItems (sortArrays : Bool) : List Value → List Units
  | [] => []
  | item :: rest => stableStringify sortArrays item :: stringifiedItems sortArrays rest
  termination_by structural items => items

/-- The entries that are not `undefined`, each value as its text. -/
def stringifiedEntries (sortArrays : Bool) : List (Units × Value) → List (Units × Units)
  | [] => []
  | entry :: rest =>
    if entry.2.isUndefined then stringifiedEntries sortArrays rest
    else stringifiedEntry sortArrays entry :: stringifiedEntries sortArrays rest
  termination_by structural entries => entries

def stringifiedEntry (sortArrays : Bool) : Units × Value → Units × Units
  | (key, value) => (key, stableStringify sortArrays value)
  termination_by structural entry => entry

end

/-! ### The walk -/

/-- `definedKeys`. -/
def definedKeys (members : List (Units × Value)) : List Units :=
  (members.filter fun member => !member.2.isUndefined).map Prod.fst

/-- `value[key]`. -/
def memberAt (members : List (Units × Value)) (key : Units) : Value :=
  match members.find? fun member => member.1 = key with
  | some member => member.2
  | none => .undefined

mutual

/-- `deepEqual`. `Object.is` decides two values that are not both objects; of an object and
itself it only says sooner what the walk says as well. -/
def deepEqual : Value → Value → Bool
  | .null, .null => true
  | .undefined, .undefined => true
  | .boolean value, .boolean other => decide (value = other)
  | .number value, .number other => decide (value = other)
  | .string text, .string other => decide (text = other)
  | .array items, .array others => items.length == others.length && eachEqual items others
  | .object members, .object others =>
    -- the keys of an object are distinct, so the set of them is as large as their list
    (definedKeys members).length == (definedKeys others).length && everyEqual members others
  | _, _ => false
  termination_by structural value => value

/-- The loop over two arrays. -/
def eachEqual : List Value → List Value → Bool
  | item :: rest, other :: others => deepEqual item other && eachEqual rest others
  | _, _ => true
  termination_by structural items => items

/-- `left.every(..)` over the defined keys of the first object. -/
def everyEqual : List (Units × Value) → List (Units × Value) → Bool
  | [], _ => true
  | member :: rest, others =>
    (member.2.isUndefined || keyEqual member others) && everyEqual rest others
  termination_by structural members => members

def keyEqual : Units × Value → List (Units × Value) → Bool
  | (key, value), others =>
    (definedKeys others).contains key && deepEqual value (memberAt others key)
  termination_by structural member => member

end

/-! ### Canonical forms -/

/-- The members that are not `undefined`. -/
def definedMembers (members : List (Units × Value)) : List (Units × Value) :=
  members.filter fun member => !member.2.isUndefined

mutual

/-- What is left of a value when zeros have no sign, `undefined` is `null` and is no member, and
members have no order. -/
def canonical : Value → Json
  | .null => .null
  | .undefined => .null
  | .boolean value => .bool value
  | .number value => numberJson value
  | .string text => .string text
  | .array items => .array (canonicalItems items)
  | .object members => .object ((byKey Json).toSorted (canonicalMembers members))
  termination_by structural value => value

def canonicalItems : List Value → List Json
  | [] => []
  | item :: rest => canonical item :: canonicalItems rest
  termination_by structural items => items

def canonicalMembers : List (Units × Value) → List (Units × Json)
  | [] => []
  | member :: rest =>
    if member.2.isUndefined then canonicalMembers rest
    else canonicalMember member :: canonicalMembers rest
  termination_by structural members => members

def canonicalMember : Units × Value → Units × Json
  | (key, value) => (key, canonical value)
  termination_by structural member => member

end

theorem canonicalItems_eq (items : List Value) : canonicalItems items = items.map canonical := by
  induction items with
  | nil => rfl
  | cons item rest ih => rw [canonicalItems, List.map_cons, ih]

theorem canonicalMembers_eq (members : List (Units × Value)) :
    canonicalMembers members =
      (definedMembers members).map fun member => (member.1, canonical member.2) := by
  induction members with
  | nil => rfl
  | cons member rest ih =>
    obtain ⟨key, value⟩ := member
    cases absent : value.isUndefined with
    | true => simp [canonicalMembers, definedMembers, ih, absent]
    | false =>
      simp only [canonicalMembers, absent, ih, definedMembers, List.filter_cons,
        Bool.not_false, Bool.false_eq_true, if_false, if_true, List.map_cons]
      rfl

theorem stringifiedItems_eq (sortArrays : Bool) (items : List Value) :
    stringifiedItems sortArrays items = items.map (stableStringify sortArrays) := by
  induction items with
  | nil => rfl
  | cons item rest ih =>
    rw [stringifiedItems, List.map_cons, ih]

theorem stringifiedEntries_eq (sortArrays : Bool) (members : List (Units × Value)) :
    stringifiedEntries sortArrays members =
      (definedMembers members).map fun member =>
        (member.1, stableStringify sortArrays member.2) := by
  induction members with
  | nil => rfl
  | cons member rest ih =>
    obtain ⟨key, value⟩ := member
    cases absent : value.isUndefined with
    | true => simp [stringifiedEntries, definedMembers, ih, absent]
    | false =>
      simp only [stringifiedEntries, absent, ih, definedMembers,
        List.filter_cons, Bool.not_false, Bool.false_eq_true, if_false, if_true, List.map_cons]
      rfl

variable {members : List (Units × Value)} {items : List Value}

theorem mem_definedMembers {member} :
    member ∈ definedMembers members ↔ member ∈ members ∧ member.2.isUndefined = false := by
  rw [definedMembers, List.mem_filter, Bool.not_eq_true']

theorem stableStringify_eq (value : Value) :
    stableStringify false value = (canonical value).text := by
  induction value using Value.induction with
  | null | undefined | boolean | number | string => rfl
  | array items digests =>
    rw [stableStringify, canonical, Json.text, Json.itemTexts_eq, stringifiedItems_eq,
      canonicalItems_eq, List.map_map]
    rw [List.map_congr_left digests]
    rfl
  | object members digests =>
    have commutes : ∀ entries : List (Units × Json),
        ((byKey Json).toSorted entries).map (fun entry => (entry.1, entry.2.text)) =
          (byKey Units).toSorted (entries.map fun entry => (entry.1, entry.2.text)) :=
      Comparison.map_toSorted fun _ _ => rfl
    have entries : (canonicalMembers members).map (fun entry => (entry.1, entry.2.text)) =
        stringifiedEntries false members := by
      rw [canonicalMembers_eq, stringifiedEntries_eq, List.map_map]
      refine List.map_congr_left fun member inside => ?_
      show (member.1, (canonical member.2).text) = _
      rw [digests member (mem_definedMembers.mp inside).1]
    rw [stableStringify, canonical, Json.text, Json.memberTexts_eq, ← entries, ← commutes,
      List.map_map]
    rw [List.map_congr_left fun member _ => Json.memberText_eq member]
    rfl

theorem stableStringify_eq_iff (first second : Value) :
    stableStringify false first = stableStringify false second ↔
      canonical first = canonical second := by
  rw [stableStringify_eq, stableStringify_eq, Json.text_injective.eq_iff]

/-! ### Where the walk tells values apart that have one digest -/

/-- Two values hold, at the same place, zeros of different signs, or one `null` and the other
`undefined` where that is not a member's value. -/
inductive Differs : Value → Value → Prop
  | negative : Differs (.number .negativeZero) (.number (.double 0))
  | positive : Differs (.number (.double 0)) (.number .negativeZero)
  | absent : Differs .null .undefined
  | present : Differs .undefined .null
  | item {items others : List Value} {item other : Value} (index : ℕ) :
    items[index]? = some item → others[index]? = some other → Differs item other →
      Differs (.array items) (.array others)
  | member {members others : List (Units × Value)} {key : Units} {value other : Value} :
    (key, value) ∈ definedMembers members → (key, other) ∈ definedMembers others →
      Differs value other → Differs (.object members) (.object others)

theorem numberJson_eq_iff (first second : FiniteNumber) :
    first = second ↔
      numberJson first = numberJson second ∧
        ¬Differs (.number first) (.number second) := by
  constructor
  · rintro rfl
    refine ⟨rfl, fun differs => ?_⟩
    cases differs
  · rintro ⟨same, alike⟩
    cases first with
    | negativeZero =>
      cases second with
      | negativeZero => rfl
      | double number =>
        rw [← Json.number.inj same] at alike
        exact absurd Differs.negative alike
    | double number =>
      cases second with
      | negativeZero =>
        rw [Json.number.inj same] at alike
        exact absurd Differs.positive alike
      | double other => rw [Json.number.inj same]

theorem eachEqual_iff {others} (lengths : items.length = others.length) :
    eachEqual items others = true ↔
      ∀ (index : ℕ) (item other : Value), items[index]? = some item → others[index]? = some other →
        deepEqual item other = true := by
  induction items generalizing others with
  | nil =>
    cases others with
    | nil => simp [eachEqual]
    | cons other rest => cases lengths
  | cons item rest ih =>
    cases others with
    | nil => cases lengths
    | cons other later =>
      rw [eachEqual, Bool.and_eq_true, ih (Nat.succ.inj lengths)]
      constructor
      · rintro ⟨heads, tails⟩ index
        cases index with
        | zero =>
          rintro _ _ ⟨⟩ ⟨⟩
          exact heads
        | succ index => exact tails index
      · intro all
        exact ⟨all 0 item other rfl rfl, fun index => all (index + 1)⟩

theorem map_eq_map_iff_getElem {others : List Value} :
    items.map canonical = others.map canonical ↔
      items.length = others.length ∧
        ∀ (index : ℕ) (item other : Value), items[index]? = some item →
          others[index]? = some other → canonical item = canonical other := by
  constructor
  · intro same
    refine ⟨by simpa using congrArg List.length same, fun index item other first second => ?_⟩
    have at_index := congrArg (fun list => list[index]?) same
    simpa [first, second] using at_index
  · rintro ⟨lengths, each⟩
    refine List.ext_getElem? fun index => ?_
    rw [List.getElem?_map, List.getElem?_map]
    cases first : items[index]? with
    | none =>
      have beyond : others.length ≤ index := by
        rw [← lengths]
        exact List.getElem?_eq_none_iff.mp first
      rw [List.getElem?_eq_none_iff.mpr beyond]
    | some item =>
      obtain ⟨within, _⟩ := List.getElem?_eq_some_iff.mp first
      rw [lengths] at within
      rw [List.getElem?_eq_getElem within, Option.map_some, Option.map_some,
        each index item _ first (List.getElem?_eq_getElem within)]

/-- What the walk finds equal, for each value a given one may be compared with. -/
def Agrees (value : Value) : Prop :=
  ∀ other, other.DistinctKeys →
    (deepEqual value other = true ↔
      canonical value = canonical other ∧ ¬Differs value other)

theorem agrees_array (agrees : ∀ item ∈ items, Agrees item) : Agrees (.array items) := by
  intro other distinct
  cases other with
  | array others =>
    cases distinct with
    | array distinctItems =>
      rw [deepEqual, Bool.and_eq_true, beq_iff_eq, canonical, canonical, Json.array.injEq,
        canonicalItems_eq, canonicalItems_eq, map_eq_map_iff_getElem, and_assoc]
      refine and_congr_right fun lengths => ?_
      rw [eachEqual_iff lengths]
      have each : ∀ (index : ℕ) (item other : Value), items[index]? = some item →
          others[index]? = some other →
          (deepEqual item other = true ↔ canonical item = canonical other ∧ ¬Differs item other) :=
        fun index item other first second =>
          agrees item (List.mem_of_getElem? first) other
            (distinctItems other (List.mem_of_getElem? second))
      constructor
      · intro equal
        refine ⟨fun index item other first second =>
          ((each index item other first second).mp (equal index item other first second)).1, ?_⟩
        intro differs
        cases differs with
        | item index first second inside =>
          exact ((each index _ _ first second).mp (equal index _ _ first second)).2 inside
      · rintro ⟨same, alike⟩ index item other first second
        exact (each index item other first second).mpr ⟨same index item other first second,
          fun inside => alike (Differs.item index first second inside)⟩
  | number value => cases value <;> simp [deepEqual, canonical, numberJson]
  | null | undefined | boolean | string | object => simp [deepEqual, canonical]

/-! ### Objects -/

theorem nodup_definedMembers (distinct : (members.map Prod.fst).Nodup) :
    ((definedMembers members).map Prod.fst).Nodup :=
  distinct.sublist (List.filter_sublist.map Prod.fst)

theorem memberAt_eq (distinct : (members.map Prod.fst).Nodup) {key value}
    (member : (key, value) ∈ members) : memberAt members key = value := by
  have isThere : (members.find? fun other => decide (other.1 = key)).isSome = true :=
    List.find?_isSome.mpr ⟨(key, value), member, decide_eq_true rfl⟩
  obtain ⟨found, isFound⟩ := Option.isSome_iff_exists.mp isThere
  have foundKey : found.1 = key := by simpa using List.find?_some isFound
  have same : found = (key, value) :=
    List.inj_on_of_nodup_map distinct (List.mem_of_find?_eq_some isFound) member foundKey
  rw [memberAt, isFound, same]

theorem canonical_object_iff {others} (otherDistinct : (others.map Prod.fst).Nodup) :
    canonical (.object members) = canonical (.object others) ↔
      (canonicalMembers members).Perm (canonicalMembers others) := by
  rw [canonical, canonical, Json.object.injEq]
  constructor
  · intro same
    have first := (byKey Json).toSorted_perm (canonicalMembers members)
    rw [same] at first
    exact first.symm.trans ((byKey Json).toSorted_perm _)
  · intro same
    have keys : ((canonicalMembers others).map Prod.fst).Nodup := by
      rw [canonicalMembers_eq, List.map_map]
      exact nodup_definedMembers otherDistinct
    refine List.Perm.eq_of_pairwise ?_ ((byKey Json).toSorted_sorted _)
      ((byKey Json).toSorted_sorted _)
      (((byKey Json).toSorted_perm _).trans (same.trans ((byKey Json).toSorted_perm _).symm))
    intro first second firstMember secondMember forward backward
    rw [Comparison.mem_toSorted] at firstMember secondMember
    have sameKey : first.1 = second.1 :=
      le_antisymm (of_decide_eq_true forward) (of_decide_eq_true backward)
    exact List.inj_on_of_nodup_map keys (same.mem_iff.mp firstMember) secondMember sameKey

theorem everyEqual_iff {others} (otherDistinct : (others.map Prod.fst).Nodup) :
    everyEqual members others = true ↔
      ∀ key value, (key, value) ∈ definedMembers members →
        ∃ other, (key, other) ∈ definedMembers others ∧ deepEqual value other = true := by
  have one : ∀ key value, keyEqual (key, value) others = true ↔
      ∃ other, (key, other) ∈ definedMembers others ∧ deepEqual value other = true := by
    intro key value
    rw [keyEqual, Bool.and_eq_true, List.contains_iff_mem]
    constructor
    · rintro ⟨isKey, equal⟩
      obtain ⟨⟨found, other⟩, member, rfl⟩ := List.mem_map.mp isKey
      have inside := (mem_definedMembers.mp member).1
      rw [memberAt_eq otherDistinct inside] at equal
      exact ⟨other, member, equal⟩
    · rintro ⟨other, member, equal⟩
      refine ⟨List.mem_map.mpr ⟨(key, other), member, rfl⟩, ?_⟩
      rw [memberAt_eq otherDistinct (mem_definedMembers.mp member).1]
      exact equal
  induction members with
  | nil => simp [everyEqual, definedMembers]
  | cons member rest ih =>
    obtain ⟨key, value⟩ := member
    have tails : everyEqual rest others = true ↔ _ := ih
    rw [everyEqual, Bool.and_eq_true, Bool.or_eq_true, tails, one]
    cases absent : value.isUndefined with
    | true => simp [definedMembers, absent]
    | false =>
      simp only [definedMembers, List.filter_cons, absent, Bool.not_false, if_true, List.mem_cons,
        Prod.mk.injEq, Bool.false_eq_true, false_or]
      constructor
      · rintro ⟨heads, tails⟩ other content (⟨rfl, rfl⟩ | later)
        · exact heads
        · exact tails other content later
      · intro all
        exact ⟨all key value (Or.inl ⟨rfl, rfl⟩), fun other content later =>
          all other content (Or.inr later)⟩

theorem length_definedKeys (members : List (Units × Value)) :
    (definedKeys members).length = (canonicalMembers members).length := by
  rw [canonicalMembers_eq, List.length_map]
  exact List.length_map _

theorem mem_canonicalMembers {key json} :
    (key, json) ∈ canonicalMembers members ↔
      ∃ value, (key, value) ∈ definedMembers members ∧ canonical value = json := by
  rw [canonicalMembers_eq, List.mem_map]
  constructor
  · rintro ⟨⟨key, value⟩, member, same⟩
    cases same
    exact ⟨value, member, rfl⟩
  · rintro ⟨value, member, rfl⟩
    exact ⟨(key, value), member, rfl⟩

theorem nodup_canonicalMembers (distinct : (members.map Prod.fst).Nodup) :
    (canonicalMembers members).Nodup := by
  refine List.Nodup.of_map Prod.fst ?_
  rw [canonicalMembers_eq, List.map_map]
  exact nodup_definedMembers distinct

theorem agrees_object (distinct : (members.map Prod.fst).Nodup)
    (agrees : ∀ member ∈ members, Agrees member.2) : Agrees (.object members) := by
  intro other otherKeys
  cases other with
  | object others =>
    cases otherKeys with
    | object otherDistinct distinctMembers =>
      have each : ∀ key value other, (key, value) ∈ definedMembers members →
          (key, other) ∈ definedMembers others →
          (deepEqual value other = true ↔
            canonical value = canonical other ∧ ¬Differs value other) :=
        fun key value other first second =>
          agrees (key, value) (mem_definedMembers.mp first).1 other
            (distinctMembers (key, other) (mem_definedMembers.mp second).1)
      rw [canonical_object_iff otherDistinct, deepEqual, Bool.and_eq_true, beq_iff_eq,
        everyEqual_iff otherDistinct, length_definedKeys, length_definedKeys]
      constructor
      · rintro ⟨lengths, equal⟩
        constructor
        · have subset : canonicalMembers members ⊆ canonicalMembers others := by
            rintro ⟨key, json⟩ member
            obtain ⟨value, first, rfl⟩ := mem_canonicalMembers.mp member
            obtain ⟨other, second, same⟩ := equal key value first
            exact mem_canonicalMembers.mpr
              ⟨other, second, ((each key value other first second).mp same).1.symm⟩
          exact (List.subperm_of_subset (nodup_canonicalMembers distinct) subset).perm_of_length_le
            lengths.ge
        · intro differs
          cases differs with
          | member first second inside =>
            rename_i key value other
            obtain ⟨found, isFound, same⟩ := equal key value first
            have one : (key, found) = (key, other) :=
              List.inj_on_of_nodup_map (nodup_definedMembers otherDistinct) isFound second rfl
            cases one
            exact ((each key value other first second).mp same).2 inside
      · rintro ⟨same, alike⟩
        refine ⟨same.length_eq, fun key value first => ?_⟩
        have member := same.mem_iff.mp (mem_canonicalMembers.mpr ⟨value, first, rfl⟩)
        obtain ⟨other, second, forms⟩ := mem_canonicalMembers.mp member
        exact ⟨other, second, (each key value other first second).mpr
          ⟨forms.symm, fun inside => alike (Differs.member first second inside)⟩⟩
  | number value => cases value <;> simp [deepEqual, canonical, numberJson]
  | null | undefined | boolean | string | array => simp [deepEqual, canonical]

theorem agrees_of_distinctKeys (value : Value) (distinct : value.DistinctKeys) : Agrees value := by
  induction distinct with
  | null =>
    intro other _
    cases other with
    | null => simpa [deepEqual] using fun differs : Differs .null .null => by cases differs
    | undefined => simpa [deepEqual, canonical] using Differs.absent
    | number value => cases value <;> simp [deepEqual, canonical, numberJson]
    | boolean | string | array | object => simp [deepEqual, canonical]
  | undefined =>
    intro other _
    cases other with
    | undefined =>
      simpa [deepEqual] using fun differs : Differs .undefined .undefined => by cases differs
    | null => simpa [deepEqual, canonical] using Differs.present
    | number value => cases value <;> simp [deepEqual, canonical, numberJson]
    | boolean | string | array | object => simp [deepEqual, canonical]
  | boolean value =>
    intro other _
    cases other with
    | boolean other =>
      have alike : ¬Differs (.boolean value) (.boolean other) := fun differs => by cases differs
      simp [deepEqual, canonical, alike]
    | number value => cases value <;> simp [deepEqual, canonical, numberJson]
    | null | undefined | string | array | object => simp [deepEqual, canonical]
  | number value =>
    intro other _
    cases other with
    | number other =>
      rw [deepEqual, decide_eq_true_eq]
      exact numberJson_eq_iff value other
    | null | undefined | boolean | string | array | object =>
      cases value <;> simp [deepEqual, canonical, numberJson]
  | string text =>
    intro other _
    cases other with
    | string other =>
      have alike : ¬Differs (.string text) (.string other) := fun differs => by cases differs
      simp [deepEqual, canonical, alike]
    | number value => cases value <;> simp [deepEqual, canonical, numberJson]
    | null | undefined | boolean | array | object => simp [deepEqual, canonical]
  | array _ agrees => exact agrees_array agrees
  | object distinct _ agrees => exact agrees_object distinct agrees

/-! ### Equality and digest -/

/-- The walk and the digest agree on two values exactly when these have different canonical
forms, or differ at no place where the form does not tell them apart. -/
theorem deepEqual_agrees_iff (first second : PlainValue) :
    (deepEqual first.value second.value = true ↔
        stableStringify false first.value = stableStringify false second.value) ↔
      (canonical first.value = canonical second.value → ¬Differs first.value second.value) := by
  rw [agrees_of_distinctKeys first.value first.distinctKeys second.value second.distinctKeys,
    stableStringify_eq_iff]
  tauto

/-- The two zeros have one digest and are not equal. -/
theorem zeros_disagree :
    ¬∀ first second : PlainValue,
      (deepEqual first.value second.value = true ↔
        stableStringify false first.value = stableStringify false second.value) := by
  intro agree
  have equal : deepEqual (.number (.double 0)) (.number .negativeZero) = true :=
    (agree ⟨.number (.double 0), .number _⟩ ⟨.number .negativeZero, .number _⟩).mpr rfl
  cases equal

end Senars.Util
