/-
This file is the theory of stable sorting by a comparison that may tie.

A comparison totally preorders its arguments: any two are related, and the
relation is transitive, but two different arguments may be related both ways.
Sorting by it keeps tied arguments in the order they came in, so the sorted
list is a function of the argument list and not only of its elements. What it
depends on is exactly the order inside each tie class: two lists sort to the
same list if and only if they list the members of every tie class in the same
order.
-/

import Mathlib.Data.List.Sort
import Mathlib.Data.List.TakeWhile
import Senars.Library.Lists

namespace Senars.Library

/-! ### Comparisons -/

/-- A comparison that totally preorders a type. Different elements may tie. -/
structure Comparison (Value : Type) where
  /-- `le first second` holds when `first` does not sort after `second`. -/
  le : Value → Value → Bool
  total : ∀ first second, le first second = true ∨ le second first = true
  trans : ∀ first second third,
    le first second = true → le second third = true → le first third = true

namespace Comparison

variable {Value Key : Type}

theorem refl (comparison : Comparison Value) (value : Value) :
    comparison.le value value = true :=
  (comparison.total value value).elim id id

/-- Compare by a key read off each value. -/
def comap (comparison : Comparison Key) (key : Value → Key) : Comparison Value where
  le first second := comparison.le (key first) (key second)
  total first second := comparison.total (key first) (key second)
  trans first second third := comparison.trans (key first) (key second) (key third)

/-- Neither of two tied values sorts before the other. -/
def tied (comparison : Comparison Value) (first second : Value) : Bool :=
  comparison.le first second && comparison.le second first

theorem tied_iff (comparison : Comparison Value) (first second : Value) :
    comparison.tied first second = true ↔
      comparison.le first second = true ∧ comparison.le second first = true := by
  rw [tied, Bool.and_eq_true]

theorem tied_refl (comparison : Comparison Value) (value : Value) :
    comparison.tied value value = true :=
  (comparison.tied_iff value value).mpr ⟨comparison.refl value, comparison.refl value⟩

theorem le_of_tied (comparison : Comparison Value) {pivot first second}
    (firstTied : comparison.tied pivot first = true)
    (secondTied : comparison.tied pivot second = true) : comparison.le first second = true :=
  comparison.trans first pivot second ((comparison.tied_iff _ _).mp firstTied).2
    ((comparison.tied_iff _ _).mp secondTied).1

instance instTotal (comparison : Comparison Value) :
    Std.Total fun first second => comparison.le first second = true :=
  ⟨comparison.total⟩

instance instIsTrans (comparison : Comparison Value) :
    IsTrans Value fun first second => comparison.le first second = true :=
  ⟨comparison.trans⟩

/-! ### Sorting -/

/-- The stable sort of a list by a comparison. -/
def toSorted (comparison : Comparison Value) (values : List Value) : List Value :=
  values.insertionSort fun first second => comparison.le first second = true

/-- A list no element of which sorts after a later one. -/
def Sorted (comparison : Comparison Value) (values : List Value) : Prop :=
  values.Pairwise fun first second => comparison.le first second = true

theorem toSorted_perm (comparison : Comparison Value) (values : List Value) :
    (comparison.toSorted values).Perm values :=
  List.perm_insertionSort _ values

theorem toSorted_sorted (comparison : Comparison Value) (values : List Value) :
    comparison.Sorted (comparison.toSorted values) :=
  List.pairwise_insertionSort _ values

variable {comparison : Comparison Value} {values : List Value} {value : Value}

theorem Sorted.toSorted_eq (sorted : comparison.Sorted values) :
    comparison.toSorted values = values :=
  List.Pairwise.insertionSort_eq sorted

@[simp] theorem mem_toSorted : value ∈ comparison.toSorted values ↔ value ∈ values :=
  List.mem_insertionSort _

@[simp] theorem length_toSorted (comparison : Comparison Value) (values : List Value) :
    (comparison.toSorted values).length = values.length :=
  List.length_insertionSort _ values

theorem map_toSorted {Other} {order : Comparison Other} {toOther}
    (same : ∀ first second, comparison.le first second = order.le (toOther first) (toOther second))
    (values : List Value) :
    (comparison.toSorted values).map toOther = order.toSorted (values.map toOther) := by
  refine List.map_insertionSort _ _ _ values fun first _ second _ => ?_
  rw [same]

theorem toSorted_pair (comparison : Comparison Value) (first second : Value) :
    comparison.toSorted [first, second] = [first, second] ∨
      comparison.toSorted [first, second] = [second, first] := by
  simp only [toSorted, List.insertionSort_cons, List.insertionSort_nil, List.orderedInsert]
  split
  · exact .inl rfl
  · exact .inr rfl

theorem filter_toSorted (comparison : Comparison Value) (values : List Value) (pivot : Value) :
    (comparison.toSorted values).filter (comparison.tied pivot) =
      values.filter (comparison.tied pivot) := by
  have kept : (values.filter (comparison.tied pivot)).Sublist
      ((comparison.toSorted values).filter (comparison.tied pivot)) := by
    have order : (values.filter (comparison.tied pivot)).Pairwise
        fun first second => comparison.le first second = true :=
      List.pairwise_of_forall_mem_list fun first firstMember second secondMember =>
        comparison.le_of_tied (List.mem_filter.mp firstMember).2
          (List.mem_filter.mp secondMember).2
    have inside := List.sublist_insertionSort order List.filter_sublist
    have filtered := inside.filter (comparison.tied pivot)
    rwa [List.filter_filter, funext fun value => Bool.and_self _] at filtered
  exact (kept.eq_of_length
    (((comparison.toSorted_perm values).filter _).length_eq).symm).symm

theorem Sorted.eq_of_filter_tied {comparison : Comparison Value} :
    ∀ {first second : List Value}, comparison.Sorted first → comparison.Sorted second →
      (∀ pivot, first.filter (comparison.tied pivot) = second.filter (comparison.tied pivot)) →
      first = second
  | [], [], _, _, _ => rfl
  | [], head :: tail, _, _, same => by
    have found := same head
    rw [List.filter_cons_of_pos (comparison.tied_refl head)] at found
    exact absurd found (by simp)
  | head :: tail, [], _, _, same => by
    have found := same head
    rw [List.filter_cons_of_pos (comparison.tied_refl head)] at found
    exact absurd found (by simp)
  | left :: lefts, right :: rights, leftSorted, rightSorted, same => by
    have leftHead := List.pairwise_cons.mp leftSorted
    have rightHead := List.pairwise_cons.mp rightSorted
    -- Each head occurs in the other list, so neither sorts after the other.
    have leftMember : left ∈ right :: rights := by
      have found : left ∈ (left :: lefts).filter (comparison.tied left) :=
        List.mem_filter.mpr ⟨List.mem_cons_self, comparison.tied_refl left⟩
      rw [same left] at found
      exact (List.mem_filter.mp found).1
    have rightMember : right ∈ left :: lefts := by
      have found : right ∈ (right :: rights).filter (comparison.tied right) :=
        List.mem_filter.mpr ⟨List.mem_cons_self, comparison.tied_refl right⟩
      rw [← same right] at found
      exact (List.mem_filter.mp found).1
    have forward : comparison.le right left = true := by
      rcases List.mem_cons.mp leftMember with equal | member
      · rw [equal]
        exact comparison.refl right
      · exact rightHead.1 left member
    have backward : comparison.le left right = true := by
      rcases List.mem_cons.mp rightMember with equal | member
      · rw [equal]
        exact comparison.refl left
      · exact leftHead.1 right member
    have tie : comparison.tied left right = true :=
      (comparison.tied_iff left right).mpr ⟨backward, forward⟩
    have heads := same left
    rw [List.filter_cons_of_pos (comparison.tied_refl left),
      List.filter_cons_of_pos tie, List.cons.injEq] at heads
    obtain ⟨equal, _⟩ := heads
    subst equal
    refine congrArg (left :: ·) (Sorted.eq_of_filter_tied leftHead.2 rightHead.2 fun pivot => ?_)
    have inner := same pivot
    by_cases here : comparison.tied pivot left = true
    · rw [List.filter_cons_of_pos here, List.filter_cons_of_pos here, List.cons.injEq] at inner
      exact inner.2
    · rwa [List.filter_cons_of_neg here, List.filter_cons_of_neg here] at inner

theorem Sorted.sublist {comparison : Comparison Value} {part values}
    (sorted : comparison.Sorted values) (below : part.Sublist values) : comparison.Sorted part :=
  List.Pairwise.sublist below sorted

theorem toSorted_toSorted (comparison : Comparison Value) (values : List Value) :
    comparison.toSorted (comparison.toSorted values) = comparison.toSorted values :=
  (comparison.toSorted_sorted values).toSorted_eq

theorem toSorted_filter (comparison : Comparison Value) (keep : Value → Bool)
    (values : List Value) :
    comparison.toSorted (values.filter keep) = (comparison.toSorted values).filter keep := by
  refine (comparison.toSorted_sorted _).eq_of_filter_tied
    ((comparison.toSorted_sorted values).sublist List.filter_sublist) fun pivot => ?_
  rw [comparison.filter_toSorted, List.filter_comm, ← comparison.filter_toSorted,
    List.filter_comm]

theorem toSorted_uniqueBy [DecidableEq Value] (comparison : Comparison Value)
    (values : List Value) :
    comparison.toSorted (uniqueBy id values) = uniqueBy id (comparison.toSorted values) := by
  have below := uniqueByFrom_sublist id [] (comparison.toSorted values)
  refine (comparison.toSorted_sorted _).eq_of_filter_tied
    ((comparison.toSorted_sorted values).sublist below) fun pivot => ?_
  have respects : ∀ first second, id first = id second →
      comparison.tied pivot first = comparison.tied pivot second :=
    fun _ _ same => congrArg (comparison.tied pivot) same
  rw [comparison.filter_toSorted, filter_uniqueBy id respects, filter_uniqueBy id respects,
    comparison.filter_toSorted]

theorem getLast?_toSorted {last} (isLast : values.getLast? = some last)
    (greatest : ∀ value ∈ values, comparison.le value last = true) :
    (comparison.toSorted values).getLast? = some last := by
  obtain ⟨before, rfl⟩ := List.getLast?_eq_some_iff.mp isLast
  have sorted : comparison.Sorted (comparison.toSorted before ++ [last]) := by
    refine List.pairwise_append.mpr ⟨comparison.toSorted_sorted before,
      List.pairwise_singleton _ _, fun value isValue other isOther => ?_⟩
    rw [List.mem_singleton.mp isOther]
    exact greatest value (List.mem_append_left _ (mem_toSorted.mp isValue))
  have same : comparison.toSorted (before ++ [last]) = comparison.toSorted before ++ [last] := by
    refine (comparison.toSorted_sorted _).eq_of_filter_tied sorted fun pivot => ?_
    rw [filter_toSorted, List.filter_append, List.filter_append, filter_toSorted]
  rw [same, List.getLast?_concat]

theorem le_of_getLast?_toSorted {last}
    (isLast : (comparison.toSorted values).getLast? = some last) (isValue : value ∈ values) :
    comparison.le value last = true := by
  obtain ⟨before, split⟩ := List.getLast?_eq_some_iff.mp isLast
  have sorted := comparison.toSorted_sorted values
  have inside : value ∈ comparison.toSorted values := mem_toSorted.mpr isValue
  rw [split] at sorted inside
  rcases List.mem_append.mp inside with early | final
  · exact (List.pairwise_append.mp sorted).2.2 value early last (List.mem_singleton_self last)
  · rw [List.mem_singleton.mp final]
    exact comparison.refl last

theorem flatMap_filter_eq_toSorted [DecidableEq Key] (comparison : Comparison Key)
    (keyOf : Value → Key) {keys} (sorted : comparison.Sorted keys) (distinct : keys.Nodup)
    (apart : ∀ first ∈ keys, ∀ second ∈ keys, comparison.tied first second = true → first = second)
    (covers : ∀ value ∈ values, keyOf value ∈ keys) :
    keys.flatMap (fun key => values.filter (keyOf · = key)) =
      (comparison.comap keyOf).toSorted values := by
  have inOrder : (comparison.comap keyOf).Sorted
      (keys.flatMap fun key => values.filter (keyOf · = key)) := by
    refine List.pairwise_flatMap.mpr ⟨fun key _ => ?_, sorted.imp fun {first second} forward => ?_⟩
    · refine List.pairwise_of_forall_mem_list fun one isOne other isOther => ?_
      show comparison.le (keyOf one) (keyOf other) = true
      rw [of_decide_eq_true (List.mem_filter.mp isOne).2,
        of_decide_eq_true (List.mem_filter.mp isOther).2]
      exact comparison.refl key
    · intro one isOne other isOther
      show comparison.le (keyOf one) (keyOf other) = true
      rw [of_decide_eq_true (List.mem_filter.mp isOne).2,
        of_decide_eq_true (List.mem_filter.mp isOther).2]
      exact forward
  refine inOrder.eq_of_filter_tied ((comparison.comap keyOf).toSorted_sorted values) fun pivot => ?_
  rw [filter_toSorted, List.filter_flatMap]
  -- a key gives something of the pivot's class only where it is tied with the pivot's
  have none : ∀ key ∈ keys, comparison.tied (keyOf pivot) key = false →
      (values.filter (keyOf · = key)).filter ((comparison.comap keyOf).tied pivot) = [] := by
    intro key _ untied
    refine List.filter_eq_nil_iff.mpr fun value isValue tie => ?_
    have same : keyOf value = key := of_decide_eq_true (List.mem_filter.mp isValue).2
    have tie : comparison.tied (keyOf pivot) (keyOf value) = true := tie
    rw [same, untied] at tie
    cases tie
  by_cases tiedKey : ∃ key ∈ keys, comparison.tied (keyOf pivot) key = true
  · obtain ⟨key, inKeys, tie⟩ := tiedKey
    obtain ⟨index, atIndex⟩ := List.mem_iff_getElem?.mp inKeys
    rw [flatMap_eq_of_alone atIndex, List.filter_filter]
    · refine List.filter_congr fun value isValue => ?_
      rw [Bool.eq_iff_iff, Bool.and_eq_true, decide_eq_true_eq]
      refine ⟨fun both => both.1, fun tieValue => ⟨tieValue, ?_⟩⟩
      have closed := comparison.le_of_tied tieValue tie
      have closed' := comparison.le_of_tied tie tieValue
      exact apart _ (covers value isValue) key inKeys
        ((comparison.tied_iff _ _).mpr ⟨closed, closed'⟩)
    · intro other another different found
      refine none another (List.mem_of_getElem? found) (Bool.eq_false_iff.mpr fun tieOther => ?_)
      have same := apart another (List.mem_of_getElem? found) key inKeys
        ((comparison.tied_iff _ _).mpr
          ⟨comparison.le_of_tied tieOther tie, comparison.le_of_tied tie tieOther⟩)
      rw [same] at found
      have inside : other < keys.length := (List.getElem?_eq_some_iff.mp found).1
      exact different ((List.getElem?_inj inside distinct).mp (found.trans atIndex.symm))
  · have untied : ∀ key ∈ keys, comparison.tied (keyOf pivot) key = false :=
      fun key inKeys => Bool.eq_false_iff.mpr fun tie => tiedKey ⟨key, inKeys, tie⟩
    rw [List.flatMap_eq_nil_iff.mpr fun key inKeys => none key inKeys (untied key inKeys)]
    refine (List.filter_eq_nil_iff.mpr fun value isValue tie => ?_).symm
    have tie : comparison.tied (keyOf pivot) (keyOf value) = true := tie
    rw [untied _ (covers value isValue)] at tie
    cases tie

theorem toSorted_eq_toSorted_iff (comparison : Comparison Value) (first second : List Value) :
    comparison.toSorted first = comparison.toSorted second ↔
      ∀ pivot, first.filter (comparison.tied pivot) = second.filter (comparison.tied pivot) := by
  constructor
  · intro same pivot
    rw [← comparison.filter_toSorted first, same, comparison.filter_toSorted second]
  · intro same
    refine (comparison.toSorted_sorted first).eq_of_filter_tied
      (comparison.toSorted_sorted second) fun pivot => ?_
    rw [comparison.filter_toSorted, comparison.filter_toSorted]
    exact same pivot

theorem toSorted_perm_iff (comparison : Comparison Value) (values : List Value) :
    (∀ permuted : List Value, permuted.Perm values →
        comparison.toSorted permuted = comparison.toSorted values) ↔
      ∀ first ∈ values, ∀ second ∈ values,
        comparison.tied first second = true → first = second := by
  constructor
  · intro same first firstMember second secondMember tie
    by_contra different
    classical
    obtain ⟨others, perm⟩ : ∃ others, values.Perm (first :: second :: others) := by
      refine ⟨(values.erase first).erase second, (List.perm_cons_erase firstMember).trans ?_⟩
      exact (List.perm_cons_erase
        ((List.mem_erase_of_ne (Ne.symm different)).mpr secondMember)).cons first
    -- Listing the two the other way round is a permutation that shows in their tie class.
    have swapped := (same _ perm.symm).trans (same _ ((List.Perm.swap first second others).trans
      perm.symm)).symm
    have heads := (comparison.toSorted_eq_toSorted_iff _ _).mp swapped first
    rw [List.filter_cons_of_pos (comparison.tied_refl first), List.filter_cons_of_pos tie,
      List.filter_cons_of_pos tie] at heads
    exact different (List.cons.inj heads).1
  · intro only permuted perm
    refine List.Perm.eq_of_pairwise ?_ (comparison.toSorted_sorted permuted)
      (comparison.toSorted_sorted values) (((comparison.toSorted_perm permuted).trans perm).trans
        (comparison.toSorted_perm values).symm)
    intro first second firstMember secondMember forward backward
    exact only first (perm.subset (mem_toSorted.mp firstMember)) second
      (mem_toSorted.mp secondMember) ((comparison.tied_iff first second).mpr ⟨forward, backward⟩)

/-! ### One more value -/

theorem Sorted.of_mem_dropWhile {other} (sorted : comparison.Sorted values)
    (member : other ∈ values.dropWhile (comparison.le · value)) :
    comparison.le other value = false := by
  induction values with
  | nil => cases member
  | cons first rest ih =>
    obtain ⟨before, later⟩ := List.pairwise_cons.mp sorted
    by_cases goes : comparison.le first value = true
    · rw [List.dropWhile_cons, if_pos goes] at member
      exact ih later member
    · rw [List.dropWhile_cons, if_neg goes] at member
      by_contra reaches
      rcases List.mem_cons.mp member with rfl | isLater
      · exact goes (by simpa using reaches)
      · exact goes (comparison.trans _ _ _ (before other isLater) (by simpa using reaches))

theorem Sorted.toSorted_concat (sorted : comparison.Sorted values) (value : Value) :
    comparison.toSorted (values ++ [value]) =
      values.takeWhile (comparison.le · value) ++
        value :: values.dropWhile (comparison.le · value) := by
  have parts : values.takeWhile (comparison.le · value) ++
      values.dropWhile (comparison.le · value) = values := List.takeWhile_append_dropWhile
  refine (comparison.toSorted_sorted _).eq_of_filter_tied ?_ fun pivot => ?_
  · refine List.pairwise_append.mpr ⟨sorted.sublist (List.takeWhile_sublist _),
      List.pairwise_cons.mpr ⟨fun later isLater => ?_, sorted.sublist (List.dropWhile_sublist _)⟩,
      fun first isFirst other isOther => ?_⟩
    · have after := sorted.of_mem_dropWhile isLater
      exact (comparison.total value later).resolve_right (by simp [after])
    · have goes : comparison.le first value = true := by
        simpa using List.mem_takeWhile_imp isFirst
      rcases List.mem_cons.mp isOther with rfl | isLater
      · exact goes
      · have after := sorted.of_mem_dropWhile isLater
        exact comparison.trans _ _ _ goes
          ((comparison.total value other).resolve_right (by simp [after]))
  · rw [comparison.filter_toSorted, List.filter_append, List.filter_append, List.filter_cons,
      List.filter_cons]
    nth_rewrite 1 [← parts]
    rw [List.filter_append, List.append_assoc]
    by_cases tie : comparison.tied pivot value = true
    · -- What is tied with the value comes before it.
      have none :
          (values.dropWhile (comparison.le · value)).filter (comparison.tied pivot) = [] := by
        refine List.filter_eq_nil_iff.mpr fun other member tiedOther => ?_
        have after := sorted.of_mem_dropWhile member
        rw [comparison.le_of_tied tiedOther tie] at after
        cases after
      rw [none, if_pos tie, if_pos tie]
      rfl
    · rw [if_neg tie, if_neg tie, List.filter_nil, List.append_nil]

theorem take_insert_take (goes : Value → Bool) (value : Value) (values : List Value) (count : ℕ) :
    ((values.take count).takeWhile goes ++ value :: (values.take count).dropWhile goes).take count =
      (values.takeWhile goes ++ value :: values.dropWhile goes).take count := by
  induction values generalizing count with
  | nil => simp
  | cons first rest ih =>
    cases count with
    | zero => rfl
    | succ count =>
      rw [List.take_succ_cons]
      by_cases before : goes first = true
      · rw [List.takeWhile_cons_of_pos before, List.takeWhile_cons_of_pos before,
          List.dropWhile_cons_of_pos before, List.dropWhile_cons_of_pos before, List.cons_append,
          List.cons_append, List.take_succ_cons, List.take_succ_cons, ih]
      · rw [List.takeWhile_cons_of_neg before, List.takeWhile_cons_of_neg before,
          List.dropWhile_cons_of_neg before, List.dropWhile_cons_of_neg before, List.nil_append,
          List.nil_append, List.take_succ_cons, List.take_succ_cons]
        cases count with
        | zero => rfl
        | succ count =>
          rw [List.take_succ_cons, List.take_succ_cons, List.take_take, min_eq_left (by omega)]

theorem Sorted.take_toSorted_concat (sorted : comparison.Sorted values) (value : Value)
    (count : ℕ) :
    (comparison.toSorted (values.take count ++ [value])).take count =
      (comparison.toSorted (values ++ [value])).take count := by
  rw [sorted.toSorted_concat, (sorted.sublist (List.take_sublist _ _)).toSorted_concat,
    take_insert_take]

theorem toSorted_toSorted_append (comparison : Comparison Value) (first second : List Value) :
    comparison.toSorted (comparison.toSorted first ++ second) =
      comparison.toSorted (first ++ second) := by
  refine (comparison.toSorted_eq_toSorted_iff _ _).mpr fun pivot => ?_
  rw [List.filter_append, List.filter_append, comparison.filter_toSorted]

theorem Sorted.take_toSorted_append (sorted : comparison.Sorted values) (more : List Value)
    (count : ℕ) :
    (comparison.toSorted (values.take count ++ more)).take count =
      (comparison.toSorted (values ++ more)).take count := by
  induction more generalizing values with
  | nil =>
    rw [List.append_nil, List.append_nil, sorted.toSorted_eq,
      (sorted.sublist (List.take_sublist _ _)).toSorted_eq, List.take_take, min_self]
  | cons value more ih =>
    have split : ∀ firsts : List Value, comparison.toSorted (firsts ++ value :: more) =
        comparison.toSorted (comparison.toSorted (firsts ++ [value]) ++ more) := fun firsts => by
      rw [comparison.toSorted_toSorted_append, List.append_assoc, List.singleton_append]
    rw [split, split, ← ih (comparison.toSorted_sorted _),
      sorted.take_toSorted_concat, ih (comparison.toSorted_sorted _)]

end Comparison

end Senars.Library
