/-
This file is the small theory of two list operations that keys and normal forms
are made with: keeping the first element of every key, and joining texts with a
separator.
-/

import Mathlib.Data.List.Forall2
import Mathlib.Data.List.MinMax
import Mathlib.Data.List.Nodup
import Mathlib.Data.List.Perm.Subperm

namespace Senars.Library

/-! ### Keeping the first element of every key -/

section UniqueBy

variable {Value Key : Type} [DecidableEq Key]

/-- The elements whose key is not among `seen` and not the key of an earlier element. -/
def uniqueByFrom (key : Value → Key) : List Key → List Value → List Value
  | _, [] => []
  | seen, value :: rest =>
    if key value ∈ seen then uniqueByFrom key seen rest
    else value :: uniqueByFrom key (key value :: seen) rest

/-- The first element of every key, in order. -/
def uniqueBy (key : Value → Key) (values : List Value) : List Value :=
  uniqueByFrom key [] values

theorem uniqueByFrom_sublist (key : Value → Key) (seen : List Key) (values : List Value) :
    (uniqueByFrom key seen values).Sublist values := by
  induction values generalizing seen with
  | nil => exact List.Sublist.refl _
  | cons value rest ih =>
    unfold uniqueByFrom
    split
    · exact (ih seen).cons value
    · exact (ih _).cons_cons value

variable {values : List Value} {key : Value → Key} {value : Value}

theorem mem_of_mem_uniqueBy (member : value ∈ uniqueBy key values) : value ∈ values :=
  (uniqueByFrom_sublist key [] values).subset member

theorem uniqueByFrom_notMem (key : Value → Key) (seen : List Key) (values : List Value) :
    ∀ value ∈ uniqueByFrom key seen values, key value ∉ seen := by
  induction values generalizing seen with
  | nil => simp [uniqueByFrom]
  | cons head rest ih =>
    intro value member
    unfold uniqueByFrom at member
    split at member
    · exact ih seen value member
    · rename_i fresh
      rcases List.mem_cons.mp member with rfl | tail
      · exact fresh
      · exact fun old => ih _ value tail (List.mem_cons_of_mem _ old)

theorem uniqueByFrom_nodup (key : Value → Key) (seen : List Key) (values : List Value) :
    ((uniqueByFrom key seen values).map key).Nodup := by
  induction values generalizing seen with
  | nil => exact List.nodup_nil
  | cons head rest ih =>
    unfold uniqueByFrom
    split
    · exact ih seen
    · rw [List.map_cons, List.nodup_cons]
      refine ⟨fun old => ?_, ih _⟩
      obtain ⟨value, member, same⟩ := List.mem_map.mp old
      exact uniqueByFrom_notMem key _ rest value member (same ▸ List.mem_cons_self)

theorem uniqueBy_nodup (key : Value → Key) (values : List Value) :
    ((uniqueBy key values).map key).Nodup :=
  uniqueByFrom_nodup key [] values

theorem uniqueByFrom_covers (key : Value → Key) (seen : List Key) (values : List Value) :
    ∀ value ∈ values, key value ∈ seen ∨
      ∃ kept ∈ uniqueByFrom key seen values, key kept = key value := by
  induction values generalizing seen with
  | nil => simp
  | cons head rest ih =>
    intro value member
    unfold uniqueByFrom
    split
    · rename_i old
      rcases List.mem_cons.mp member with rfl | tail
      · exact Or.inl old
      · exact ih seen value tail
    · rcases List.mem_cons.mp member with rfl | tail
      · exact Or.inr ⟨value, List.mem_cons_self, rfl⟩
      · rcases ih (key head :: seen) value tail with known | ⟨kept, found, same⟩
        · rcases List.mem_cons.mp known with equal | old
          · exact Or.inr ⟨head, List.mem_cons_self, equal.symm⟩
          · exact Or.inl old
        · exact Or.inr ⟨kept, List.mem_cons_of_mem _ found, same⟩

theorem uniqueBy_covers (key : Value → Key) (member : value ∈ values) :
    ∃ kept ∈ uniqueBy key values, key kept = key value :=
  (uniqueByFrom_covers key [] values value member).resolve_left (List.not_mem_nil)

theorem uniqueByFrom_congr (key : Value → Key) {first second}
    (same : ∀ value ∈ values, key value ∈ first ↔ key value ∈ second) :
    uniqueByFrom key first values = uniqueByFrom key second values := by
  induction values generalizing first second with
  | nil => rfl
  | cons head rest ih =>
    have here := same head List.mem_cons_self
    have later : ∀ value ∈ rest, key value ∈ first ↔ key value ∈ second :=
      fun value member => same value (List.mem_cons_of_mem _ member)
    have next : ∀ value ∈ rest, key value ∈ key head :: first ↔ key value ∈ key head :: second :=
      fun value member => by rw [List.mem_cons, List.mem_cons, later value member]
    simp only [uniqueByFrom, here, ih later, ih next]

theorem uniqueByFrom_append (key : Value → Key) (seen : List Key) (first second : List Value) :
    uniqueByFrom key seen (first ++ second) =
      uniqueByFrom key seen first ++ uniqueByFrom key (first.map key ++ seen) second := by
  induction first generalizing seen with
  | nil => rfl
  | cons head rest ih =>
    rw [List.cons_append, uniqueByFrom, uniqueByFrom, ih, ih]
    split
    · rename_i old
      refine congrArg _ (uniqueByFrom_congr key fun value _ => ?_)
      simp only [List.map_cons, List.cons_append, List.mem_cons, List.mem_append]
      constructor
      · exact Or.inr
      · rintro (same | found)
        · exact Or.inr (same ▸ old)
        · exact found
    · refine congrArg _ (congrArg _ (uniqueByFrom_congr key fun value _ => ?_))
      simp only [List.map_cons, List.cons_append, List.mem_cons, List.mem_append]
      exact or_left_comm

theorem uniqueByFrom_eq_nil (key : Value → Key) (seen : List Key)
    (known : ∀ value ∈ values, key value ∈ seen) : uniqueByFrom key seen values = [] :=
  List.eq_nil_iff_forall_not_mem.mpr fun value member =>
    uniqueByFrom_notMem key seen values value member
      (known value ((uniqueByFrom_sublist key seen values).subset member))

theorem uniqueBy_eq_self (nodup : (values.map key).Nodup) : uniqueBy key values = values := by
  rw [uniqueBy]
  induction values with
  | nil => rfl
  | cons head rest ih =>
    obtain ⟨apart, restNodup⟩ := List.nodup_cons.mp nodup
    have unseen : ∀ value ∈ rest, key value ∈ [key head] ↔ key value ∈ [] :=
      fun value member => iff_of_false
        (fun same => apart (List.mem_singleton.mp same ▸ List.mem_map_of_mem member))
        List.not_mem_nil
    rw [uniqueByFrom, if_neg List.not_mem_nil, uniqueByFrom_congr key unseen,
      ih restNodup]

theorem uniqueBy_append_of_mem [DecidableEq Value] {more} (distinct : values.Nodup)
    (known : ∀ value ∈ more, value ∈ values) : uniqueBy id (values ++ more) = values := by
  have first : uniqueByFrom id [] values = values := uniqueBy_eq_self (by rwa [List.map_id])
  rw [uniqueBy, uniqueByFrom_append, first, uniqueByFrom_eq_nil, List.append_nil]
  intro value member
  rw [List.map_id]
  exact List.mem_append_left _ (known value member)

theorem filter_uniqueByFrom (key : Value → Key) {keep}
    (respects : ∀ first second, key first = key second → keep first = keep second)
    (seen : List Key) (values : List Value) :
    (uniqueByFrom key seen values).filter keep = uniqueByFrom key seen (values.filter keep) := by
  induction values generalizing seen with
  | nil => rfl
  | cons head rest ih =>
    by_cases kept : keep head = true
    · rw [List.filter_cons_of_pos kept, uniqueByFrom, uniqueByFrom]
      split
      · exact ih seen
      · rw [List.filter_cons_of_pos kept, ih]
    · -- A dropped element's key is the key of no element that stays.
      have absent : ∀ value ∈ rest.filter keep,
          key value ∈ key head :: seen ↔ key value ∈ seen := by
        intro value member
        have different : key value ≠ key head := fun same =>
          kept (respects value head same ▸ (List.mem_filter.mp member).2)
        rw [List.mem_cons, or_iff_right different]
      rw [List.filter_cons_of_neg kept, uniqueByFrom]
      split
      · exact ih seen
      · rw [List.filter_cons_of_neg kept, ih, uniqueByFrom_congr key absent]

theorem filter_uniqueBy (key : Value → Key) {keep}
    (respects : ∀ first second, key first = key second → keep first = keep second)
    (values : List Value) : (uniqueBy key values).filter keep = uniqueBy key (values.filter keep) :=
  filter_uniqueByFrom key respects [] values

theorem uniqueByFrom_flatMap {Other} [DecidableEq Value] (key : Other → Key)
    (expand : Value → List Other) (seen : List Value) (expanded : List Key)
    (known : ∀ value ∈ seen, ∀ other ∈ expand value, key other ∈ expanded) (values : List Value) :
    uniqueByFrom key expanded ((uniqueByFrom id seen values).flatMap expand) =
      uniqueByFrom key expanded (values.flatMap expand) := by
  induction values generalizing seen expanded with
  | nil => rfl
  | cons head rest ih =>
    rw [uniqueByFrom, List.flatMap_cons, uniqueByFrom_append]
    split
    · rename_i old
      rw [uniqueByFrom_eq_nil key expanded (known head old), List.nil_append,
        ih seen expanded known]
      refine uniqueByFrom_congr key fun other _ => ?_
      rw [List.mem_append, or_iff_right_of_imp]
      intro found
      obtain ⟨inner, member, same⟩ := List.mem_map.mp found
      exact same ▸ known head old inner member
    · rw [List.flatMap_cons, uniqueByFrom_append]
      refine congrArg _ (ih (head :: seen) _ fun value member other inside => ?_)
      rw [List.mem_append]
      rcases List.mem_cons.mp member with rfl | old
      · exact Or.inl (List.mem_map_of_mem inside)
      · exact Or.inr (known value old other inside)

theorem uniqueBy_flatMap_uniqueBy {Other} [DecidableEq Value] (key : Other → Key)
    (expand : Value → List Other) (values : List Value) :
    uniqueBy key ((uniqueBy id values).flatMap expand) = uniqueBy key (values.flatMap expand) :=
  uniqueByFrom_flatMap key expand [] []
    (fun _ member => absurd member List.not_mem_nil) values

theorem mem_uniqueBy_id [DecidableEq Value] : value ∈ uniqueBy id values ↔ value ∈ values := by
  refine ⟨mem_of_mem_uniqueBy, fun member => ?_⟩
  obtain ⟨kept, found, same⟩ := uniqueBy_covers id member
  have equal : kept = value := same
  exact equal ▸ found

theorem mem_uniqueByFrom_append {first : List Value} (nodup : (first.map key).Nodup)
    (second : List Value) (seen : List Key) (fresh : ∀ value ∈ first, key value ∉ seen) :
    ∀ value ∈ first, value ∈ uniqueByFrom key seen (first ++ second) := by
  induction first generalizing seen with
  | nil => exact fun value member => absurd member List.not_mem_nil
  | cons head rest ih =>
    obtain ⟨headFresh, restNodup⟩ := List.nodup_cons.mp nodup
    intro value member
    rw [List.cons_append, uniqueByFrom, if_neg (fresh head List.mem_cons_self)]
    rcases List.mem_cons.mp member with rfl | later
    · exact List.mem_cons_self
    · refine List.mem_cons_of_mem _ (ih restNodup _ (fun other inside => ?_) value
        later)
      rw [List.mem_cons, not_or]
      exact ⟨fun same => headFresh (same ▸ List.mem_map_of_mem inside),
        fresh other (List.mem_cons_of_mem _ inside)⟩

theorem mem_uniqueBy_append {first} (nodup : (first.map key).Nodup) (second : List Value)
    (member : value ∈ first) : value ∈ uniqueBy key (first ++ second) :=
  mem_uniqueByFrom_append nodup second [] (fun _ _ => List.not_mem_nil) value member

theorem filter_key_eq_singleton (nodup : (values.map key).Nodup) (member : value ∈ values) :
    values.filter (fun other => key other = key value) = [value] := by
  induction values with
  | nil => exact absurd member List.not_mem_nil
  | cons head rest ih =>
    obtain ⟨apart, restNodup⟩ := List.nodup_cons.mp nodup
    rcases List.mem_cons.mp member with rfl | inside
    · have none : rest.filter (fun other => key other = key value) = [] := by
        refine List.filter_eq_nil_iff.mpr fun other there same => ?_
        exact apart (of_decide_eq_true same ▸ List.mem_map_of_mem there)
      rw [List.filter_cons_of_pos (by simp), none]
    · have different : key head ≠ key value := fun same => apart (same ▸ List.mem_map_of_mem inside)
      rw [List.filter_cons_of_neg (by simpa using different),
        ih restNodup inside]

end UniqueBy

/-! ### Joining texts -/

/-- The texts of a list with a separator between each two. -/
def join (separator : String) : List String → String
  | [] => ""
  | [text] => text
  | text :: next :: rest => text ++ separator ++ join separator (next :: rest)

@[simp] theorem join_nil (separator : String) : join separator [] = "" := rfl

@[simp] theorem join_singleton (separator text : String) : join separator [text] = text := rfl

theorem join_cons_cons (separator text next : String) (rest : List String) :
    join separator (text :: next :: rest) =
      text ++ separator ++ join separator (next :: rest) := rfl

/-! ### The first elements of a list that is thinned out -/

variable {Value : Type} {values : List Value}

theorem take_filter (keep : Value → Bool) (values : List Value) (count : Nat) :
    (values.filter keep).take count =
      (values.take count).filter keep ++
        ((values.drop count).filter keep).take
          ((values.take count).filter fun value => !keep value).length := by
  have parts := congrArg (List.filter keep) (List.take_append_drop count values)
  rw [List.filter_append] at parts
  have fits : ((values.take count).filter keep).length ≤ count :=
    Nat.le_trans (List.length_filter_le _ _) (List.length_take_le _ _)
  rw [← parts, List.take_append, List.take_of_length_le fits]
  refine congrArg _ ?_
  by_cases short : values.length ≤ count
  · rw [List.drop_of_length_le short, List.filter_nil, List.take_nil, List.take_nil]
  · have split := List.length_eq_length_filter_add keep (l := values.take count)
    rw [List.length_take_of_le (Nat.le_of_not_le short)] at split
    congr 1
    omega

/-! ### Splitting at a mark -/

section Mark

variable {Value : Type} {mark : Value}

theorem split_at_first_mark : ∀ {first second firstRest secondRest : List Value},
    mark ∉ first → mark ∉ second → first ++ mark :: firstRest = second ++ mark :: secondRest →
      first = second ∧ firstRest = secondRest
  | [], [], _, _, _, _, same => ⟨rfl, (List.cons.inj same).2⟩
  | [], head :: tail, _, _, _, absent, same =>
    absurd ((List.cons.inj same).1 ▸ List.mem_cons_self) absent
  | head :: tail, [], _, _, absent, _, same =>
    absurd ((List.cons.inj same).1 ▸ List.mem_cons_self) absent
  | head :: tail, other :: others, _, _, firstAbsent, secondAbsent, same => by
    obtain ⟨sameHead, sameTail⟩ := List.cons.inj same
    obtain ⟨tails, rests⟩ := split_at_first_mark
      (fun member => firstAbsent (List.mem_cons_of_mem _ member))
      (fun member => secondAbsent (List.mem_cons_of_mem _ member)) sameTail
    exact ⟨congr (congrArg List.cons sameHead) tails, rests⟩

theorem split_at_last_mark {first second firstRest secondRest} (firstAbsent : mark ∉ firstRest)
    (secondAbsent : mark ∉ secondRest)
    (same : first ++ mark :: firstRest = second ++ mark :: secondRest) :
    first = second ∧ firstRest = secondRest := by
  have reversed := congrArg List.reverse same
  simp only [List.reverse_append, List.reverse_cons, List.append_assoc,
    List.singleton_append] at reversed
  obtain ⟨rests, firsts⟩ := split_at_first_mark
    (fun member => firstAbsent (List.mem_reverse.mp member))
    (fun member => secondAbsent (List.mem_reverse.mp member)) reversed
  exact ⟨List.reverse_injective firsts, List.reverse_injective rests⟩

/-- A text that tells where it ends when a mark comes after it: the mark is not in it and a letter
is not its last, or the mark is in it once and comes behind the letter. -/
def EndsAtMark (mark letter : Value) (text : List Value) : Prop :=
  (mark ∉ text ∧ letter ∉ text.getLast?) ∨
    ∃ before after, text = before ++ letter :: mark :: after ∧ mark ∉ before ∧ mark ∉ after

section EndsAtMark

variable {letter : Value} {first second : List Value}

theorem not_append_of_absent {before after rest otherRest} (different : mark ≠ letter)
    (absent : mark ∉ first) (notLast : letter ∉ first.getLast?) (clean : mark ∉ before) :
    first ++ mark :: rest ≠ before ++ letter :: mark :: after ++ mark :: otherRest := by
  intro same
  have shape : before ++ letter :: mark :: after ++ mark :: otherRest =
      (before ++ [letter]) ++ mark :: (after ++ mark :: otherRest) := by simp
  rw [shape] at same
  have cleanLetter : mark ∉ before ++ [letter] := by simp [clean, different]
  rw [(split_at_first_mark absent cleanLetter same).1] at notLast
  exact notLast (by simp)

theorem EndsAtMark.append_inj {firstRest secondRest} (different : mark ≠ letter)
    (firstEnds : EndsAtMark mark letter first) (secondEnds : EndsAtMark mark letter second)
    (same : first ++ mark :: firstRest = second ++ mark :: secondRest) :
    first = second ∧ firstRest = secondRest := by
  rcases firstEnds with ⟨absent, notLast⟩ | ⟨before, after, rfl, clean, cleanAfter⟩
  · rcases secondEnds with ⟨otherAbsent, _⟩ | ⟨before, after, rfl, clean, _⟩
    · exact split_at_first_mark absent otherAbsent same
    · exact absurd same (not_append_of_absent different absent notLast clean)
  · rcases secondEnds with ⟨absent, notLast⟩ | ⟨others, later, rfl, otherClean, otherCleanAfter⟩
    · exact absurd same.symm (not_append_of_absent different absent notLast clean)
    · simp only [List.append_assoc, List.cons_append] at same
      have letters : ∀ list rest : List Value, list ++ letter :: mark :: rest =
          (list ++ [letter]) ++ mark :: rest := by simp
      rw [letters, letters others] at same
      obtain ⟨heads, tails⟩ := split_at_first_mark (by simp [clean, different])
        (by simp [otherClean, different]) same
      obtain ⟨digits, rests⟩ := split_at_first_mark cleanAfter otherCleanAfter tails
      rw [List.append_left_injective _ heads, digits]
      exact ⟨rfl, rests⟩

theorem EndsAtMark.map {Other} {change : Value → Other} {text}
    (ends : EndsAtMark mark letter text)
    (ownMark : ∀ value ∈ text, change value = change mark → value = mark)
    (ownLetter : ∀ value ∈ text, change value = change letter → value = letter) :
    EndsAtMark (change mark) (change letter) (text.map change) := by
  have absent : ∀ part : List Value, (∀ value ∈ part, value ∈ text) → mark ∉ part →
      change mark ∉ part.map change := by
    intro part inside notMember member
    obtain ⟨value, isMember, same⟩ := List.mem_map.mp member
    exact notMember (ownMark value (inside value isMember) same ▸ isMember)
  rcases ends with ⟨notMember, notLast⟩ | ⟨before, after, rfl, clean, cleanAfter⟩
  · refine Or.inl ⟨absent text (fun _ member => member) notMember, fun isLast => ?_⟩
    rw [List.getLast?_map] at isLast
    obtain ⟨value, last, same⟩ := Option.map_eq_some_iff.mp isLast
    exact notLast (ownLetter value (List.mem_of_getLast? last) same ▸ last)
  · refine Or.inr ⟨before.map change, after.map change, by simp, ?_, ?_⟩
    · exact absent before (fun value member => by simp [member]) clean
    · exact absent after (fun value member => by simp [member]) cleanAfter

end EndsAtMark

end Mark

/-! ### Lists related element by element -/

section Related

variable {First Second : Type} {related : First → Second → Prop} {firsts : List First}
  {seconds : List Second}

theorem exists_left_of_forall₂ (each : List.Forall₂ related firsts seconds) {second}
    (member : second ∈ seconds) : ∃ first ∈ firsts, related first second := by
  induction each with
  | nil => exact absurd member List.not_mem_nil
  | cons head _ ih =>
    rcases List.mem_cons.mp member with rfl | tail
    · exact ⟨_, List.mem_cons_self, head⟩
    · obtain ⟨first, inside, holds⟩ := ih tail
      exact ⟨first, List.mem_cons_of_mem _ inside, holds⟩

theorem exists_right_of_forall₂ (each : List.Forall₂ related firsts seconds) {first}
    (member : first ∈ firsts) : ∃ second ∈ seconds, related first second := by
  induction each with
  | nil => exact absurd member List.not_mem_nil
  | cons head _ ih =>
    rcases List.mem_cons.mp member with rfl | tail
    · exact ⟨_, List.mem_cons_self, head⟩
    · obtain ⟨second, inside, holds⟩ := ih tail
      exact ⟨second, List.mem_cons_of_mem _ inside, holds⟩

theorem exists_forall₂_of_forall_mem
    (each : ∀ first ∈ firsts, ∃ second, related first second) :
    ∃ seconds, List.Forall₂ related firsts seconds := by
  induction firsts with
  | nil => exact ⟨[], .nil⟩
  | cons head tail ih =>
    obtain ⟨second, holds⟩ := each head List.mem_cons_self
    obtain ⟨rest, restHolds⟩ :=
      ih fun first member => each first (List.mem_cons_of_mem _ member)
    exact ⟨second :: rest, .cons holds restHolds⟩

end Related

/-! ### Lists that are put together element by element -/

section Alone

variable {Value Other : Type} {toOthers : Value → List Other} {values : List Value} {index : Nat}
  {value next : Value}

theorem flatMap_eq_of_alone (at_index : values[index]? = some value)
    (alone : ∀ other another, other ≠ index → values[other]? = some another →
      toOthers another = []) : values.flatMap toOthers = toOthers value := by
  induction values generalizing index with
  | nil => cases at_index
  | cons head tail ih =>
    rw [List.flatMap_cons]
    cases index with
    | zero =>
      cases at_index
      have rest : tail.flatMap toOthers = [] := by
        refine List.flatMap_eq_nil_iff.mpr fun another member => ?_
        obtain ⟨place, found⟩ := List.mem_iff_getElem?.mp member
        exact alone (place + 1) another (by simp) found
      rw [rest, List.append_nil]
    | succ place =>
      rw [alone 0 head (by simp) rfl]
      refine ih at_index fun other another apart found => ?_
      exact alone (other + 1) another (by simpa using apart) found

theorem flatMap_set (at_index : values[index]? = some value)
    (same : toOthers next = toOthers value) :
    (values.set index next).flatMap toOthers = values.flatMap toOthers := by
  induction values generalizing index with
  | nil => rfl
  | cons head tail ih =>
    cases index with
    | zero =>
      cases at_index
      rw [List.set_cons_zero, List.flatMap_cons, List.flatMap_cons, same]
    | succ place =>
      rw [List.set_cons_succ, List.flatMap_cons, List.flatMap_cons, ih at_index]

end Alone

theorem nodup_map_of_subperm {Key : Type} {key : Value → Key} {picked : List Value}
    (within : picked.Subperm values) (distinct : (values.map key).Nodup) :
    (picked.map key).Nodup := by
  obtain ⟨ordered, perm, sublist⟩ := within
  exact (perm.map key).nodup_iff.mp (distinct.sublist (sublist.map key))

/-! ### The greatest value of a list -/

theorem first_of_mem_argmax {measure serial : Value → ℕ} {best other}
    (sorted : values.Pairwise (serial · < serial ·)) (isBest : best ∈ values.argmax measure)
    (among : other ∈ values) (above : measure best ≤ measure other) :
    serial best ≤ serial other := by
  induction values generalizing best with
  | nil => cases among
  | cons head rest ih =>
    obtain ⟨headFirst, restSorted⟩ := List.pairwise_cons.mp sorted
    rw [List.argmax_cons] at isBest
    cases greatest : rest.argmax measure with
    | none =>
      rw [List.argmax_eq_none.mp greatest] at among
      rw [greatest] at isBest
      cases isBest
      exact le_of_eq (congrArg serial (List.mem_singleton.mp among).symm)
    | some later =>
      rw [greatest] at isBest
      dsimp only at isBest
      split at isBest
      · rename_i below
        cases isBest
        rcases List.mem_cons.mp among with first | inRest
        · exact absurd (first ▸ above) (not_le.mpr below)
        · exact ih restSorted greatest inRest above
      · cases isBest
        rcases List.mem_cons.mp among with first | inRest
        · exact le_of_eq (congrArg serial first.symm)
        · exact (headFirst other inRest).le

/-! ### Where a list parts -/

theorem takeWhile_eq_take {goes index} (before : ∀ value ∈ values.take index, goes value = true)
    (after : ∀ value ∈ values.drop index, goes value = false) :
    values.takeWhile goes = values.take index ∧ values.dropWhile goes = values.drop index := by
  induction values generalizing index with
  | nil => simp
  | cons first rest ih =>
    cases index with
    | zero =>
      have stops := after first List.mem_cons_self
      exact ⟨List.takeWhile_cons_of_neg (by simp [stops]),
        List.dropWhile_cons_of_neg (by simp [stops])⟩
    | succ index =>
      have goesOn := before first List.mem_cons_self
      obtain ⟨takes, drops⟩ := ih
        (fun value member => before value (List.mem_cons_of_mem _ member)) after
      rw [List.takeWhile_cons_of_pos goesOn, List.dropWhile_cons_of_pos goesOn, takes, drops]
      exact ⟨rfl, rfl⟩

/-! ### Changing one value -/

section

variable {Value : Type} {change : Value → Value} {values : List Value}

theorem mem_modify {index value} (member : value ∈ values.modify index change) :
    value ∈ values ∨ ∃ before ∈ values, change before = value := by
  induction values generalizing index with
  | nil => simp at member
  | cons first rest ih =>
    cases index with
    | zero =>
      rcases List.mem_cons.mp member with rfl | isLater
      · exact .inr ⟨first, List.mem_cons_self, rfl⟩
      · exact .inl (List.mem_cons_of_mem _ isLater)
    | succ index =>
      rcases List.mem_cons.mp member with rfl | isLater
      · exact .inl List.mem_cons_self
      · refine (ih isLater).imp (List.mem_cons_of_mem _) ?_
        rintro ⟨before, isBefore, same⟩
        exact ⟨before, List.mem_cons_of_mem _ isBefore, same⟩

theorem forall_mem_modify_iff {holds : Value → Prop}
    (same : ∀ value, holds (change value) ↔ holds value) (index : ℕ) :
    (∀ value ∈ values.modify index change, holds value) ↔ ∀ value ∈ values, holds value := by
  induction values generalizing index with
  | nil => simp
  | cons first rest ih =>
    cases index with
    | zero => rw [List.modify_zero_cons, List.forall_mem_cons, List.forall_mem_cons, same]
    | succ index =>
      rw [List.modify_succ_cons, List.forall_mem_cons, List.forall_mem_cons,
        ih]

end

/-! ### Loops that count -/

theorem foldl_counts {State : Type} {turn}
    (counts : ∀ state value, (turn state value).2 = state.2 + 1) (values : List Value)
    (state : State × ℕ) : (values.foldl turn state).2 = state.2 + values.length := by
  induction values generalizing state with
  | nil => rfl
  | cons value rest ih =>
    rw [List.foldl_cons, ih, counts, List.length_cons]
    omega

/-! ### Predicates that stay true -/

section

variable {Value : Type} {holds : Value → Bool} {values : List Value}

theorem drop_findIdx_eq_filter
    (stays : values.Pairwise fun first second => holds first = true → holds second = true) :
    values.drop (values.findIdx holds) = values.filter holds := by
  induction values with
  | nil => rfl
  | cons first rest ih =>
    obtain ⟨later, restStays⟩ := List.pairwise_cons.mp stays
    cases holdsFirst : holds first with
    | true =>
      rw [List.findIdx_cons, holdsFirst, List.filter_cons_of_pos holdsFirst,
        List.filter_eq_self.mpr fun second member => later second member holdsFirst]
      rfl
    | false =>
      rw [List.findIdx_cons, holdsFirst, List.filter_cons_of_neg (by simp [holdsFirst]),
        ← ih restStays]
      rfl

theorem take_findIdx_eq_filter
    (stays : values.Pairwise fun first second => holds first = true → holds second = true) :
    values.take (values.findIdx holds) = values.filter fun value => !holds value := by
  have parts := List.take_append_drop (values.findIdx holds) values
  have behind : (values.drop (values.findIdx holds)).filter (fun value => !holds value) = [] := by
    rw [drop_findIdx_eq_filter stays, List.filter_filter]
    exact List.filter_eq_nil_iff.mpr fun value _ => by simp
  have before : ∀ value ∈ values.take (values.findIdx holds), (!holds value) = true := by
    intro value member
    obtain ⟨index, inside, rfl⟩ := List.mem_take_iff_getElem.mp member
    rw [List.not_of_lt_findIdx (lt_min_iff.mp inside).1]
    rfl
  conv_rhs => rw [← parts, List.filter_append, behind, List.append_nil]
  exact (List.filter_eq_self.mpr before).symm

end

/-! ### What one of two lists of equal length is filtered by -/

theorem filter_eq_filter_zip_iff {First Second : Type} {firsts : List First}
    {seconds : List Second} (distinct : firsts.Nodup) (lengths : firsts.length = seconds.length)
    {flagged} {marked : Second → Bool} :
    firsts.filter flagged =
        ((firsts.zip seconds).filter fun pair => marked pair.2).map (·.1) ↔
      ∀ pair ∈ firsts.zip seconds, flagged pair.1 = marked pair.2 := by
  induction firsts generalizing seconds with
  | nil => simp
  | cons first rest ih =>
    cases seconds with
    | nil => cases lengths
    | cons second others =>
      obtain ⟨absent, restDistinct⟩ := List.nodup_cons.mp distinct
      have later := ih restDistinct (Nat.succ.inj lengths)
      have notLater : first ∉
          ((rest.zip others).filter fun pair => marked pair.2).map (·.1) := fun inside => by
        obtain ⟨pair, isPair, rfl⟩ := List.mem_map.mp inside
        exact absent (List.of_mem_zip (List.mem_of_mem_filter isPair)).1
      have notRest : first ∉ rest.filter flagged := fun inside =>
        absent (List.mem_of_mem_filter inside)
      rw [List.zip_cons_cons, List.forall_mem_cons, ← later, List.filter_cons, List.filter_cons]
      cases flagged first <;> cases marked second
      · simp
      · simp only [Bool.false_eq_true, if_false, if_true, List.map_cons, false_and, iff_false]
        exact fun same => notRest (same ▸ List.mem_cons_self)
      · simp only [Bool.false_eq_true, if_false, if_true, Bool.true_eq_false, false_and, iff_false]
        exact fun same => notLater (same ▸ List.mem_cons_self)
      · simp

end Senars.Library
