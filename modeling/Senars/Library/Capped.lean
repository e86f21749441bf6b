/-
This file is about lists that are kept short: what is put at the end drops what is
first where there is no room, a walk stops when it has enough, and a set is kept as the
list of its members.
-/

import Mathlib.Data.List.Nodup

namespace Senars.Library

variable {Value : Type}

/-- Append to a list that has a capacity, dropping the first value where it is passed. -/
def pushCapped (log : List Value) (item : Value) (capacity : Nat) : List Value :=
  let pushed := log ++ [item]
  if capacity < pushed.length then pushed.tail else pushed

/-- Keep the last values of a list, as many as there is room for. -/
def trimCapped (log : List Value) (capacity : Nat) : List Value := log.drop (log.length - capacity)

/-- Add a member to a set kept as a list. -/
def addMember [DecidableEq Value] (members : List Value) (member : Value) : List Value :=
  if member ∈ members then members else members ++ [member]

/-- The first values of a list, or all of them where nothing is said. -/
def takeFirst (values : List Value) : Option Nat → List Value
  | none => values
  | some count => values.take count

/-- Walk through a list until enough is accepted. -/
def collectUpTo {Result : Type} (accept : Value → Option Result) :
    Option Nat → List Value → List Result
  | some 0, _ => []
  | _, [] => []
  | limit, item :: rest =>
    match accept item with
    | some admitted => admitted :: collectUpTo accept (limit.map (· - 1)) rest
    | none => collectUpTo accept limit rest

theorem takeFirst_nil (limit : Option Nat) : takeFirst ([] : List Value) limit = [] := by
  cases limit with
  | none => rfl
  | some count => exact List.take_nil

variable {item : Value} {log : List Value} {capacity : Nat}

theorem takeFirst_cons {rest limit} (room : limit ≠ some 0) :
    takeFirst (item :: rest) limit = item :: takeFirst rest (limit.map (· - 1)) := by
  cases limit with
  | none => rfl
  | some count =>
    cases count with
    | zero => exact absurd rfl room
    | succ count => rfl

theorem collectUpTo_cons {Result} {accept : Value → Option Result} {rest limit}
    (room : limit ≠ some 0) :
    collectUpTo accept limit (item :: rest) =
      match accept item with
      | some admitted => admitted :: collectUpTo accept (limit.map (· - 1)) rest
      | none => collectUpTo accept limit rest := by
  cases limit with
  | none => rfl
  | some count =>
    cases count with
    | zero => exact absurd rfl room
    | succ count => rfl

theorem collectUpTo_eq {Result} (accept : Value → Option Result) (limit : Option Nat)
    (items : List Value) :
    collectUpTo accept limit items = takeFirst (items.filterMap accept) limit := by
  induction items generalizing limit with
  | nil =>
    cases limit with
    | none => rfl
    | some count => cases count <;> rfl
  | cons item rest ih =>
    by_cases full : limit = some 0
    · subst full
      rfl
    · rw [List.filterMap_cons, collectUpTo_cons full]
      cases accept item with
      | none => exact ih limit
      | some admitted =>
        rw [takeFirst_cons full, ih]

theorem takeFirst_append (first second : List Value) (limit : Option Nat) :
    takeFirst (first ++ second) limit =
      takeFirst first limit ++
        takeFirst second (limit.map (· - (takeFirst first limit).length)) := by
  cases limit with
  | none => rfl
  | some count =>
    show (first ++ second).take count =
      first.take count ++ second.take (count - (first.take count).length)
    rw [List.take_append, List.length_take]
    congr 2
    omega

theorem mem_pushCapped {other} (member : other ∈ pushCapped log item capacity) :
    other ∈ log ∨ other = item := by
  unfold pushCapped at member
  dsimp only at member
  split at member
  · simpa using List.mem_of_mem_tail member
  · simpa using member

theorem mem_addMember [DecidableEq Value] {members} {member other : Value} :
    other ∈ addMember members member ↔ other ∈ members ∨ other = member := by
  unfold addMember
  split
  · next there =>
    constructor
    · exact .inl
    · rintro (old | rfl)
      · exact old
      · exact there
  · rw [List.mem_append, List.mem_singleton]

theorem mem_foldl_addMember [DecidableEq Value] {values members : List Value} {value} :
    value ∈ values.foldl addMember members ↔ value ∈ members ∨ value ∈ values := by
  induction values generalizing members with
  | nil => exact (or_iff_left List.not_mem_nil).symm
  | cons first rest ih =>
    rw [List.foldl_cons, ih, mem_addMember, List.mem_cons, or_assoc]

theorem pushCapped_sublist (log : List Value) (item : Value) (capacity : Nat) :
    (pushCapped log item capacity).Sublist (log ++ [item]) := by
  unfold pushCapped
  dsimp only
  split
  · exact List.tail_sublist _
  · exact .refl _

theorem trimCapped_eq_self (fits : log.length ≤ capacity) : trimCapped log capacity = log := by
  rw [trimCapped, Nat.sub_eq_zero_of_le fits, List.drop_zero]

theorem map_pushCapped {Other} (toOther : Value → Other) (log : List Value) (item : Value)
    (capacity : Nat) :
    (pushCapped log item capacity).map toOther =
      pushCapped (log.map toOther) (toOther item) capacity := by
  have pushed : (log ++ [item]).map toOther = log.map toOther ++ [toOther item] := by simp
  unfold pushCapped
  dsimp only
  rw [← pushed, List.length_map]
  split
  · exact List.map_tail
  · rfl

theorem pushCapped_trimCapped (room : 0 < capacity) :
    pushCapped (trimCapped log capacity) item capacity = trimCapped (log ++ [item]) capacity := by
  unfold pushCapped trimCapped
  dsimp only
  by_cases full : capacity ≤ log.length
  · have dropped : log.drop (log.length - capacity) ++ [item] =
        (log ++ [item]).drop (log.length - capacity) :=
      (List.drop_append_of_le_length (Nat.sub_le _ _)).symm
    rw [dropped, List.length_drop, List.length_append, List.length_singleton, if_pos (by omega),
      ← List.drop_one, List.drop_drop]
    congr 1
    omega
  · rw [Nat.sub_eq_zero_of_le (by omega), List.drop_zero, List.length_append,
      List.length_singleton, if_neg (by omega), Nat.sub_eq_zero_of_le (by omega), List.drop_zero]

theorem map_trimCapped {Other} (toOther : Value → Other) (log : List Value) (capacity : Nat) :
    (trimCapped log capacity).map toOther = trimCapped (log.map toOther) capacity := by
  rw [trimCapped, trimCapped, List.map_drop, List.length_map]

theorem trimCapped_isPrefix_iff (distinct : log.Nodup) (room : 0 < capacity) :
    trimCapped log capacity <+: log ↔ log.length ≤ capacity := by
  constructor
  · intro first
    by_contra short
    have inside : 0 < (trimCapped log capacity).length := by
      rw [trimCapped, List.length_drop]
      omega
    have same := first.getElem inside
    have kept : (trimCapped log capacity)[0] = log[log.length - capacity] := by
      simp [trimCapped]
    have index := (List.Nodup.getElem_inj_iff distinct).mp (kept.symm.trans same)
    omega
  · intro fits
    refine ⟨[], ?_⟩
    rw [trimCapped_eq_self fits, List.append_nil]

end Senars.Library
