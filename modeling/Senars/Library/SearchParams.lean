/-
This file is the parameters of an address, and the lists in their values.

Parameters are kept in the order they were first set. A list is put into a value by
joining its texts with a separator and taken out of it by splitting at the separator,
which gives the list back exactly where no text contains the separator.
-/

import Senars.Library.Lists

namespace Senars.Library

/-! ### Splitting a text -/

/-- `text.split(separator)` at a single character. -/
def splitText (separator : Char) (text : String) : List String :=
  (text.toList.splitOn separator).map String.ofList

theorem toList_join (separator : Char) (texts : List String) :
    (join separator.toString texts).toList =
      [separator].intercalate (texts.map String.toList) := by
  induction texts with
  | nil => rfl
  | cons text texts induction =>
    cases texts with
    | nil => simp
    | cons next rest =>
      rw [join_cons_cons, String.toList_append, String.toList_append, induction, List.map_cons,
        List.map_cons, List.map_cons, List.intercalate_cons_cons]
      simp

theorem not_mem_of_mem_splitOn {separator} {chars piece : List Char}
    (isIn : piece ∈ chars.splitOn separator) : separator ∉ piece := by
  induction chars generalizing piece with
  | nil =>
    rw [List.splitOn_nil, List.mem_singleton] at isIn
    exact isIn ▸ List.not_mem_nil
  | cons char chars induction =>
    rw [List.splitOn_cons_eq_if_modifyHead] at isIn
    split at isIn
    · obtain rfl | later := List.mem_cons.mp isIn
      · exact List.not_mem_nil
      · exact induction later
    · rename_i other
      obtain ⟨first, pieces, splits⟩ :=
        List.exists_cons_of_ne_nil (List.splitOn_ne_nil separator chars)
      rw [splits] at isIn induction
      obtain rfl | later := List.mem_cons.mp isIn
      · have apart : separator ≠ char := fun same => other (by simp [same])
        rw [List.mem_cons, not_or]
        exact ⟨apart, induction List.mem_cons_self⟩
      · exact induction (List.mem_cons_of_mem _ later)

theorem splitText_join_iff {separator texts} (nonempty : texts ≠ []) :
    splitText separator (join separator.toString texts) = texts ↔
      ∀ text ∈ texts, separator ∉ text.toList := by
  refine ⟨fun same text isIn => ?_, fun apart => ?_⟩
  · rw [← same] at isIn
    obtain ⟨piece, pieceIn, rfl⟩ := List.mem_map.mp isIn
    rw [String.toList_ofList]
    exact not_mem_of_mem_splitOn pieceIn
  · rw [splitText, toList_join, List.splitOn_intercalate separator]
    · simp [Function.comp_def]
    · simpa using apart
    · simpa using nonempty

theorem join_ne_empty {separator text texts} (nonempty : text ≠ "") :
    join separator (text :: texts) ≠ "" := by
  cases texts with
  | nil => exact nonempty
  | cons next rest =>
    rw [join_cons_cons]
    simp [nonempty]

/-! ### Parameters -/

/-- `URLSearchParams`: names and values. -/
abbrev SearchParams := List (String × String)

namespace SearchParams

/-- The first value under a name. -/
def get (params : SearchParams) (name : String) : Option String :=
  (params.find? (·.1 = name)).map (·.2)

/-- The value under a name, in the place of the first if there is one. -/
def set (params : SearchParams) (name value : String) : SearchParams :=
  match params with
  | [] => [(name, value)]
  | entry :: params =>
    if entry.1 = name then (name, value) :: params.filter (·.1 ≠ name)
    else entry :: set params name value

/-- Set what is given. -/
def setGiven (params : SearchParams) (name : String) : Option String → SearchParams
  | none => params
  | some value => params.set name value

theorem get_nil (name : String) : get [] name = none := rfl

theorem get_set (params : SearchParams) (name value other : String) :
    (params.set name value).get other = if other = name then some value else params.get other := by
  induction params with
  | nil =>
    rw [set, get, List.find?_cons]
    by_cases same : other = name
    · simp [same]
    · simp [same, Ne.symm same, get]
  | cons entry params induction =>
    rw [set]
    split
    · rename_i named
      rw [get, List.find?_cons]
      by_cases same : other = name
      · simp [same]
      · have kept : (params.filter (·.1 ≠ name)).find? (·.1 = other) =
            params.find? (·.1 = other) := by
          rw [List.find?_filter]
          congr 1
          funext entry
          by_cases this : entry.1 = other <;> simp [this, same]
        rw [kept, if_neg same, get]
        simp [named, Ne.symm same]
    · rename_i unnamed
      rw [get, get]
      by_cases this : entry.1 = other
      · have unnamed : other ≠ name := fun same => unnamed (this.trans same)
        simp [this, unnamed]
      · rw [get, get] at induction
        simpa [this] using induction

theorem get_setGiven (params : SearchParams) (name other : String) (value : Option String) :
    (params.setGiven name value).get other =
      if other = name then value.or (params.get other) else params.get other := by
  cases value with
  | none => simp [setGiven]
  | some value => rw [setGiven, get_set, Option.some_or]

end SearchParams

/-- How parameters are written as a text and read from one. -/
structure SearchParamsText where
  print : SearchParams → String
  parse : String → SearchParams

/-- What is written of these parameters is read as them, and has no number sign in front. -/
structure SearchParamsText.RoundTrips (text : SearchParamsText) (params : SearchParams) : Prop where
  parse_print : text.parse (text.print params) = params
  noHash : (text.print params).toList.head? ≠ some '#'

end Senars.Library
