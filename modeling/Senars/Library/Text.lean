/-
This file is the texts of a script. The first part is the part of its string library that
is about whole texts: what is blank, what occurs in what, and the lower case as far as an
ASCII text can tell it. The second is the view the language has of a text, a list of 16-bit
code units in which a character outside the basic plane is two. Texts are sorted by their
code units, and so numbers that are written with a fixed number of digits come in order.

A text of any code units is read as code points, where a surrogate that is not half of a
pair is a code point of its own.
-/

import Mathlib.Data.List.Infix
import Mathlib.Data.List.Lex
import Mathlib.Tactic.IntervalCases
import Mathlib.Tactic.Ring
import Senars.Library.StableSort

namespace Senars.Library

/-! ### Whole texts -/

/-- The white space and the line terminators that `trim` removes. -/
def isTrimmed (char : Char) : Bool :=
  let code := char.toNat
  (9 ≤ code && code ≤ 13) || (0x2000 ≤ code && code ≤ 0x200A) ||
    [0x20, 0xA0, 0x1680, 0x2028, 0x2029, 0x202F, 0x205F, 0x3000, 0xFEFF].contains code

/-- Nothing is left of a text once it is trimmed. -/
def blank (text : String) : Bool := text.toList.all isTrimmed

/-- `text.includes(part)`. -/
def includes (text part : String) : Bool := decide (part.toList <:+: text.toList)

/-- The lower case of a character. Outside ASCII only two capitals have an ASCII letter in
theirs, the dotted I and the Kelvin sign; every other character is left alone here, since its
lower case occurs in no ASCII text. -/
def lowerChar (char : Char) : List Char :=
  if char = '\u0130' then ['i', '\u0307']
  else if char = '\u212A' then ['k']
  else [char.toLower]

def toLowerCase (text : String) : String := String.ofList (text.toList.flatMap lowerChar)

/-! ### Code units -/

/-- The code units of a character: itself, or a surrogate pair. -/
def charUnits (char : Char) : List Nat :=
  if char.toNat < 0x10000 then [char.toNat]
  else [0xD800 + (char.toNat - 0x10000) / 0x400, 0xDC00 + (char.toNat - 0x10000) % 0x400]

/-- The code units of a text. -/
def codeUnits (text : String) : List Nat := text.toList.flatMap charUnits

theorem codeUnits_append (first second : String) :
    codeUnits (first ++ second) = codeUnits first ++ codeUnits second := by
  rw [codeUnits, String.toList_append, List.flatMap_append]
  rfl

theorem charUnits_append_inj {first second firstRest secondRest}
    (same : charUnits first ++ firstRest = charUnits second ++ secondRest) :
    first = second ∧ firstRest = secondRest := by
  have firstValid := first.valid
  have secondValid := second.valid
  unfold charUnits at same
  have equal : first.toNat = second.toNat ∧ firstRest = secondRest := by
    change first.toNat < _ ∨ _ < first.toNat ∧ first.toNat < _ at firstValid
    change second.toNat < _ ∨ _ < second.toNat ∧ second.toNat < _ at secondValid
    split at same <;> split at same <;>
      simp only [List.cons_append, List.nil_append, List.cons.injEq] at same
    · exact same
    · omega
    · omega
    · exact ⟨by omega, same.2.2⟩
  exact ⟨Char.toNat_inj.mp equal.1, equal.2⟩

theorem codeUnits_injective : Function.Injective codeUnits := by
  intro first second same
  refine String.toList_injective ?_
  unfold codeUnits at same
  generalize first.toList = firsts at same
  generalize second.toList = seconds at same
  have nonempty : ∀ char rest, charUnits char ++ rest ≠ [] := by
    intro char rest nil
    unfold charUnits at nil
    split at nil <;> cases nil
  induction firsts generalizing seconds with
  | nil =>
    cases seconds with
    | nil => rfl
    | cons char rest => exact absurd same.symm (nonempty char _)
  | cons char rest ih =>
    cases seconds with
    | nil => exact absurd same (nonempty char _)
    | cons other others =>
      obtain ⟨rfl, later⟩ := charUnits_append_inj same
      rw [ih others later]

/-- The default order of `Array.prototype.sort`. -/
def unitOrder : Comparison String where
  le first second := decide (codeUnits first ≤ codeUnits second)
  total first second := by
    simpa only [decide_eq_true_eq] using le_total (codeUnits first) (codeUnits second)
  trans first second third forward next :=
    decide_eq_true ((of_decide_eq_true forward).trans (of_decide_eq_true next))

/-! ### What comes strictly first -/

/-- A list comes first by a smaller value, with the same before it. What follows does not
matter. -/
def ComesFirst (first second : List ℕ) : Prop :=
  ∃ (common : List ℕ) (smaller greater : ℕ) (firstRest secondRest : List ℕ),
    first = common ++ smaller :: firstRest ∧ second = common ++ greater :: secondRest ∧
      smaller < greater

namespace ComesFirst

variable {first second : List ℕ}

theorem append (comes : ComesFirst first second) (firstRest secondRest : List ℕ) :
    ComesFirst (first ++ firstRest) (second ++ secondRest) := by
  obtain ⟨common, smaller, greater, afterFirst, afterSecond, rfl, rfl, less⟩ := comes
  exact ⟨common, smaller, greater, afterFirst ++ firstRest, afterSecond ++ secondRest,
    by simp, by simp, less⟩

theorem prepend (comes : ComesFirst first second) (common : List ℕ) :
    ComesFirst (common ++ first) (common ++ second) := by
  obtain ⟨shared, smaller, greater, afterFirst, afterSecond, rfl, rfl, less⟩ := comes
  exact ⟨common ++ shared, smaller, greater, afterFirst, afterSecond, by simp, by simp, less⟩

theorem lt (comes : ComesFirst first second) : first < second := by
  obtain ⟨common, smaller, greater, _, _, rfl, rfl, less⟩ := comes
  induction common with
  | nil => exact List.Lex.rel less
  | cons head rest ih => exact List.Lex.cons ih

end ComesFirst

/-! ### Digits -/

/-- A decimal digit. -/
def digit (value : ℕ) : Char := Char.ofNat (48 + value % 10)

/-- The last digits of a number, as many as asked for. -/
def padded : ℕ → ℕ → List Char
  | 0, _ => []
  | width + 1, number => digit (number / 10 ^ width) :: padded width number

theorem charUnits_digit (value : ℕ) : charUnits (digit value) = [48 + value % 10] := by
  have below : value % 10 < 10 := Nat.mod_lt _ (by decide)
  unfold digit
  generalize value % 10 = last at below
  interval_cases last <;> rfl

/-- The code units of characters. -/
def unitsOf (chars : List Char) : List ℕ := chars.flatMap charUnits

theorem unitsOf_padded_succ (width number : ℕ) :
    unitsOf (padded (width + 1) number) =
      (48 + number / 10 ^ width % 10) :: unitsOf (padded width number) := by
  rw [padded, unitsOf, List.flatMap_cons, charUnits_digit]
  rfl

theorem comesFirst_padded {width first second} (less : first % 10 ^ width < second % 10 ^ width) :
    ComesFirst (unitsOf (padded width first)) (unitsOf (padded width second)) := by
  induction width with
  | zero => simp [Nat.mod_one] at less
  | succ width ih =>
    have positive : 0 < 10 ^ width := pow_pos (by decide) width
    rw [pow_succ, Nat.mod_mul, Nat.mod_mul] at less
    rw [unitsOf_padded_succ, unitsOf_padded_succ]
    rcases lt_trichotomy (first / 10 ^ width % 10) (second / 10 ^ width % 10) with
      below | same | above
    · exact ⟨[], _, _, _, _, rfl, rfl, by omega⟩
    · rw [same] at less ⊢
      exact (ih (by omega)).prepend [_]
    · have firstBelow := Nat.mod_lt first positive
      have product := Nat.mul_le_mul_left (10 ^ width) above
      rw [Nat.succ_eq_add_one, mul_add] at product
      omega

/-! ### Code points -/

/-- One code unit of a text. -/
abbrev CodeUnit := Fin 0x10000

instance CodeUnit.instNeZero : NeZero 0x10000 := ⟨by decide⟩

/-- A text: any code units, so that a surrogate may stand alone. -/
abbrev Units := List CodeUnit

/-- A code point, a surrogate among them. -/
abbrev CodePoint := Fin 0x110000

instance CodePoint.instNeZero : NeZero 0x110000 := ⟨by decide⟩

/-- The first half of a pair. -/
def isLead (unit : CodeUnit) : Bool := decide (0xD800 ≤ unit.val ∧ unit.val < 0xDC00)

/-- The second half of a pair. -/
def isTrail (unit : CodeUnit) : Bool := decide (0xDC00 ≤ unit.val ∧ unit.val < 0xE000)

/-- A code point that no pair writes and no character is. -/
def isSurrogate (point : CodePoint) : Bool := decide (0xD800 ≤ point.val ∧ point.val < 0xE000)

/-- A code unit as a code point. -/
def ofUnit (unit : CodeUnit) : CodePoint := Fin.castLE (by decide) unit

/-- The code point of a pair. -/
def paired (lead trail : CodeUnit) : CodePoint :=
  ⟨0x10000 + lead.val % 0x400 * 0x400 + trail.val % 0x400, by omega⟩

/-- The code points of a text, from left to right. -/
def codePoints : Units → List CodePoint
  | [] => []
  | [unit] => [ofUnit unit]
  | first :: second :: rest =>
    if isLead first && isTrail second then paired first second :: codePoints rest
    else ofUnit first :: codePoints (second :: rest)

/-- The code units of a code point. -/
def pointUnits (point : CodePoint) : Units :=
  if low : point.val < 0x10000 then [⟨point.val, low⟩]
  else
    [⟨0xD800 + (point.val - 0x10000) / 0x400, by omega⟩,
      ⟨0xDC00 + (point.val - 0x10000) % 0x400, by omega⟩]

@[simp] theorem pointUnits_ofUnit (unit : CodeUnit) : pointUnits (ofUnit unit) = [unit] :=
  dif_pos unit.isLt

theorem pointUnits_paired {lead trail} (isLeading : isLead lead = true)
    (isTrailing : isTrail trail = true) : pointUnits (paired lead trail) = [lead, trail] := by
  unfold isLead at isLeading
  unfold isTrail at isTrailing
  rw [decide_eq_true_eq] at isLeading isTrailing
  unfold pointUnits paired
  rw [dif_neg (by dsimp only; omega)]
  simp only [List.cons.injEq, and_true, Fin.ext_iff]
  omega

theorem flatMap_codePoints (text : Units) : (codePoints text).flatMap pointUnits = text := by
  induction text using codePoints.induct with
  | case1 => rfl
  | case2 unit => simp [codePoints]
  | case3 first second rest pair ih =>
    rw [codePoints, if_pos pair, List.flatMap_cons, ih]
    rw [Bool.and_eq_true] at pair
    rw [pointUnits_paired pair.1 pair.2]
    rfl
  | case4 first second rest alone ih =>
    rw [codePoints, if_neg alone, List.flatMap_cons, ih, pointUnits_ofUnit]
    rfl

theorem codePoints_injective : Function.Injective codePoints :=
  Function.LeftInverse.injective flatMap_codePoints

theorem exists_pair {point} (beyond : ¬point.val < 0x10000) :
    ∃ lead trail, pointUnits point = [lead, trail] ∧ isLead lead = true ∧ isTrail trail = true ∧
      paired lead trail = point := by
  refine ⟨_, _, dif_neg beyond, decide_eq_true ⟨?_, ?_⟩, decide_eq_true ⟨?_, ?_⟩, Fin.ext ?_⟩
  all_goals
    try unfold paired
    dsimp only
    omega

theorem codePoints_pointUnits (point : CodePoint) : codePoints (pointUnits point) = [point] := by
  by_cases low : point.val < 0x10000
  · rw [pointUnits, dif_pos low]
    rfl
  · obtain ⟨lead, trail, units, leads, trails, same⟩ := exists_pair low
    rw [units, codePoints, leads, trails, Bool.and_self, same]
    rfl

theorem pointUnits_injective : Function.Injective pointUnits := by
  intro first second same
  have points := congrArg codePoints same
  rw [codePoints_pointUnits, codePoints_pointUnits] at points
  exact (List.cons.inj points).1

theorem codePoints_pointUnits_append {point} (isScalar : isSurrogate point = false) (rest : Units) :
    codePoints (pointUnits point ++ rest) = point :: codePoints rest := by
  unfold isSurrogate at isScalar
  rw [decide_eq_false_iff_not] at isScalar
  by_cases low : point.val < 0x10000
  · rw [pointUnits, dif_pos low, List.singleton_append]
    have same : ofUnit ⟨point.val, low⟩ = point := Fin.ext rfl
    have notLead : isLead ⟨point.val, low⟩ = false := by
      unfold isLead
      rw [decide_eq_false_iff_not]
      exact fun leads => isScalar ⟨leads.1, leads.2.trans (by decide)⟩
    cases rest with
    | nil => rw [codePoints, codePoints, same]
    | cons unit later =>
      rw [codePoints, notLead, Bool.false_and, if_neg Bool.false_ne_true, same]
  · obtain ⟨lead, trail, units, leads, trails, same⟩ := exists_pair low
    rw [units, List.cons_append, List.singleton_append, codePoints, leads, trails, Bool.and_self,
      if_pos rfl, same]

theorem codePoints_flatMap {points} (scalars : ∀ point ∈ points, isSurrogate point = false) :
    codePoints (points.flatMap pointUnits) = points := by
  induction points with
  | nil => rfl
  | cons point rest ih =>
    rw [List.flatMap_cons, codePoints_pointUnits_append (scalars point List.mem_cons_self),
      ih fun other member => scalars other (List.mem_cons_of_mem _ member)]

/-! ### Texts of characters -/

theorem codeUnits_lt {text unit} (member : unit ∈ codeUnits text) : unit < 0x10000 := by
  obtain ⟨char, _, inside⟩ := List.mem_flatMap.mp member
  have valid := char.valid
  change char.toNat < _ ∨ _ < char.toNat ∧ char.toNat < _ at valid
  unfold charUnits at inside
  split at inside
  · rw [List.mem_singleton.mp inside]
    assumption
  · simp only [List.mem_cons, List.not_mem_nil, or_false] at inside
    omega

/-- The code units of a text of characters. -/
def textUnits (text : String) : Units := (codeUnits text).map (Fin.ofNat 0x10000)

theorem textUnits_injective : Function.Injective textUnits := by
  have values : ∀ text, (textUnits text).map Fin.val = codeUnits text := by
    intro text
    rw [textUnits, List.map_map]
    refine (List.map_congr_left fun unit member => ?_).trans (List.map_id _)
    exact Nat.mod_eq_of_lt (codeUnits_lt member)
  intro first second same
  exact codeUnits_injective (by rw [← values, same, values])

end Senars.Library
