/-
This file is the cut of a tool's output to a number of bytes: the bytes are cut where
the number falls, and what is left is read as text again.

A cut within a character leaves bytes that are read as a replacement character, which
the text does not have there or which takes more bytes than are left. A lone surrogate
in what is kept is a replacement character already among the bytes. So what comes out
is the longest prefix that fits exactly when the cut falls between two characters and
keeps no lone surrogate, or when nothing is cut.
-/

import Senars.Library.JsNumber
import Senars.Library.Utf8

namespace Senars.Util

open Library

structure Truncated where
  text : Units
  truncated : Bool
  deriving DecidableEq

/-- `Buffer.toString('utf8')`. -/
def bufferText (bytes : List Byte) : Units := (decode bytes).flatMap pointUnits

/-- `truncateBytes`. -/
def truncateBytes (text : Units) (maxBytes : JsNumber) : Truncated :=
  if JsNumber.lessEq (.finite (byteLength text)) maxBytes then ⟨text, false⟩
  else ⟨bufferText (JsNumber.sliceTo (toUtf8 text) maxBytes), true⟩

/-- The characters of a text are the first of another one's. -/
def IsWholePrefix (part text : Units) : Prop := codePoints part <+: codePoints text

/-- What comes out is the longest prefix of whole characters that is within the number of bytes. -/
structure KeepsWholeCharacters (text : Units) (maxBytes : JsNumber) : Prop where
  isPrefix : (truncateBytes text maxBytes).text <+: text
  fits : JsNumber.lessEq (.finite (byteLength (truncateBytes text maxBytes).text)) maxBytes = true
  longest : ∀ part, IsWholePrefix part text →
    JsNumber.lessEq (.finite (byteLength part)) maxBytes = true →
      part.length ≤ (truncateBytes text maxBytes).text.length

/-- The number of bytes ends between two characters, and none before it is a lone surrogate. -/
def CutsBetween (text : Units) (maxBytes : JsNumber) : Prop :=
  ∃ part, IsWholePrefix part text ∧ maxBytes.floor = .finite (byteLength part) ∧
    ∀ point ∈ codePoints part, isSurrogate point = false

/-! ### Prefixes of characters -/

variable {text : Units}

theorem IsWholePrefix.isPrefix {part} (whole : IsWholePrefix part text) : part <+: text := by
  obtain ⟨rest, same⟩ := whole
  refine ⟨rest.flatMap pointUnits, ?_⟩
  rw [← flatMap_codePoints part, ← List.flatMap_append, same, flatMap_codePoints]

theorem length_encode_lt {first second} (isPrefix : first <+: second)
    (shorter : first.length < second.length) : (encode first).length < (encode second).length := by
  obtain ⟨rest, rfl⟩ := isPrefix
  cases rest with
  | nil => rw [List.append_nil] at shorter; exact absurd shorter (lt_irrefl _)
  | cons point later =>
    have some := List.length_pos_iff.mpr (encodePoint_ne_nil (scalar point))
    rw [encode_append, encode_cons, List.length_append, List.length_append]
    omega

theorem length_le_of_byteLength_le {first second} (firstWhole : IsWholePrefix first text)
    (secondWhole : IsWholePrefix second text) (bytes : byteLength first ≤ byteLength second) :
    first.length ≤ second.length := by
  rcases List.prefix_or_prefix_of_prefix firstWhole secondWhole with below | above
  · exact (IsWholePrefix.isPrefix below).length_le
  · have same : codePoints second = codePoints first := by
      refine above.eq_of_length ?_
      by_contra different
      have more := length_encode_lt above (lt_of_le_of_ne above.length_le different)
      exact absurd bytes (not_le.mpr more)
    rw [codePoints_injective same]

/-! ### Replacement characters -/

theorem length_pointUnits_scalar (point : CodePoint) :
    (pointUnits (scalar point)).length = (pointUnits point).length := by
  unfold scalar
  split
  · next lone =>
    rw [isSurrogate, decide_eq_true_eq] at lone
    show 1 = _
    rw [pointUnits, dif_pos (by omega)]
    rfl
  · rfl

theorem scalars_of_isPrefix {kept : List CodePoint} {more text : Units}
    (isPrefix : (kept.map scalar).flatMap pointUnits ++ more <+: kept.flatMap pointUnits ++ text) :
    (∀ point ∈ kept, isSurrogate point = false) ∧ more <+: text := by
  induction kept with
  | nil => exact ⟨fun _ member => (List.not_mem_nil member).elim, isPrefix⟩
  | cons point rest ih =>
    rw [List.map_cons, List.flatMap_cons, List.flatMap_cons, List.append_assoc,
      List.append_assoc] at isPrefix
    obtain ⟨behind, same⟩ := isPrefix
    rw [List.append_assoc] at same
    obtain ⟨heads, tails⟩ := List.append_inj same (length_pointUnits_scalar point)
    have isScalar : isSurrogate point = false := by
      rw [← pointUnits_injective heads]
      exact isSurrogate_scalar point
    obtain ⟨others, later⟩ := ih ⟨behind, tails⟩
    exact ⟨List.forall_mem_cons.mpr ⟨isScalar, others⟩, later⟩

/-! ### The cut -/

theorem not_fits_of_within {kept next} {rest : Units} {extra} (some : 0 < extra)
    (within : extra < (encodePoint (scalar next)).length)
    (isPrefix : ((kept.map scalar) ++ [replacement]).flatMap pointUnits <+:
      kept.flatMap pointUnits ++ (pointUnits next ++ rest)) :
    (encode kept).length + extra <
      byteLength (((kept.map scalar) ++ [replacement]).flatMap pointUnits) := by
  rw [List.flatMap_append, List.flatMap_singleton] at isPrefix
  obtain ⟨scalars, first⟩ := scalars_of_isPrefix isPrefix
  have unchanged : kept.map scalar = kept := by
    refine (List.map_congr_left fun point member => ?_).trans (List.map_id _)
    rw [scalar, scalars point member]
    rfl
  have isReplacement : next = replacement := by
    obtain ⟨behind, same⟩ := first
    by_cases low : next.val < 0x10000
    · rw [pointUnits, pointUnits, dif_pos low] at same
      exact Fin.ext (congrArg Fin.val (List.cons.inj same).1).symm
    · obtain ⟨lead, trail, units, leads, _, _⟩ := exists_pair low
      rw [units] at same
      rw [← (List.cons.inj same).1] at leads
      cases leads
  have three : (encodePoint (scalar replacement)).length = 3 := rfl
  rw [isReplacement, three] at within
  have bytes : byteLength ((kept ++ [replacement]).flatMap pointUnits) =
      (encode kept).length + 3 := by
    have all : ∀ point ∈ kept ++ [replacement], isSurrogate point = false :=
      List.forall_mem_append.mpr ⟨scalars, by simp [replacement, isSurrogate]⟩
    rw [byteLength, toUtf8, codePoints_flatMap all, encode_append, List.length_append]
    rfl
  rw [unchanged]
  omega

theorem keeps_of_fits {maxBytes}
    (fits : JsNumber.lessEq (.finite (byteLength text)) maxBytes = true) :
    KeepsWholeCharacters text maxBytes := by
  have whole : (truncateBytes text maxBytes).text = text := by
    rw [truncateBytes, if_pos fits]
  constructor
  · rw [whole]
  · rw [whole]
    exact fits
  · intro part isPart _
    rw [whole]
    exact isPart.isPrefix.length_le

theorem truncateBytes_eq {part bound} (nonneg : 0 ≤ bound)
    (tooLong : ¬JsNumber.lessEq (.finite (byteLength text)) (.finite bound) = true)
    (isPart : IsWholePrefix part text) (bytes : bound.floor.toNat = byteLength part)
    (scalars : ∀ point ∈ codePoints part, isSurrogate point = false) :
    (truncateBytes text (.finite bound)).text = part := by
  obtain ⟨rest, same⟩ := isPart
  have unchanged : (codePoints part).map scalar = codePoints part := by
    refine (List.map_congr_left fun point member => ?_).trans (List.map_id _)
    rw [scalar, scalars point member]
    rfl
  rw [truncateBytes, if_neg tooLong, JsNumber.sliceTo_of_nonneg _ nonneg, bytes]
  rw [toUtf8, ← same, encode_append, byteLength, toUtf8, List.take_left, bufferText, decode,
    decodeFrom_encode]
  show ((codePoints part).map scalar ++ []).flatMap pointUnits = part
  rw [List.append_nil, unchanged, flatMap_codePoints]

theorem cutsBetween_of_keeps {bound} (nonneg : 0 ≤ bound)
    (tooLong : ¬JsNumber.lessEq (.finite (byteLength text)) (.finite bound) = true)
    (keeps : KeepsWholeCharacters text (.finite bound)) : CutsBetween text (.finite bound) := by
  have within : bound.floor.toNat < (encode (codePoints text)).length :=
    not_le.mp (mt (JsNumber.lessEq_natCast_iff nonneg).mpr tooLong)
  obtain ⟨kept, next, rest, extra, whole, counts, inside, bytes⟩ := exists_take_encode within
  have cut : (truncateBytes text (.finite bound)).text =
      (kept.map scalar ++ if extra = 0 then [] else [replacement]).flatMap pointUnits := by
    rw [truncateBytes, if_neg tooLong, JsNumber.sliceTo_of_nonneg _ nonneg]
    rw [toUtf8, bytes, bufferText, decode_take inside]
  have units : text =
      kept.flatMap pointUnits ++ (pointUnits next ++ rest.flatMap pointUnits) := by
    rw [← flatMap_codePoints text, whole, List.flatMap_append, List.flatMap_cons]
  have isPrefix := keeps.isPrefix
  have fits := (JsNumber.lessEq_natCast_iff nonneg).mp keeps.fits
  rw [cut, units] at isPrefix
  rw [cut, counts] at fits
  split_ifs at isPrefix fits with between
  · rw [List.append_nil] at isPrefix
    have scalars : ∀ point ∈ kept, isSurrogate point = false :=
      (@scalars_of_isPrefix kept [] _ (by rw [List.append_nil]; exact isPrefix)).1
    refine ⟨kept.flatMap pointUnits, ?_, ?_, ?_⟩
    · rw [IsWholePrefix, codePoints_flatMap scalars, whole]
      exact List.prefix_append _ _
    · have floor : 0 ≤ bound.floor := Rat.le_floor_iff.mpr (by exact_mod_cast nonneg)
      rw [byteLength, toUtf8, codePoints_flatMap scalars]
      show JsNumber.finite (bound.floor : ℚ) = _
      rw [between, add_zero] at counts
      rw [← counts, ← Int.toNat_of_nonneg floor]
      rfl
    · rw [codePoints_flatMap scalars]
      exact scalars
  · have beyond := not_fits_of_within (Nat.pos_of_ne_zero between) inside isPrefix
    exact absurd fits (not_le.mpr beyond)

/-- What comes out is the longest prefix of whole characters that fits exactly when nothing is
cut, or the cut is between two characters and keeps no lone surrogate. -/
theorem truncateBytes_keeps_iff (text : Units) {maxBytes : JsNumber}
    (nonneg : JsNumber.lessEq 0 maxBytes = true) :
    KeepsWholeCharacters text maxBytes ↔
      JsNumber.lessEq (.finite (byteLength text)) maxBytes = true ∨ CutsBetween text maxBytes := by
  by_cases fits : JsNumber.lessEq (.finite (byteLength text)) maxBytes = true
  · exact iff_of_true (keeps_of_fits fits) (Or.inl fits)
  · cases maxBytes with
    | nan => cases nonneg
    | infinite negative =>
      cases negative with
      | false => exact absurd rfl fits
      | true => cases nonneg
    | finite bound =>
      have low : 0 ≤ bound := by simpa [JsNumber.lessEq] using nonneg
      constructor
      · exact fun keeps => Or.inr (cutsBetween_of_keeps low fits keeps)
      · rintro (whole | ⟨part, isPart, bytes, scalars⟩)
        · exact absurd whole fits
        · have floor : 0 ≤ bound.floor := Rat.le_floor_iff.mpr (by exact_mod_cast low)
          have count : bound.floor.toNat = byteLength part := by
            have values : (bound.floor : ℚ) = (byteLength part : ℕ) := JsNumber.finite.inj bytes
            have whole : bound.floor = (byteLength part : ℤ) := by exact_mod_cast values
            rw [whole, Int.toNat_natCast]
          have cut := truncateBytes_eq low fits isPart count scalars
          refine ⟨by rw [cut]; exact isPart.isPrefix, ?_, fun other isOther otherFits => ?_⟩
          · rw [cut, JsNumber.lessEq_natCast_iff low, count]
          · rw [cut]
            refine length_le_of_byteLength_le isOther isPart ?_
            rw [← count]
            exact (JsNumber.lessEq_natCast_iff low).mp otherFits

/-- An `a` and an `é`, cut between the two. -/
theorem truncateBytes_keeps_iff_between :
    KeepsWholeCharacters [97, 0xE9] 1 ↔
      JsNumber.lessEq (.finite (byteLength [97, 0xE9])) 1 = true ∨ CutsBetween [97, 0xE9] 1 :=
  truncateBytes_keeps_iff _ (by decide +kernel)

/-- An `é` cut after its first byte comes out as a replacement character of three bytes. -/
theorem truncated_within :
    ¬∀ (text : Units) (maxBytes : JsNumber), JsNumber.lessEq 0 maxBytes = true →
      KeepsWholeCharacters text maxBytes := by
  intro keeps
  have fits := (keeps [0xE9] 1 (by decide +kernel)).fits
  revert fits
  decide +kernel

end Senars.Util
