/-
This file reads a body that a peer has chosen the size of. A stream of bytes is decoded
chunk by chunk and given up after the chunk with which more bytes than allowed have come;
a body that is already a text is cut to half as many code units as bytes are allowed.

The chunk that goes past the cap is decoded before the count is looked at, so its bytes
past the cap are in the text wherever they complete a character. And half as many units
are too many where units of three bytes outnumber those of one byte.
-/

import Senars.Library.JsNumber
import Senars.Library.Utf8

namespace Senars.Util

open Library

/-! ### Reading -/

/-- `TRUNCATION_MARKER`. -/
def truncationMarker : Units := textUnits "[truncated]"

/-- A text that was read, and whether the marker is put after it. -/
structure BoundedText where
  text : Units
  truncated : Bool
  deriving DecidableEq

/-- What is returned. -/
def BoundedText.rendered (read : BoundedText) : Units :=
  if read.truncated then read.text ++ 10 :: truncationMarker else read.text

/-- The variables of the loop. -/
structure Reader where
  decoder : TextDecoder
  text : Units
  bytes : ℕ

/-- The loop of `readBytesBounded`, and what follows it: a stream that throws ends as one that is
over, with the chunks that have come. -/
def readChunks (maxBytes : JsNumber) : Reader → List (List Byte) → BoundedText
  | reader, [] => ⟨reader.text ++ reader.decoder.flush, false⟩
  | reader, chunk :: rest =>
    let bytes := reader.bytes + chunk.length
    let text := reader.text ++ reader.decoder.stream chunk
    if JsNumber.less maxBytes (.finite bytes) then ⟨text, true⟩
    else readChunks maxBytes ⟨reader.decoder.after chunk, text, bytes⟩ rest

/-- `readBytesBounded`. -/
def readBytesBounded (chunks : List (List Byte)) (maxBytes : JsNumber) : BoundedText :=
  readChunks maxBytes ⟨.new, [], 0⟩ chunks

/-- A response's body, as a stream or as the text of it. -/
inductive Body where
  | stream (chunks : List (List Byte))
  | whole (text : Units)

/-- `readBodyBounded`. -/
def readBodyBounded (body : Body) (maxBytes : JsNumber) : BoundedText :=
  match body with
  | .whole text =>
    if JsNumber.less maxBytes (.finite (byteLength text)) then
      ⟨JsNumber.sliceTo text (maxBytes / 2), false⟩
    else ⟨text, false⟩
  | .stream chunks => readBytesBounded chunks maxBytes

/-! ### The cap -/

/-- The first `maxBytes` of some bytes. -/
def firstBytes (maxBytes : JsNumber) (bytes : List Byte) : List Byte :=
  match maxBytes with
  | .nan => []
  | .infinite negative => if negative then [] else bytes
  | .finite bound => bytes.take bound.floor.toNat

/-- The text a decoder makes of bytes, with what it holds back unless the reading was given up. -/
def decoded (decoder : TextDecoder) (truncated : Bool) (bytes : List Byte) : Units :=
  decoder.stream bytes ++ if truncated then [] else (decoder.after bytes).flush

/-- The text of a stream is made of its first `maxBytes` at most, and the text of a body without
a stream has no more bytes. -/
def Capped (maxBytes : JsNumber) : Body → Prop
  | .stream chunks =>
    ∃ part, part <+: firstBytes maxBytes chunks.flatten ∧
      (readBodyBounded (.stream chunks) maxBytes).text =
        decoded .new (readBodyBounded (.stream chunks) maxBytes).truncated part
  | .whole text =>
    JsNumber.lessEq (.finite (byteLength (readBodyBounded (.whole text) maxBytes).text))
      maxBytes = true

/-- The bytes of the chunks that are read, from those seen on, and whether the last of these
goes past the cap. -/
def arrived (maxBytes : JsNumber) : List Byte → List (List Byte) → List Byte × Bool
  | seen, [] => (seen, false)
  | seen, chunk :: rest =>
    if JsNumber.less maxBytes (.finite (seen ++ chunk).length) then (seen ++ chunk, true)
    else arrived maxBytes (seen ++ chunk) rest

/-- How many characters of a text are written in a byte. -/
def narrow (text : Units) : ℕ := (codePoints text).countP fun point => point.val < 0x80

/-- How many characters of a text, lone surrogates among them, are written in three bytes. -/
def wide (text : Units) : ℕ :=
  (codePoints text).countP fun point => 0x800 ≤ point.val ∧ point.val < 0x10000

/-- Of a stream, the bytes past the cap in the chunk that goes past it add no text; of a text, it
is short enough or, in what is kept, the three-byte characters outnumber the one-byte ones by no
more than the cap leaves over two bytes for each unit. -/
def WithinCap (maxBytes : JsNumber) : Body → Prop
  | .stream chunks =>
    let read := arrived maxBytes [] chunks
    let first := firstBytes maxBytes read.1
    decoded (TextDecoder.new.after first) read.2 (read.1.drop first.length) =
      decoded (TextDecoder.new.after first) read.2 []
  | .whole text =>
    let kept := JsNumber.sliceTo text (maxBytes / 2)
    JsNumber.lessEq (.finite (byteLength text)) maxBytes = true ∨
      JsNumber.lessEq (.finite (2 * kept.length + wide kept - narrow kept)) maxBytes = true

/-! ### What is read of a stream -/

section

variable {maxBytes : JsNumber}

theorem decoded_true (decoder : TextDecoder) (bytes : List Byte) :
    decoded decoder true bytes = decoder.stream bytes := by
  rw [decoded, if_pos rfl, List.append_nil]

theorem readChunks_eq (seen : List Byte) (chunks : List (List Byte)) :
    readChunks maxBytes ⟨TextDecoder.new.after seen, TextDecoder.new.stream seen, seen.length⟩
        chunks =
      ⟨decoded .new (arrived maxBytes seen chunks).2 (arrived maxBytes seen chunks).1,
        (arrived maxBytes seen chunks).2⟩ := by
  induction chunks generalizing seen with
  | nil => rfl
  | cons chunk rest ih =>
    rw [readChunks, arrived, ← TextDecoder.stream_append, ← TextDecoder.after_append,
      ← List.length_append]
    split_ifs with past
    · rw [decoded]
      simp
    · exact ih (seen ++ chunk)

theorem isPrefix_arrived (seen : List Byte) (chunks : List (List Byte)) :
    (arrived maxBytes seen chunks).1 <+: seen ++ chunks.flatten := by
  induction chunks generalizing seen with
  | nil =>
    rw [List.flatten_nil, List.append_nil]
    exact List.prefix_rfl
  | cons chunk rest ih =>
    rw [arrived, List.flatten_cons, ← List.append_assoc]
    split_ifs with past
    · exact List.prefix_append _ _
    · exact ih (seen ++ chunk)

theorem less_of_truncated {seen chunks} (truncated : (arrived maxBytes seen chunks).2 = true) :
    JsNumber.less maxBytes (.finite (arrived maxBytes seen chunks).1.length) = true := by
  induction chunks generalizing seen with
  | nil => cases truncated
  | cons chunk rest ih =>
    rw [arrived] at truncated ⊢
    split_ifs at truncated ⊢ with past
    · exact past
    · exact ih truncated

theorem arrived_of_not_truncated {seen chunks} (whole : (arrived maxBytes seen chunks).2 = false) :
    (arrived maxBytes seen chunks).1 = seen ++ chunks.flatten ∧
      ((arrived maxBytes seen chunks).1 = seen ∨
        JsNumber.less maxBytes (.finite (arrived maxBytes seen chunks).1.length) = false) := by
  induction chunks generalizing seen with
  | nil => exact ⟨(List.append_nil seen).symm, Or.inl rfl⟩
  | cons chunk rest ih =>
    rw [arrived] at whole ⊢
    split_ifs at whole ⊢ with past
    obtain ⟨all, within⟩ := ih whole
    refine ⟨by rw [all, List.flatten_cons, List.append_assoc], Or.inr ?_⟩
    rcases within with same | within
    · rw [same]
      exact Bool.not_eq_true _ ▸ past
    · exact within

theorem isPrefix_firstBytes (bytes : List Byte) : firstBytes maxBytes bytes <+: bytes := by
  unfold firstBytes
  split
  · exact List.nil_prefix
  · split
    · exact List.nil_prefix
    · exact List.prefix_rfl
  · exact List.take_prefix _ _

theorem firstBytes_eq_self {bytes} (isNumber : maxBytes ≠ .nan)
    (within : JsNumber.less maxBytes (.finite bytes.length) = false) :
    firstBytes maxBytes bytes = bytes := by
  cases maxBytes with
  | nan => exact absurd rfl isNumber
  | infinite negative =>
    cases negative with
    | false => rfl
    | true => cases within
  | finite bound =>
    rw [JsNumber.less_finite, decide_eq_false_iff_not, not_lt] at within
    have nonneg : 0 ≤ bound := (Nat.cast_nonneg _).trans within
    refine List.take_of_length_le ((JsNumber.lessEq_natCast_iff nonneg).mp ?_)
    rw [JsNumber.lessEq_iff, JsNumber.less_finite, decide_eq_false_iff_not, not_lt]
    exact ⟨by simp, by simp, within⟩

theorem firstBytes_arrived (chunks : List (List Byte)) :
    firstBytes maxBytes chunks.flatten = firstBytes maxBytes (arrived maxBytes [] chunks).1 := by
  cases truncated : (arrived maxBytes [] chunks).2 with
  | false => rw [(arrived_of_not_truncated truncated).1, List.nil_append]
  | true =>
    have past := less_of_truncated truncated
    obtain ⟨rest, whole⟩ := @isPrefix_arrived maxBytes [] chunks
    rw [List.nil_append] at whole
    rw [← whole]
    generalize (arrived maxBytes [] chunks).1 = read at past
    cases maxBytes with
    | nan => rfl
    | infinite negative =>
      cases negative with
      | false => cases past
      | true => rfl
    | finite bound =>
      rw [JsNumber.less_finite, decide_eq_true_eq] at past
      have floor : bound.floor ≤ (read.length : ℤ) := by
        have below : (bound.floor : ℚ) ≤ bound := Rat.le_floor_iff.mp le_rfl
        exact_mod_cast below.trans past.le
      refine List.take_append_of_le_length ?_
      omega

end

/-! ### When the cap is kept -/

theorem stream_capped_iff (chunks : List (List Byte)) (maxBytes : JsNumber) :
    Capped maxBytes (.stream chunks) ↔ WithinCap maxBytes (.stream chunks) := by
  have read : readBodyBounded (.stream chunks) maxBytes = _ := readChunks_eq [] chunks
  unfold Capped WithinCap
  dsimp only
  rw [read, firstBytes_arrived]
  cases truncated : (arrived maxBytes [] chunks).2 with
  | true =>
    generalize (arrived maxBytes [] chunks).1 = bytes
    obtain ⟨rest, whole⟩ := @isPrefix_firstBytes maxBytes bytes
    generalize firstBytes maxBytes bytes = first at whole
    subst whole
    simp only [List.drop_left, decoded_true, TextDecoder.stream_append, TextDecoder.stream_nil]
    constructor
    · rintro ⟨part, ⟨more, rfl⟩, same⟩
      have lengths := congrArg List.length same
      rw [TextDecoder.stream_append, List.length_append, List.length_append] at lengths
      exact List.eq_nil_of_length_eq_zero (by omega)
    · intro nothing
      refine ⟨first, List.prefix_rfl, ?_⟩
      rw [nothing, List.append_nil]
  | false =>
    have ends := (arrived_of_not_truncated truncated).2
    generalize (arrived maxBytes [] chunks).1 = bytes at ends
    have whole : firstBytes maxBytes bytes = bytes ∨ firstBytes maxBytes bytes = [] := by
      by_cases isNumber : maxBytes = .nan
      · rw [isNumber]
        exact Or.inr rfl
      · rcases ends with rfl | within
        · exact Or.inr (List.prefix_nil.mp (isPrefix_firstBytes []))
        · exact Or.inl (firstBytes_eq_self isNumber within)
    rcases whole with all | nothing
    · rw [all, List.drop_length]
      exact iff_of_true ⟨bytes, List.prefix_rfl, rfl⟩ rfl
    · rw [nothing]
      constructor
      · rintro ⟨part, isPart, same⟩
        rw [List.prefix_nil.mp isPart] at same
        exact same
      · exact fun same => ⟨[], List.prefix_rfl, same⟩

theorem length_encodePoint (point : CodePoint) :
    (encodePoint (scalar point)).length + (if point.val < 0x80 then 1 else 0) =
      2 * (pointUnits point).length +
        if 0x800 ≤ point.val ∧ point.val < 0x10000 then 1 else 0 := by
  unfold scalar
  split
  · next lone =>
    rw [isSurrogate, decide_eq_true_eq] at lone
    rw [pointUnits, dif_pos (by omega), if_neg (by omega), if_pos (by omega)]
    rfl
  · unfold encodePoint pointUnits
    split_ifs
    all_goals
      first
      | rfl
      | omega

theorem byteLength_add_narrow (text : Units) :
    byteLength text + narrow text = 2 * text.length + wide text := by
  have points : ∀ points : List CodePoint,
      (encode points).length + points.countP (fun point => point.val < 0x80) =
        2 * (points.flatMap pointUnits).length +
          points.countP fun point => 0x800 ≤ point.val ∧ point.val < 0x10000 := by
    intro points
    induction points with
    | nil => rfl
    | cons point rest ih =>
      have own := length_encodePoint point
      rw [encode_cons, List.flatMap_cons, List.countP_cons, List.countP_cons, List.length_append,
        List.length_append]
      simp only [decide_eq_true_eq]
      omega
  have all := points (codePoints text)
  rw [flatMap_codePoints] at all
  exact all

theorem whole_capped_iff (text : Units) (maxBytes : JsNumber) :
    Capped maxBytes (.whole text) ↔ WithinCap maxBytes (.whole text) := by
  unfold Capped WithinCap
  dsimp only
  by_cases fits : JsNumber.lessEq (.finite (byteLength text)) maxBytes = true
  · rw [readBodyBounded, if_neg ?_]
    · exact iff_of_true fits (Or.inl fits)
    · rw [(JsNumber.lessEq_iff.mp fits).2.2]
      exact Bool.false_ne_true
  · rw [readBodyBounded, or_iff_right fits]
    by_cases isNumber : maxBytes = .nan
    · subst isNumber
      exact iff_of_false (by simp [JsNumber.lessEq]) (by simp [JsNumber.lessEq])
    · have past : JsNumber.less maxBytes (.finite (byteLength text)) = true := by
        by_contra within
        rw [Bool.not_eq_true] at within
        exact fits (JsNumber.lessEq_iff.mpr ⟨by simp, isNumber, within⟩)
      rw [if_pos past]
      generalize JsNumber.sliceTo text (maxBytes / 2) = kept
      have bytes : (byteLength kept : ℚ) = 2 * kept.length + wide kept - narrow kept := by
        have whole : ((byteLength kept + narrow kept : ℕ) : ℚ) =
            (2 * kept.length + wide kept : ℕ) := congrArg _ (byteLength_add_narrow kept)
        push_cast at whole
        exact eq_sub_of_add_eq whole
      rw [← bytes]

/-- A body's text is capped exactly when, of a stream, the bytes past the cap add no text, and of
a text, what is kept is not too wide. -/
theorem readBodyBounded_capped_iff (maxBytes : JsNumber) (body : Body) :
    Capped maxBytes body ↔ WithinCap maxBytes body := by
  cases body with
  | stream chunks => exact stream_capped_iff chunks maxBytes
  | whole text => exact whole_capped_iff text maxBytes

/-- A chunk of two bytes is read whole where one byte was allowed. -/
theorem chunk_read_whole : ¬∀ (maxBytes : JsNumber) (body : Body), Capped maxBytes body := by
  intro capped
  have nothing := (stream_capped_iff [[97, 98]] 1).mp (capped 1 (.stream [[97, 98]]))
  have adds : decoded (TextDecoder.new.after [97]) true [98] ≠
      decoded (TextDecoder.new.after [97]) true [] := by decide
  exact adds nothing

end Senars.Util
