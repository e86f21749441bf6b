/-
This file is UTF-8: the bytes of a text, in which a lone surrogate is written as the
replacement character, and the decoder that reads bytes one at a time, puts a
replacement character where no character can be read and goes on.
-/

import Senars.Library.Text

namespace Senars.Library

/-! ### Writing -/

abbrev Byte := Fin 0x100

/-- U+FFFD, which stands for what is no character. -/
def replacement : CodePoint := 0xFFFD

/-- The bytes of a code point. -/
def encodePoint (point : CodePoint) : List Byte :=
  if point.val < 0x80 then [Fin.ofNat 0x100 point.val]
  else if point.val < 0x800 then
    [Fin.ofNat 0x100 (0xC0 + point.val / 0x40), Fin.ofNat 0x100 (0x80 + point.val % 0x40)]
  else if point.val < 0x10000 then
    [Fin.ofNat 0x100 (0xE0 + point.val / 0x1000),
      Fin.ofNat 0x100 (0x80 + point.val / 0x40 % 0x40), Fin.ofNat 0x100 (0x80 + point.val % 0x40)]
  else
    [Fin.ofNat 0x100 (0xF0 + point.val / 0x40000),
      Fin.ofNat 0x100 (0x80 + point.val / 0x1000 % 0x40),
      Fin.ofNat 0x100 (0x80 + point.val / 0x40 % 0x40), Fin.ofNat 0x100 (0x80 + point.val % 0x40)]

/-- The character that is written for a code point. -/
def scalar (point : CodePoint) : CodePoint := if isSurrogate point then replacement else point

/-- The bytes of a list of code points. -/
def encode (points : List CodePoint) : List Byte :=
  points.flatMap fun point => encodePoint (scalar point)

/-- The bytes of a text. -/
def toUtf8 (text : Units) : List Byte := encode (codePoints text)

/-- `Buffer.byteLength(text, 'utf8')`. -/
def byteLength (text : Units) : ℕ := (toUtf8 text).length

theorem encode_append (first second : List CodePoint) :
    encode (first ++ second) = encode first ++ encode second :=
  List.flatMap_append

theorem encode_cons (point : CodePoint) (rest : List CodePoint) :
    encode (point :: rest) = encodePoint (scalar point) ++ encode rest :=
  List.flatMap_cons

theorem isSurrogate_scalar (point : CodePoint) : isSurrogate (scalar point) = false := by
  unfold scalar
  split
  · rfl
  · next isScalar => exact Bool.not_eq_true _ ▸ isScalar

theorem encodePoint_ne_nil (point : CodePoint) : encodePoint point ≠ [] := by
  unfold encodePoint
  split_ifs <;> exact List.cons_ne_nil _ _

/-! ### Reading -/

/-- A character of which some bytes are read: its number so far, the bytes that are missing and
the bounds of the next one. -/
structure Unfinished where
  point : ℕ
  missing : ℕ
  lower : ℕ
  upper : ℕ
  deriving DecidableEq

/-- A byte read between two characters. -/
def firstByte (byte : Byte) : List CodePoint × Option Unfinished :=
  if byte.val < 0x80 then ([Fin.castLE (by decide) byte], none)
  else if 0xC2 ≤ byte.val ∧ byte.val < 0xE0 then ([], some ⟨byte.val % 0x20, 1, 0x80, 0xBF⟩)
  else if 0xE0 ≤ byte.val ∧ byte.val < 0xF0 then
    ([], some ⟨byte.val % 0x10, 2, if byte.val = 0xE0 then 0xA0 else 0x80,
      if byte.val = 0xED then 0x9F else 0xBF⟩)
  else if 0xF0 ≤ byte.val ∧ byte.val < 0xF5 then
    ([], some ⟨byte.val % 0x8, 3, if byte.val = 0xF0 then 0x90 else 0x80,
      if byte.val = 0xF4 then 0x8F else 0xBF⟩)
  else ([replacement], none)

/-- A byte read in any state: the code points it completes, and the state after it. -/
def nextByte (pending : Option Unfinished) (byte : Byte) : List CodePoint × Option Unfinished :=
  match pending with
  | none => firstByte byte
  | some character =>
    if character.lower ≤ byte.val ∧ byte.val ≤ character.upper then
      let point := character.point * 0x40 + byte.val % 0x40
      if character.missing = 1 then ([Fin.ofNat 0x110000 point], none)
      else ([], some ⟨point, character.missing - 1, 0x80, 0xBF⟩)
    else
      -- the character is given up, and the byte is read again on its own
      let again := firstByte byte
      (replacement :: again.1, again.2)

/-- Bytes read one after the other. -/
def decodeFrom (pending : Option Unfinished) : List Byte → List CodePoint × Option Unfinished
  | [] => ([], pending)
  | byte :: rest =>
    let now := nextByte pending byte
    let later := decodeFrom now.2 rest
    (now.1 ++ later.1, later.2)

/-- The end of the bytes gives up a character that is not finished. -/
def finish (pending : Option Unfinished) : List CodePoint :=
  if pending.isSome then [replacement] else []

/-- The code points of bytes. -/
def decode (bytes : List Byte) : List CodePoint :=
  (decodeFrom none bytes).1 ++ finish (decodeFrom none bytes).2

theorem decodeFrom_append (pending : Option Unfinished) (first second : List Byte) :
    decodeFrom pending (first ++ second) =
      ((decodeFrom pending first).1 ++ (decodeFrom (decodeFrom pending first).2 second).1,
        (decodeFrom (decodeFrom pending first).2 second).2) := by
  induction first generalizing pending with
  | nil => rfl
  | cons byte rest ih =>
    rw [List.cons_append, decodeFrom, ih, decodeFrom]
    simp only [List.append_assoc]

/-! ### What is written is read -/

variable {point : CodePoint} {high part : ℕ} {character : Unfinished}

theorem firstByte_one (low : point.val < 0x80) :
    firstByte (Fin.ofNat 0x100 point.val) = ([point], none) := by
  have value : (Fin.ofNat 0x100 point.val).val = point.val := Nat.mod_eq_of_lt (by omega)
  rw [firstByte, if_pos (by rw [value]; exact low), Prod.mk.injEq, List.cons.injEq]
  exact ⟨⟨Fin.ext value, rfl⟩, rfl⟩

theorem firstByte_two (low : 2 ≤ high) (bound : high < 0x20) :
    firstByte (Fin.ofNat 0x100 (0xC0 + high)) = ([], some ⟨high, 1, 0x80, 0xBF⟩) := by
  interval_cases high <;> rfl

theorem firstByte_three (bound : high < 0x10) :
    firstByte (Fin.ofNat 0x100 (0xE0 + high)) =
      ([], some ⟨high, 2, if high = 0 then 0xA0 else 0x80, if high = 13 then 0x9F else 0xBF⟩) := by
  interval_cases high <;> rfl

theorem firstByte_four (bound : high < 5) :
    firstByte (Fin.ofNat 0x100 (0xF0 + high)) =
      ([], some ⟨high, 3, if high = 0 then 0x90 else 0x80, if high = 4 then 0x8F else 0xBF⟩) := by
  interval_cases high <;> rfl

theorem nextByte_within (bound : part < 0x40) (lower : character.lower ≤ 0x80 + part)
    (upper : 0x80 + part ≤ character.upper) :
    nextByte (some character) (Fin.ofNat 0x100 (0x80 + part)) =
      if character.missing = 1 then ([Fin.ofNat 0x110000 (character.point * 0x40 + part)], none)
      else ([], some ⟨character.point * 0x40 + part, character.missing - 1, 0x80, 0xBF⟩) := by
  have value : (Fin.ofNat 0x100 (0x80 + part)).val = 0x80 + part := Nat.mod_eq_of_lt (by omega)
  have last : (0x80 + part) % 0x40 = part := by omega
  rw [nextByte]
  simp only [value, last, lower, upper, and_self, if_true]

theorem decodeFrom_cons {pending next byte points} (read : nextByte pending byte = (points, next))
    (rest : List Byte) :
    decodeFrom pending (byte :: rest) =
      (points ++ (decodeFrom next rest).1, (decodeFrom next rest).2) := by
  rw [decodeFrom, read]

/-- Bytes of which all but the last leave a character unfinished. -/
def Finishes (pending : Option Unfinished) (bytes : List Byte) (point : CodePoint) : Prop :=
  decodeFrom pending bytes = ([point], none) ∧
    ∀ count, 0 < count → count < bytes.length →
      ∃ character, decodeFrom pending (bytes.take count) = ([], some character)

theorem finishes_singleton {pending byte} (read : nextByte pending byte = ([point], none)) :
    Finishes pending [byte] point := by
  refine ⟨by rw [decodeFrom_cons read]; rfl, fun count some within => ?_⟩
  rw [List.length_singleton] at within
  omega

theorem Finishes.cons {pending character byte rest point}
    (read : nextByte pending byte = ([], some character))
    (finishes : Finishes (some character) rest point) : Finishes pending (byte :: rest) point := by
  refine ⟨?_, fun count some within => ?_⟩
  · rw [decodeFrom_cons read, finishes.1]
    rfl
  · obtain ⟨before, rfl⟩ := Nat.exists_eq_succ_of_ne_zero some.ne'
    rw [List.take_succ_cons, decodeFrom_cons read]
    rcases Nat.eq_zero_or_pos before with rfl | positive
    · exact ⟨character, rfl⟩
    · obtain ⟨next, reads⟩ := finishes.2 before positive (Nat.lt_of_succ_lt_succ within)
      exact ⟨next, by rw [reads]; rfl⟩

theorem finishes_last (one : character.missing = 1) (bound : part < 0x40)
    (lower : character.lower ≤ 0x80 + part) (upper : 0x80 + part ≤ character.upper)
    (value : character.point * 0x40 + part = point.val) :
    Finishes (some character) [Fin.ofNat 0x100 (0x80 + part)] point := by
  refine finishes_singleton ?_
  rw [nextByte_within bound lower upper, if_pos one, value, Fin.ofNat_val_eq_self]

theorem Finishes.within {rest} (more : character.missing ≠ 1) (bound : part < 0x40)
    (lower : character.lower ≤ 0x80 + part) (upper : 0x80 + part ≤ character.upper)
    (finishes : Finishes
      (some ⟨character.point * 0x40 + part, character.missing - 1, 0x80, 0xBF⟩) rest point) :
    Finishes (some character) (Fin.ofNat 0x100 (0x80 + part) :: rest) point :=
  Finishes.cons (by rw [nextByte_within bound lower upper, if_neg more]) finishes

theorem finishes_encodePoint (isScalar : isSurrogate point = false) :
    Finishes none (encodePoint point) point := by
  unfold isSurrogate at isScalar
  rw [decide_eq_false_iff_not] at isScalar
  unfold encodePoint
  split_ifs with one two three
  · exact finishes_singleton (firstByte_one one)
  · refine Finishes.cons (firstByte_two (by omega) (by omega)) ?_
    exact finishes_last rfl (by omega) (by dsimp only; omega) (by dsimp only; omega)
      (by dsimp only; omega)
  · refine Finishes.cons (firstByte_three (by omega)) ?_
    refine Finishes.within (show (2 : ℕ) ≠ 1 by decide) (by omega) ?_ ?_ ?_
    · dsimp only
      split_ifs <;> omega
    · dsimp only
      split_ifs <;> omega
    · exact finishes_last rfl (by omega) (by dsimp only; omega) (by dsimp only; omega)
        (by dsimp only; omega)
  · refine Finishes.cons (firstByte_four (by omega)) ?_
    refine Finishes.within (show (3 : ℕ) ≠ 1 by decide) (by omega) ?_ ?_ ?_
    · dsimp only
      split_ifs <;> omega
    · dsimp only
      split_ifs <;> omega
    · refine Finishes.within (show (3 - 1 : ℕ) ≠ 1 by decide) (by omega) (by dsimp only; omega)
        (by dsimp only; omega) ?_
      exact finishes_last rfl (by omega) (by dsimp only; omega) (by dsimp only; omega)
        (by dsimp only; omega)

theorem decodeFrom_encode (points : List CodePoint) :
    decodeFrom none (encode points) = (points.map scalar, none) := by
  induction points with
  | nil => rfl
  | cons point rest ih =>
    rw [encode_cons, decodeFrom_append, (finishes_encodePoint (isSurrogate_scalar point)).1,
      ih]
    rfl

/-! ### Cutting bytes off -/

theorem exists_take_encode {points count} (within : count < (encode points).length) :
    ∃ kept next rest extra, points = kept ++ next :: rest ∧
      count = (encode kept).length + extra ∧ extra < (encodePoint (scalar next)).length ∧
      (encode points).take count = encode kept ++ (encodePoint (scalar next)).take extra := by
  induction points generalizing count with
  | nil => exact absurd within (Nat.not_lt_zero _)
  | cons point rest ih =>
    rw [encode_cons, List.length_append] at within
    rcases Nat.lt_or_ge count (encodePoint (scalar point)).length with inside | behind
    · refine ⟨[], point, rest, count, rfl, by simp [encode], inside, ?_⟩
      rw [encode_cons, List.take_append_of_le_length inside.le]
      rfl
    · obtain ⟨kept, next, later, extra, whole, counts, bound, bytes⟩ :=
        @ih (count - (encodePoint (scalar point)).length) (by omega)
      refine ⟨point :: kept, next, later, extra, by rw [whole]; rfl, ?_, bound, ?_⟩
      · rw [encode_cons, List.length_append]
        omega
      · rw [encode_cons, encode_cons, List.take_append, List.take_of_length_le behind, bytes,
          List.append_assoc]

theorem decode_take {kept next extra} (within : extra < (encodePoint (scalar next)).length) :
    decode (encode kept ++ (encodePoint (scalar next)).take extra) =
      kept.map scalar ++ if extra = 0 then [] else [replacement] := by
  rw [decode, decodeFrom_append, decodeFrom_encode]
  split_ifs with whole
  · rw [whole]
    simp [decodeFrom, finish]
  · obtain ⟨character, read⟩ := (finishes_encodePoint (isSurrogate_scalar next)).2 extra
      (Nat.pos_of_ne_zero whole) within
    rw [read]
    simp [finish]

/-! ### A decoder that is given bytes in chunks -/

/-- U+FEFF, which the first code point of a stream is left out as. -/
def byteOrderMark : CodePoint := 0xFEFF

/-- A `TextDecoder`: what it holds back, and whether it is past a mark at the beginning. -/
structure TextDecoder where
  pending : Option Unfinished
  bomSeen : Bool

/-- Code points without a mark at the beginning of the stream. -/
def withoutMark (bomSeen : Bool) : List CodePoint → List CodePoint × Bool
  | [] => ([], bomSeen)
  | point :: rest =>
    (if bomSeen = false ∧ point = byteOrderMark then rest else point :: rest, true)

namespace TextDecoder

/-- `new TextDecoder()`. -/
def new : TextDecoder := ⟨none, false⟩

/-- The state after `decode(chunk, { stream: true })`. -/
def after (decoder : TextDecoder) (chunk : List Byte) : TextDecoder :=
  let read := decodeFrom decoder.pending chunk
  ⟨read.2, (withoutMark decoder.bomSeen read.1).2⟩

/-- `decode(chunk, { stream: true })`. -/
def stream (decoder : TextDecoder) (chunk : List Byte) : Units :=
  (withoutMark decoder.bomSeen (decodeFrom decoder.pending chunk).1).1.flatMap pointUnits

/-- `decode()`, at the end of the stream. -/
def flush (decoder : TextDecoder) : Units :=
  (withoutMark decoder.bomSeen (finish decoder.pending)).1.flatMap pointUnits

theorem withoutMark_append (bomSeen : Bool) (first second : List CodePoint) :
    withoutMark bomSeen (first ++ second) =
      ((withoutMark bomSeen first).1 ++ (withoutMark (withoutMark bomSeen first).2 second).1,
        (withoutMark (withoutMark bomSeen first).2 second).2) := by
  cases first with
  | nil => rfl
  | cons point rest =>
    have seen : withoutMark true second = (second, true) := by
      cases second <;> simp [withoutMark]
    have reads : ∀ rest, withoutMark bomSeen (point :: rest) =
        (if bomSeen = false ∧ point = byteOrderMark then rest else point :: rest, true) :=
      fun _ => rfl
    rw [List.cons_append, reads, reads, seen]
    split_ifs <;> rfl

@[simp] theorem after_nil (decoder : TextDecoder) : decoder.after [] = decoder := rfl

@[simp] theorem stream_nil (decoder : TextDecoder) : decoder.stream [] = [] := rfl

theorem after_append (decoder : TextDecoder) (first second : List Byte) :
    decoder.after (first ++ second) = (decoder.after first).after second := by
  simp only [after, decodeFrom_append, withoutMark_append]

theorem stream_append (decoder : TextDecoder) (first second : List Byte) :
    decoder.stream (first ++ second) =
      decoder.stream first ++ (decoder.after first).stream second := by
  simp only [after, stream, decodeFrom_append, withoutMark_append, List.flatMap_append]

end TextDecoder

end Senars.Library
