/-
This file is the text `JSON.stringify` writes: how a string is quoted, how a
finite number is spelled, and how arrays and objects nest. A written text is read
back in only one way, whatever follows it.
-/

import Senars.Library.NumberWriting

namespace Senars.Library

/-! ### Quoted strings -/

/-- A lower-case hexadecimal digit. -/
def hexUnit (digit : Fin 16) : CodeUnit :=
  if digit.val < 10 then ⟨48 + digit.val, by omega⟩ else ⟨87 + digit.val, by omega⟩

/-- The letter of a two-unit escape, for the code points that have one. -/
def shortEscape (point : CodePoint) : Option CodeUnit :=
  if point = 8 then some 98
  else if point = 9 then some 116
  else if point = 10 then some 110
  else if point = 12 then some 102
  else if point = 13 then some 114
  else if point = 34 then some 34
  else if point = 92 then some 92
  else none

/-- The escape of a code point by its number: a `\u` and four digits. -/
def unicodeEscape (point : CodePoint) : Units :=
  [92, 117, hexUnit (Fin.ofNat 16 (point.val / 0x1000)), hexUnit (Fin.ofNat 16 (point.val / 0x100)),
    hexUnit (Fin.ofNat 16 (point.val / 0x10)), hexUnit (Fin.ofNat 16 point.val)]

/-- What a string's text holds for one of its code points. -/
def writtenPoint (point : CodePoint) : Units :=
  match shortEscape point with
  | some letter => [92, letter]
  | none =>
    if point.val < 32 || isSurrogate point then unicodeEscape point else pointUnits point

/-- A string's text between its quotes. -/
def written (text : Units) : Units := (codePoints text).flatMap writtenPoint

/-- `JSON.stringify` of a string. -/
def quoted (text : Units) : Units := 34 :: (written text ++ [34])

/-! ### Reading a quoted string -/

/-- The value of a hexadecimal digit. -/
def hexValue (unit : CodeUnit) : ℕ := if unit.val < 58 then unit.val - 48 else unit.val - 87

/-- The code point a two-unit escape stands for. -/
def shortPoint (letter : CodeUnit) : CodePoint :=
  if letter = 98 then 8
  else if letter = 116 then 9
  else if letter = 110 then 10
  else if letter = 102 then 12
  else if letter = 114 then 13
  else ofUnit letter

/-- The first code point of a string's text, and what is left of the text. -/
def readPoint : Units → Option (CodePoint × Units)
  | [] => none
  | first :: rest =>
    if first = 92 then
      match rest with
      | [] => none
      | letter :: rest =>
        if letter = 117 then
          match rest with
          | thousands :: hundreds :: tens :: ones :: rest =>
            some (Fin.ofNat 0x110000 (((hexValue thousands * 16 + hexValue hundreds) * 16 +
              hexValue tens) * 16 + hexValue ones), rest)
          | _ => none
        else some (shortPoint letter, rest)
    else if isLead first then
      match rest with
      | [] => none
      | second :: rest => some (paired first second, rest)
    else some (ofUnit first, rest)

variable {point : CodePoint} {unit : CodeUnit} {firstRest secondRest : Units}

theorem readPoint_alone (notBackslash : unit ≠ 92) (notLead : isLead unit = false) (rest : Units) :
    readPoint (unit :: rest) = some (ofUnit unit, rest) := by
  simp [readPoint, notBackslash, notLead]

theorem readPoint_pair {first second} (notBackslash : first ≠ 92) (leads : isLead first = true)
    (rest : Units) : readPoint (first :: second :: rest) = some (paired first second, rest) := by
  simp [readPoint, notBackslash, leads]

theorem hexValue_hexUnit (digit : Fin 16) : hexValue (hexUnit digit) = digit.val := by
  revert digit
  decide

theorem shortPoint_shortEscape {letter} (escapes : shortEscape point = some letter) :
    letter ≠ 117 ∧ shortPoint letter = point := by
  unfold shortEscape at escapes
  split_ifs at escapes with h1 h2 h3 h4 h5 h6 h7
  all_goals
    subst point
    cases escapes
    decide

theorem readPoint_unicodeEscape (low : point.val < 0x10000) (rest : Units) :
    readPoint (unicodeEscape point ++ rest) = some (point, rest) := by
  have value : ((point.val / 0x1000 % 16 * 16 + point.val / 0x100 % 16) * 16 +
      point.val / 0x10 % 16) * 16 + point.val % 16 = point.val := by omega
  simp only [unicodeEscape, List.cons_append, List.nil_append, readPoint, if_true,
    hexValue_hexUnit, Fin.val_ofNat, value, Fin.ofNat_val_eq_self]

theorem readPoint_pointUnits (escapes : shortEscape point = none)
    (plain : isSurrogate point = false) (rest : Units) :
    readPoint (pointUnits point ++ rest) = some (point, rest) := by
  have notBackslash : point ≠ 92 := by
    rintro rfl
    cases escapes
  unfold isSurrogate at plain
  rw [decide_eq_false_iff_not] at plain
  by_cases low : point.val < 0x10000
  · have notUnit : (⟨point.val, low⟩ : CodeUnit) ≠ 92 :=
      fun same => notBackslash (Fin.ext (show point.val = 92 from congrArg Fin.val same))
    have notLead : isLead ⟨point.val, low⟩ = false := by
      unfold isLead
      rw [decide_eq_false_iff_not]
      exact fun leads => plain ⟨leads.1, leads.2.trans (by decide)⟩
    rw [pointUnits, dif_pos low, List.singleton_append, readPoint_alone notUnit notLead]
    rfl
  · obtain ⟨lead, trail, units, leads, _, same⟩ := exists_pair low
    have notBackslash : lead ≠ 92 := by
      rintro rfl
      cases leads
    rw [units, List.cons_append, List.singleton_append, readPoint_pair notBackslash leads, same]

theorem readPoint_writtenPoint (point : CodePoint) (rest : Units) :
    readPoint (writtenPoint point ++ rest) = some (point, rest) := by
  unfold writtenPoint
  cases escapes : shortEscape point with
  | some letter =>
    obtain ⟨notUnicode, same⟩ := shortPoint_shortEscape escapes
    simp only [List.cons_append, List.nil_append, readPoint, if_true, if_neg notUnicode, same]
  | none =>
    split_ifs with byNumber
    · refine readPoint_unicodeEscape ?_ rest
      rw [Bool.or_eq_true, decide_eq_true_eq, isSurrogate, decide_eq_true_eq] at byNumber
      omega
    · rw [Bool.or_eq_true, not_or, Bool.not_eq_true, Bool.not_eq_true] at byNumber
      exact readPoint_pointUnits escapes byNumber.2 rest

/-! ### A quoted string ends at its closing quote -/

/-- A unit that neither ends a string nor begins an escape. -/
def plainUnit (unit : CodeUnit) : Bool := unit != 34 && unit != 92

theorem plainUnit_hexUnit (digit : Fin 16) : plainUnit (hexUnit digit) = true := by
  revert digit
  decide

theorem shortEscape_quote (none : shortEscape point = none) : point ≠ 34 ∧ point ≠ 92 := by
  constructor <;> rintro rfl <;> cases none

theorem plainUnit_pointUnits (escapes : shortEscape point = none)
    (member : unit ∈ pointUnits point) : plainUnit unit = true := by
  obtain ⟨notQuote, notBackslash⟩ := shortEscape_quote escapes
  have notQuoteValue : point.val ≠ 34 := fun same => notQuote (Fin.ext same)
  have notBackslashValue : point.val ≠ 92 := fun same => notBackslash (Fin.ext same)
  have values : unit.val ≠ 34 ∧ unit.val ≠ 92 := by
    unfold pointUnits at member
    split_ifs at member with low
    · rw [List.mem_singleton.mp member]
      exact ⟨notQuoteValue, notBackslashValue⟩
    · simp only [List.mem_cons, List.not_mem_nil, or_false] at member
      rcases member with rfl | rfl
      all_goals
        dsimp only
        omega
  rw [plainUnit, Bool.and_eq_true, bne_iff_ne, bne_iff_ne]
  exact ⟨fun same => values.1 (congrArg Fin.val same), fun same => values.2 (congrArg Fin.val same)⟩

theorem writtenPoint_plain (point : CodePoint) :
    (∃ letter rest, writtenPoint point = 92 :: letter :: rest ∧
      ∀ unit ∈ rest, plainUnit unit = true) ∨
    ∀ unit ∈ writtenPoint point, plainUnit unit = true := by
  unfold writtenPoint
  cases escapes : shortEscape point with
  | some letter => exact Or.inl ⟨letter, [], rfl, by simp⟩
  | none =>
    split_ifs with byNumber
    · refine Or.inl ⟨117, _, rfl, fun unit member => ?_⟩
      simp only [List.mem_cons, List.not_mem_nil, or_false] at member
      rcases member with rfl | rfl | rfl | rfl <;> exact plainUnit_hexUnit _
    · exact Or.inr fun unit => plainUnit_pointUnits escapes

theorem writtenPoint_append_ne (point : CodePoint) (rest other : Units) :
    writtenPoint point ++ rest ≠ 34 :: other := by
  intro same
  rcases writtenPoint_plain point with ⟨letter, later, escape, _⟩ | plain
  · rw [escape] at same
    cases same
  · cases units : writtenPoint point with
    | nil =>
      have both := (readPoint_writtenPoint point [92]).symm
      rw [units] at both
      cases both
    | cons first later =>
      rw [units, List.cons_append, List.cons.injEq] at same
      have isPlain := plain first (units ▸ List.mem_cons_self)
      rw [same.1] at isPlain
      cases isPlain

theorem written_append_inj {first second}
    (same : written first ++ 34 :: firstRest = written second ++ 34 :: secondRest) :
    first = second ∧ firstRest = secondRest := by
  have points : ∀ firsts seconds : List CodePoint,
      firsts.flatMap writtenPoint ++ 34 :: firstRest =
        seconds.flatMap writtenPoint ++ 34 :: secondRest →
      firsts = seconds ∧ firstRest = secondRest := by
    intro firsts
    induction firsts with
    | nil =>
      intro seconds same
      cases seconds with
      | nil => exact ⟨rfl, (List.cons.inj same).2⟩
      | cons point rest =>
        rw [List.flatMap_cons, List.append_assoc] at same
        exact absurd same.symm (writtenPoint_append_ne point _ _)
    | cons point rest ih =>
      intro seconds same
      rw [List.flatMap_cons, List.append_assoc] at same
      cases seconds with
      | nil => exact absurd same (writtenPoint_append_ne point _ _)
      | cons other others =>
        rw [List.flatMap_cons, List.append_assoc] at same
        have reads := congrArg readPoint same
        rw [readPoint_writtenPoint, readPoint_writtenPoint, Option.some.injEq,
          Prod.mk.injEq] at reads
        obtain ⟨rests, later⟩ := ih others reads.2
        exact ⟨congr (congrArg List.cons reads.1) rests, later⟩
  obtain ⟨all, rests⟩ := points _ _ same
  exact ⟨codePoints_injective all, rests⟩

theorem quoted_append_inj {first second}
    (same : quoted first ++ firstRest = quoted second ++ secondRest) :
    first = second ∧ firstRest = secondRest := by
  unfold quoted at same
  simp only [List.cons_append, List.append_assoc, List.nil_append] at same
  exact written_append_inj (List.cons.inj same).2

/-! ### Numbers -/

/-- A finite number, with one zero. -/
structure FiniteDouble where
  value : ℚ
  isDouble : IsDouble (.finite value)
  deriving DecidableEq

instance FiniteDouble.instZero : Zero FiniteDouble where
  zero := ⟨0, by
    rw [IsDouble, abs_zero]
    decide +kernel⟩

/-- `JSON.stringify` of a finite number. -/
def numberText (number : FiniteDouble) : Units := textUnits (numberToString (.finite number.value))

/-- A unit of a finite number's text. -/
def isNumberUnit (unit : CodeUnit) : Bool :=
  decide (48 ≤ unit.val ∧ unit.val < 58) || [43, 45, 46, 101].contains unit

theorem decimalChars_numberToString (value : ℚ) :
    (numberToString (.finite value)).toList ≠ [] ∧
      ∀ char ∈ (numberToString (.finite value)).toList, isDecimalChar char = true := by
  have isNumber : JsNumber.finite value ≠ .nan := by simp
  have nonempty := (numberToString_chars isNumber).1
  refine ⟨nonempty, ?_⟩
  unfold numberToString
  dsimp only
  split_ifs with zero negative
  · exact List.all_eq_true.mp (by decide)
  · rw [String.toList_append]
    refine List.forall_mem_append.mpr ⟨List.all_eq_true.mp (by decide), ?_⟩
    rw [String.toList_ofList]
    exact List.all_eq_true.mp (written_chars _)
  · rw [String.toList_ofList]
    exact List.all_eq_true.mp (written_chars _)

theorem charUnits_decimalChar {char} (decimal : isDecimalChar char = true) :
    ∃ unit : CodeUnit, charUnits char = [unit.val] ∧ isNumberUnit unit = true := by
  rcases (Bool.or_eq_true _ _).mp decimal with digit | mark
  · rw [Char.isDigit, Bool.and_eq_true, decide_eq_true_eq, decide_eq_true_eq] at digit
    have low : 48 ≤ char.toNat := digit.1
    have high : char.toNat ≤ 57 := digit.2
    refine ⟨⟨char.toNat, by omega⟩, if_pos (by omega), ?_⟩
    rw [isNumberUnit, Bool.or_eq_true, decide_eq_true_eq]
    exact Or.inl ⟨low, Nat.lt_succ_of_le high⟩
  · simp only [List.contains_eq_mem, List.mem_cons, List.not_mem_nil, or_false,
      decide_eq_true_eq] at mark
    rcases mark with rfl | rfl | rfl | rfl
    · exact ⟨46, rfl, rfl⟩
    · exact ⟨101, rfl, rfl⟩
    · exact ⟨43, rfl, rfl⟩
    · exact ⟨45, rfl, rfl⟩

theorem numberText_units (number : FiniteDouble) :
    numberText number ≠ [] ∧ ∀ unit ∈ numberText number, isNumberUnit unit = true := by
  obtain ⟨nonempty, chars⟩ := decimalChars_numberToString number.value
  unfold numberText textUnits codeUnits
  generalize (numberToString (.finite number.value)).toList = text at nonempty chars
  constructor
  · cases text with
    | nil => exact absurd rfl nonempty
    | cons char rest =>
      obtain ⟨unit, same, _⟩ := charUnits_decimalChar (chars char List.mem_cons_self)
      rw [List.flatMap_cons, same]
      exact List.cons_ne_nil _ _
  · intro unit member
    obtain ⟨value, inside, rfl⟩ := List.mem_map.mp member
    obtain ⟨char, isChar, units⟩ := List.mem_flatMap.mp inside
    obtain ⟨own, same, isOne⟩ := charUnits_decimalChar (chars char isChar)
    rw [same, List.mem_singleton] at units
    rw [units, Fin.ofNat_val_eq_self]
    exact isOne

theorem numberText_injective : Function.Injective numberText := by
  intro first second same
  have texts := congrArg numberOf (textUnits_injective same)
  rw [numberOf_numberToString first.isDouble, numberOf_numberToString second.isDouble] at texts
  cases first
  cases second
  cases texts
  rfl

/-- A text that does not go on a number. -/
def Ends (rest : Units) : Prop := ∀ unit ∈ rest.head?, isNumberUnit unit = false

theorem ends_cons (other : isNumberUnit unit = false) (rest : Units) : Ends (unit :: rest) := by
  intro head isHead
  rw [← Option.mem_some_iff.mp isHead]
  exact other

theorem takeWhile_numberText (number : FiniteDouble) {rest} (ends : Ends rest) :
    (numberText number ++ rest).takeWhile isNumberUnit = numberText number := by
  rw [List.takeWhile_append_of_pos (numberText_units number).2]
  cases rest with
  | nil => rw [List.takeWhile_nil, List.append_nil]
  | cons unit later =>
    rw [List.takeWhile_cons_of_neg, List.append_nil]
    rw [ends unit rfl]
    exact Bool.false_ne_true

theorem numberText_append_inj {first second} (firstEnds : Ends firstRest)
    (secondEnds : Ends secondRest)
    (same : numberText first ++ firstRest = numberText second ++ secondRest) :
    first = second ∧ firstRest = secondRest := by
  have numbers := congrArg (List.takeWhile isNumberUnit) same
  rw [takeWhile_numberText first firstEnds, takeWhile_numberText second secondEnds] at numbers
  rw [numbers] at same
  exact ⟨numberText_injective numbers, List.append_cancel_left same⟩

/-! ### Lists of texts -/

/-- Texts with a comma between each two. -/
def commas : List Units → Units
  | [] => []
  | text :: rest => text ++ rest.flatMap fun next => 44 :: next

section Lists

variable {Element : Type} {write : Element → Units}

/-- An element's text is read back, where what follows does not go on a number. -/
def ReadBack (write : Element → Units) (element : Element) : Prop :=
  ∀ other firstRest secondRest, Ends firstRest → Ends secondRest →
    write element ++ firstRest = write other ++ secondRest →
      element = other ∧ firstRest = secondRest

theorem ends_commas (rest : List Units) {close : CodeUnit} (closes : isNumberUnit close = false)
    (later : Units) : Ends ((rest.flatMap fun next => 44 :: next) ++ close :: later) := by
  cases rest with
  | nil => exact ends_cons closes later
  | cons next others => exact ends_cons rfl _

theorem commas_append_inj {close} (closes : isNumberUnit close = false) (notComma : close ≠ 44)
    (notClose : ∀ element rest later, write element ++ rest ≠ close :: later)
    {firsts seconds : List Element} (readBack : ∀ element ∈ firsts, ReadBack write element)
    {firstRest secondRest : Units} (same : commas (firsts.map write) ++ close :: firstRest =
      commas (seconds.map write) ++ close :: secondRest) :
    firsts = seconds ∧ firstRest = secondRest := by
  have tails : ∀ firsts seconds : List Element, (∀ element ∈ firsts, ReadBack write element) →
      ((firsts.map write).flatMap fun next => 44 :: next) ++ close :: firstRest =
        ((seconds.map write).flatMap fun next => 44 :: next) ++ close :: secondRest →
      firsts = seconds ∧ firstRest = secondRest := by
    intro firsts
    induction firsts with
    | nil =>
      intro seconds _ same
      cases seconds with
      | nil => exact ⟨rfl, (List.cons.inj same).2⟩
      | cons other others => exact absurd (List.cons.inj same).1 notComma
    | cons element rest ih =>
      intro seconds readBack same
      cases seconds with
      | nil => exact absurd (List.cons.inj same).1.symm notComma
      | cons other others =>
        simp only [List.map_cons, List.flatMap_cons, List.append_assoc, List.cons_append,
          List.cons.injEq, true_and] at same
        obtain ⟨rfl, later⟩ := readBack element List.mem_cons_self other _ _
          (ends_commas _ closes _) (ends_commas _ closes _) same
        obtain ⟨rests, ends⟩ := ih others
          (fun element member => readBack element (List.mem_cons_of_mem _ member)) later
        exact ⟨congrArg (List.cons element) rests, ends⟩
  cases firsts with
  | nil =>
    cases seconds with
    | nil => exact ⟨rfl, (List.cons.inj same).2⟩
    | cons other others =>
      rw [List.map_cons, commas, List.append_assoc] at same
      exact absurd same.symm (notClose other _ _)
  | cons element rest =>
    cases seconds with
    | nil =>
      rw [List.map_cons, commas, List.append_assoc] at same
      exact absurd same (notClose element _ _)
    | cons other others =>
      simp only [List.map_cons, commas, List.append_assoc] at same
      obtain ⟨rfl, later⟩ := readBack element List.mem_cons_self other _ _
        (ends_commas _ closes _) (ends_commas _ closes _) same
      obtain ⟨rests, ends⟩ := tails rest others
        (fun element member => readBack element (List.mem_cons_of_mem _ member)) later
      exact ⟨congrArg (List.cons element) rests, ends⟩

end Lists

/-! ### Values -/

/-- A JSON value. -/
inductive Json where
  | null
  | bool (value : Bool)
  | number (value : FiniteDouble)
  | string (text : Units)
  | array (items : List Json)
  | object (members : List (Units × Json))

namespace Json

/-- A member's text, of its key and its value's text. -/
def entryText (entry : Units × Units) : Units := quoted entry.1 ++ 58 :: entry.2

mutual

/-- `JSON.stringify`. -/
def text : Json → Units
  | .null => [110, 117, 108, 108]
  | .bool true => [116, 114, 117, 101]
  | .bool false => [102, 97, 108, 115, 101]
  | .number value => numberText value
  | .string text => quoted text
  | .array items => 91 :: (commas (itemTexts items) ++ [93])
  | .object members => 123 :: (commas (memberTexts members) ++ [125])
  termination_by structural json => json

def itemTexts : List Json → List Units
  | [] => []
  | item :: rest => item.text :: itemTexts rest
  termination_by structural items => items

def memberTexts : List (Units × Json) → List Units
  | [] => []
  | member :: rest => memberText member :: memberTexts rest
  termination_by structural members => members

def memberText : Units × Json → Units
  | (key, value) => entryText (key, value.text)
  termination_by structural member => member

end

theorem itemTexts_eq (items : List Json) : itemTexts items = items.map text := by
  induction items with
  | nil => rfl
  | cons item rest ih => rw [itemTexts, List.map_cons, ih]

theorem memberTexts_eq (members : List (Units × Json)) :
    memberTexts members = members.map memberText := by
  induction members with
  | nil => rfl
  | cons member rest ih => rw [memberTexts, List.map_cons, ih]

theorem memberText_eq (member : Units × Json) :
    memberText member = entryText (member.1, member.2.text) := by
  cases member
  rfl

theorem induction {motive : Json → Prop} (null : motive .null)
    (bool : ∀ value, motive (.bool value)) (number : ∀ value, motive (.number value))
    (string : ∀ text, motive (.string text))
    (array : ∀ items, (∀ item ∈ items, motive item) → motive (.array items))
    (object : ∀ members, (∀ member ∈ members, motive member.2) → motive (.object members))
    (json : Json) : motive json := by
  match json with
  | .null => exact null
  | .bool value => exact bool value
  | .number value => exact number value
  | .string text => exact string text
  | .array items =>
    exact array items fun item _ => induction null bool number string array object item
  | .object members =>
    refine object members fun member inside => ?_
    have smaller : sizeOf member.2 < sizeOf members := by
      have whole := List.sizeOf_lt_of_mem inside
      have part : sizeOf member.2 < sizeOf member := by
        obtain ⟨key, value⟩ := member
        simp only [Prod.mk.sizeOf_spec]
        omega
      exact part.trans whole
    exact induction null bool number string array object member.2
termination_by sizeOf json
decreasing_by
  all_goals simp_wf
  · have whole := List.sizeOf_lt_of_mem ‹_ ∈ items›
    omega
  · omega

/-- What kind of value a text that begins so is of. -/
def kindOf (unit : CodeUnit) : ℕ := if isNumberUnit unit then 0 else unit.val

/-- A value's kind by the unit its text begins with. -/
def kind : Json → ℕ
  | .null => 110
  | .bool true => 116
  | .bool false => 102
  | .number _ => 0
  | .string _ => 34
  | .array _ => 91
  | .object _ => 123

theorem head_text (json : Json) (rest : Units) :
    ((json.text ++ rest).head?).map kindOf = some json.kind := by
  cases json with
  | null => rfl
  | bool value => cases value <;> rfl
  | number value =>
    obtain ⟨nonempty, units⟩ := numberText_units value
    rw [text]
    cases same : numberText value with
    | nil => exact absurd same nonempty
    | cons unit later =>
      have isOne := units unit (same ▸ List.mem_cons_self)
      simp only [List.cons_append, List.head?_cons, Option.map_some, kindOf, isOne, if_true, kind]
  | string text => rfl
  | array items => rfl
  | object members => rfl

theorem text_append_ne (json : Json) {close} (closes : kindOf close = 93) (rest later : Units) :
    json.text ++ rest ≠ close :: later := by
  intro same
  have heads := head_text json rest
  rw [same, List.head?_cons, Option.map_some, closes] at heads
  cases json with
  | bool value => cases value <;> cases heads
  | null | number | string | array | object => cases heads

theorem kind_eq_of_append {first second : Json} {firstRest secondRest}
    (same : first.text ++ firstRest = second.text ++ secondRest) : first.kind = second.kind := by
  have heads := head_text first firstRest
  rw [same, head_text, Option.some.injEq] at heads
  exact heads.symm

theorem memberText_append_ne (member : Units × Json) (rest later : Units) :
    memberText member ++ rest ≠ 125 :: later := by
  obtain ⟨key, value⟩ := member
  intro same
  cases same

theorem readBack_memberText {member} (readBack : ReadBack text member.2) :
    ReadBack memberText member := by
  obtain ⟨key, value⟩ := member
  rintro ⟨otherKey, otherValue⟩ firstRest secondRest firstEnds secondEnds same
  simp only [memberText, entryText, List.append_assoc, List.cons_append] at same
  obtain ⟨rfl, values⟩ := quoted_append_inj same
  obtain ⟨rfl, rests⟩ :=
    readBack otherValue _ _ firstEnds secondEnds (List.cons.inj values).2
  exact ⟨rfl, rests⟩

theorem readBack_text (json : Json) : ReadBack text json := by
  induction json using Json.induction with
  | null =>
    intro other firstRest secondRest _ _ same
    have kinds := kind_eq_of_append same
    cases other with
    | null => exact ⟨rfl, List.append_cancel_left same⟩
    | bool value => cases value <;> cases kinds
    | number | string | array | object => cases kinds
  | bool value =>
    intro other firstRest secondRest _ _ same
    have kinds := kind_eq_of_append same
    cases other with
    | bool otherValue =>
      have values : value = otherValue := by
        cases value <;> cases otherValue <;> first | rfl | cases kinds
      subst values
      exact ⟨rfl, List.append_cancel_left same⟩
    | null | number | string | array | object => cases value <;> cases kinds
  | number value =>
    intro other firstRest secondRest firstEnds secondEnds same
    have kinds := kind_eq_of_append same
    cases other with
    | number otherValue =>
      obtain ⟨rfl, rests⟩ := numberText_append_inj firstEnds secondEnds same
      exact ⟨rfl, rests⟩
    | bool value => cases value <;> cases kinds
    | null | string | array | object => cases kinds
  | string content =>
    intro other firstRest secondRest _ _ same
    have kinds := kind_eq_of_append same
    cases other with
    | string otherContent =>
      obtain ⟨rfl, rests⟩ := quoted_append_inj same
      exact ⟨rfl, rests⟩
    | bool value => cases value <;> cases kinds
    | null | number | array | object => cases kinds
  | array items readBack =>
    intro other firstRest secondRest _ _ same
    have kinds := kind_eq_of_append same
    cases other with
    | array others =>
      simp only [text, itemTexts_eq, List.cons_append, List.append_assoc, List.nil_append,
        List.cons.injEq, true_and] at same
      obtain ⟨rfl, rests⟩ := commas_append_inj rfl (by decide)
        (fun item => text_append_ne item rfl) readBack same
      exact ⟨rfl, rests⟩
    | bool value => cases value <;> cases kinds
    | null | number | string | object => cases kinds
  | object members readBack =>
    intro other firstRest secondRest _ _ same
    have kinds := kind_eq_of_append same
    cases other with
    | object others =>
      simp only [text, memberTexts_eq, List.cons_append, List.append_assoc, List.nil_append,
        List.cons.injEq, true_and] at same
      obtain ⟨rfl, rests⟩ := commas_append_inj rfl (by decide)
        memberText_append_ne
        (fun member inside => readBack_memberText (readBack member inside)) same
      exact ⟨rfl, rests⟩
    | bool value => cases value <;> cases kinds
    | null | number | string | array => cases kinds

theorem text_injective : Function.Injective text := by
  intro first second same
  have ends : Ends [] := fun unit isHead => by cases isHead
  exact (readBack_text first second [] [] ends ends (by rw [same])).1

end Json

end Senars.Library
