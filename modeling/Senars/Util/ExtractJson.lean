/-
This file is the search for a JSON object in a model's answer: from each opening
brace in turn, braces are counted outside strings until the count is back at zero.

A value written by `JSON.stringify` leaves the count where it was and ends outside
strings, whatever its strings hold. So the count that an object's own brace begins
is back at zero at its last brace and not before.
-/

import Senars.Library.JsonText

namespace Senars.Util

open Library

/-- `{`. -/
abbrev openCode : CodeUnit := 123

/-- `}`. -/
abbrev closeCode : CodeUnit := 125

/-- `"`. -/
abbrev quoteCode : CodeUnit := 34

/-- `\`. -/
abbrev backslashCode : CodeUnit := 92

/-- The inner loop from unit `i` on: where the brace stands that brings `depth` to zero. -/
def closingBrace : ℤ → Bool → ℕ → Units → Option ℕ
  | _, _, _, [] => none
  | depth, true, i, code :: rest =>
    if code = backslashCode then
      -- the loop's own `i++` comes on top of the one here
      match rest with
      | [] => none
      | _ :: rest => closingBrace depth true (i + 2) rest
    else closingBrace depth (code != quoteCode) (i + 1) rest
  | depth, false, i, code :: rest =>
    if code = quoteCode then closingBrace depth true (i + 1) rest
    else if code = openCode then closingBrace (depth + 1) false (i + 1) rest
    else if code = closeCode then
      if depth - 1 = 0 then some i else closingBrace (depth - 1) false (i + 1) rest
    else closingBrace depth false (i + 1) rest

/-- The outer loop: `rest` is what `text` holds from `start` on. -/
def extractFrom (text : Units) (start : ℕ) : Units → Option Units
  | [] => none
  | code :: rest =>
    if code = openCode then
      match closingBrace 0 false start (code :: rest) with
      | some i => some ((text.drop start).take (i + 1 - start))
      | none => extractFrom text (start + 1) rest
    else extractFrom text (start + 1) rest

/-- `extractJsonObject`: the first balanced object in a text. -/
def extractJsonObject (text : Units) : Option Units := extractFrom text 0 text

theorem closingBrace_inString (depth : ℤ) (i : ℕ) {code} (rest : Units)
    (notBackslash : code ≠ backslashCode) :
    closingBrace depth true i (code :: rest) =
      closingBrace depth (code != quoteCode) (i + 1) rest := by
  cases rest <;> simp only [closingBrace, if_neg notBackslash]

/-! ### What the count passes over -/

/-- Read outside strings and within a brace, a text leaves the count where it was. -/
def Passes (part : Units) : Prop :=
  ∀ (depth : ℤ) (i : ℕ) (rest : Units), 0 < depth →
    closingBrace depth false i (part ++ rest) = closingBrace depth false (i + part.length) rest

/-- A unit the count takes no notice of outside strings. -/
def isOther (code : CodeUnit) : Bool :=
  code != quoteCode && code != openCode && code != closeCode

theorem passes_nil : Passes [] := fun _ _ _ _ => rfl

theorem Passes.append {first second} (firstPasses : Passes first) (secondPasses : Passes second) :
    Passes (first ++ second) := by
  intro depth i rest inside
  rw [List.append_assoc, firstPasses depth i _ inside, secondPasses depth _ rest inside,
    List.length_append, add_assoc]

theorem passes_singleton {code} (other : isOther code = true) : Passes [code] := by
  intro depth i rest inside
  rw [isOther, Bool.and_eq_true, Bool.and_eq_true, bne_iff_ne, bne_iff_ne, bne_iff_ne] at other
  rw [List.singleton_append, closingBrace, if_neg other.1.1, if_neg other.1.2, if_neg other.2]
  rfl

theorem passes_of_forall {part} (others : ∀ code ∈ part, isOther code = true) : Passes part := by
  induction part with
  | nil => exact passes_nil
  | cons code rest ih =>
    refine (passes_singleton (others code List.mem_cons_self)).append ?_
    exact ih fun other member => others other (List.mem_cons_of_mem _ member)

theorem passes_flatMap {Element : Type} {write : Element → Units} {elements : List Element}
    (each : ∀ element ∈ elements, Passes (write element)) : Passes (elements.flatMap write) := by
  induction elements with
  | nil => exact passes_nil
  | cons element rest ih =>
    refine (each element List.mem_cons_self).append ?_
    exact ih fun other member => each other (List.mem_cons_of_mem _ member)

theorem passes_commas {texts} (each : ∀ text ∈ texts, Passes text) : Passes (commas texts) := by
  cases texts with
  | nil => exact passes_nil
  | cons text rest =>
    refine (each text List.mem_cons_self).append (passes_flatMap fun next member => ?_)
    exact (passes_singleton rfl).append (each next (List.mem_cons_of_mem _ member))

/-! ### Strings -/

theorem closingBrace_plain (depth : ℤ) (i : ℕ) {part}
    (plain : ∀ code ∈ part, plainUnit code = true) (rest : Units) :
    closingBrace depth true i (part ++ rest) =
      closingBrace depth true (i + part.length) rest := by
  induction part generalizing i with
  | nil => rfl
  | cons code later ih =>
    have own := plain code List.mem_cons_self
    rw [plainUnit, Bool.and_eq_true, bne_iff_ne, bne_iff_ne] at own
    have stays : (code != quoteCode) = true := bne_iff_ne.mpr own.1
    rw [List.cons_append, closingBrace_inString _ _ _ own.2, stays, ih _
      fun other member => plain other (List.mem_cons_of_mem _ member), List.length_cons]
    congr 1
    omega

theorem closingBrace_writtenPoint (depth : ℤ) (i : ℕ) (point : CodePoint) (rest : Units) :
    closingBrace depth true i (writtenPoint point ++ rest) =
      closingBrace depth true (i + (writtenPoint point).length) rest := by
  rcases writtenPoint_plain point with ⟨letter, later, escape, plain⟩ | plain
  · rw [escape, List.cons_append, List.cons_append, closingBrace, if_pos rfl,
      closingBrace_plain depth _ plain, List.length_cons, List.length_cons]
    congr 1
    omega
  · exact closingBrace_plain depth i plain rest

theorem closingBrace_points (depth : ℤ) (i : ℕ) (points : List CodePoint) (rest : Units) :
    closingBrace depth true i (points.flatMap writtenPoint ++ rest) =
      closingBrace depth true (i + (points.flatMap writtenPoint).length) rest := by
  induction points generalizing i with
  | nil => rfl
  | cons point later ih =>
    rw [List.flatMap_cons, List.append_assoc, closingBrace_writtenPoint, ih,
      List.length_append, add_assoc]

theorem passes_quoted (text : Units) : Passes (quoted text) := by
  intro depth i rest _
  have closes : (quoteCode != quoteCode) = false := rfl
  rw [quoted, List.cons_append, closingBrace, if_pos rfl, List.append_assoc, written,
    closingBrace_points, List.singleton_append, closingBrace_inString _ _ _ (by decide), closes,
    List.length_cons, List.length_append, List.length_singleton]
  congr 1
  omega

/-! ### Values -/

theorem isOther_of_isNumberUnit {unit} (isOne : isNumberUnit unit = true) :
    isOther unit = true := by
  have different : ∀ mark : CodeUnit, isNumberUnit mark = false → unit ≠ mark := by
    rintro mark notOne rfl
    rw [isOne] at notOne
    cases notOne
  rw [isOther, Bool.and_eq_true, Bool.and_eq_true, bne_iff_ne, bne_iff_ne, bne_iff_ne]
  exact ⟨⟨different _ rfl, different _ rfl⟩, different _ rfl⟩

theorem passes_memberText {member} (passes : Passes member.2.text) :
    Passes (Json.memberText member) := by
  obtain ⟨key, value⟩ := member
  exact (passes_quoted key).append ((passes_singleton rfl).append passes)

theorem closingBrace_members {members} (each : ∀ member ∈ members, Passes member.2.text) {depth}
    (i : ℕ) (inside : 0 < depth) (rest : Units) :
    closingBrace depth false i (commas (Json.memberTexts members) ++ closeCode :: rest) =
      if depth - 1 = 0 then some (i + (commas (Json.memberTexts members)).length)
      else closingBrace (depth - 1) false (i + (commas (Json.memberTexts members)).length + 1)
        rest := by
  have passes : Passes (commas (Json.memberTexts members)) := by
    rw [Json.memberTexts_eq]
    refine passes_commas (List.forall_mem_map.mpr fun member own => ?_)
    exact passes_memberText (each member own)
  rw [passes depth i _ inside, closingBrace, if_neg (by decide), if_neg (by decide), if_pos rfl]

theorem passes_text (json : Json) : Passes json.text := by
  induction json using Json.induction with
  | null => exact passes_of_forall (List.all_eq_true.mp rfl)
  | bool value => cases value <;> exact passes_of_forall (List.all_eq_true.mp rfl)
  | number value =>
    exact passes_of_forall fun unit member =>
      isOther_of_isNumberUnit ((numberText_units value).2 unit member)
  | string text => exact passes_quoted text
  | array items passes =>
    refine (passes_singleton rfl).append (Passes.append ?_ (passes_singleton rfl))
    rw [Json.itemTexts_eq]
    exact passes_commas (List.forall_mem_map.mpr passes)
  | object members passes =>
    intro depth i rest inside
    have deeper : depth + 1 - 1 ≠ 0 := by omega
    rw [Json.text, List.cons_append, closingBrace, if_neg (by decide), if_pos rfl,
      List.append_assoc, List.singleton_append,
      closingBrace_members passes _ (by omega), if_neg deeper, add_sub_cancel_right,
      List.length_cons, List.length_append, List.length_singleton]
    congr 1
    omega

theorem closingBrace_object (members : List (Units × Json)) (i : ℕ) (rest : Units) :
    closingBrace 0 false i ((Json.object members).text ++ rest) =
      some (i + (Json.object members).text.length - 1) := by
  rw [Json.text, List.cons_append, closingBrace, if_neg (by decide), if_pos rfl,
    List.append_assoc, List.singleton_append,
    closingBrace_members (fun member _ => passes_text member.2) _ (by decide), if_pos (by decide),
    List.length_cons, List.length_append, List.length_singleton]
  congr 1
  omega

/-! ### The object that is found -/

theorem extractFrom_noBrace (text : Units) (start : ℕ) {before} (noBrace : openCode ∉ before)
    (rest : Units) :
    extractFrom text start (before ++ rest) = extractFrom text (start + before.length) rest := by
  induction before generalizing start with
  | nil => rfl
  | cons code later ih =>
    rw [List.mem_cons, not_or] at noBrace
    rw [List.cons_append, extractFrom, if_neg (Ne.symm noBrace.1),
      ih _ noBrace.2, List.length_cons]
    congr 1
    omega

/-- Of a text without an opening brace, an object's text and any text after it, the object's
text is what is found. -/
theorem extractJsonObject_stringify {before : Units} (noBrace : openCode ∉ before)
    (members : List (Units × Json)) (after : Units) :
    extractJsonObject (before ++ (Json.object members).text ++ after) =
      some (Json.object members).text := by
  obtain ⟨rest, starts⟩ : ∃ rest, (Json.object members).text = openCode :: rest := ⟨_, rfl⟩
  have found := closingBrace_object members before.length after
  rw [extractJsonObject, List.append_assoc, extractFrom_noBrace _ _ noBrace, zero_add]
  rw [starts, List.cons_append] at found ⊢
  rw [extractFrom, if_pos rfl, found]
  simp only [Option.some.injEq]
  rw [List.drop_left, ← List.cons_append]
  have length : before.length + (openCode :: rest).length - 1 + 1 - before.length =
      (openCode :: rest).length := by
    rw [List.length_cons]
    omega
  rw [length, List.take_left]

/-- Two braces and a quote in a string, behind a word and before a brace. -/
theorem extractJsonObject_stringify_braces :
    extractJsonObject (textUnits "so " ++
        (Json.object [(textUnits "a\x7d", .array [.string (textUnits "\x7b\""), .null])]).text ++
          textUnits " or \x7b") =
      some (Json.object [(textUnits "a\x7d", .array [.string (textUnits "\x7b\""), .null])]).text :=
  extractJsonObject_stringify (by decide) _ _

end Senars.Util
