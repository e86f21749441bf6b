/-
This file is about the symbols a call's values are written as.

A value is read back from its symbol unless the symbol says something else: the texts
`true` and `false` are read as truth values, and a whole number from `10 ^ 21` on is
written with an exponent, whose sign is no character of an atom, and is read as a text.
-/

import Senars.Library.WholeNumbers
import Senars.Terms.OperationTerm

namespace Senars.Terms

open Library

/-! ### Symbols -/

variable {whole : ℕ} {value : ArgValue} {symbol : String}

theorem writtenSymbol_of_valid (valid : isValidAtomSymbol symbol = true) :
    writtenSymbol symbol = symbol := by
  rw [writtenSymbol, valid, Bool.true_or, if_pos rfl]

theorem atomOf_of_valid (valid : isValidAtomSymbol symbol = true) :
    atomOf symbol = .ok (.atom symbol) := by
  have each := List.all_eq_true.mp valid
  have noColon : symbol.toList.contains ':' = false := by
    rw [Bool.eq_false_iff]
    intro colon
    exact absurd (each ':' (List.contains_iff_mem.mp colon)) (by decide)
  have plain : (symbol.toList.find? fun char => !isAtomChar char) = none := by
    rw [List.find?_eq_none]
    intro char member
    rw [each char member]
    decide
  have built : createAtom symbol = .ok (.atom symbol) := by
    rw [createAtom, if_neg (by rw [noColon]; decide), plain]
    exact ite_self _
  unfold atomOf
  split_ifs with isTrue isFalse isNull
  · rw [isTrue]
    rfl
  · rw [isFalse]
    rfl
  · rw [isNull]
    rfl
  · exact built

theorem replaceRuns_valid (inRun : Bool) (chars : List Char) :
    (replaceRuns inRun chars).all isAtomChar = true := by
  induction chars generalizing inRun with
  | nil => rfl
  | cons char rest ih =>
    unfold replaceRuns
    split_ifs with valid run
    · rw [List.all_cons, valid, ih]
      rfl
    · exact ih true
    · rw [List.all_cons, ih]
      rfl

theorem toAtomSymbol_eq (text : String) :
    toAtomSymbol text = String.ofList (replaceRuns false text.toList) := by
  rw [toAtomSymbol, if_pos]
  rw [isValidAtomSymbol, String.toList_ofList]
  exact replaceRuns_valid false text.toList

theorem underscore_mem_replaceRuns {chars char} (member : char ∈ chars)
    (invalid : isAtomChar char = false) : '_' ∈ replaceRuns false chars := by
  induction chars with
  | nil => cases member
  | cons first rest ih =>
    unfold replaceRuns
    by_cases valid : isAtomChar first = true
    · rw [if_pos valid]
      rcases List.mem_cons.mp member with rfl | later
      · exact absurd valid (by rw [invalid]; decide)
      · exact List.mem_cons_of_mem _ (ih later)
    · rw [if_neg valid]
      exact List.mem_cons_self

theorem isAtomChar_of_isDigit {char} (digit : char.isDigit = true) : isAtomChar char = true := by
  simp only [Char.isDigit, Bool.and_eq_true, decide_eq_true_eq, ge_iff_le] at digit
  simp only [isAtomChar, Bool.or_eq_true, Bool.and_eq_true, decide_eq_true_eq]
  exact Or.inl (Or.inl (Or.inr digit))

/-! ### Values and their symbols -/

/-- The symbol a value is written as. -/
def valueSymbol (value : ArgValue) : String := writtenSymbol (valueString value)

/-- A value a call may be given: a whole number, a truth value, or the symbol of an atom that is
not a number. -/
def IsArgument : ArgValue → Prop
  | .number value => ∃ whole : ℕ, value = .finite whole ∧ IsDouble value
  | .bool _ => True
  | .text value => isValidAtomSymbol value = true ∧ readDigits value.toList = none
  | .list _ => False

/-- A value whose symbol says nothing else. -/
def Faithful : ArgValue → Prop
  | .number value => ∀ whole : ℕ, value = .finite whole → whole < 10 ^ 21
  | .text value => value ≠ "true" ∧ value ≠ "false"
  | _ => True

theorem valueSymbol_text {value : String} (valid : isValidAtomSymbol value = true) :
    valueSymbol (.text value) = value :=
  writtenSymbol_of_valid valid

theorem valueSymbol_bool (value : Bool) :
    valueSymbol (.bool value) = if value then "true" else "false" := by
  cases value <;> exact writtenSymbol_of_valid (by decide)

theorem readDigits_valueSymbol (double : IsDouble (.finite whole)) (small : whole < 10 ^ 21) :
    isValidAtomSymbol (numberToString (.finite whole)) = true ∧
      ∃ read : ℕ, readDigits (valueSymbol (.number (.finite whole))).toList = some read ∧
        toDouble read = .finite whole := by
  obtain ⟨read, reads, same⟩ := readDigits_numberToString double small
  have valid : isValidAtomSymbol (numberToString (.finite whole)) = true := by
    rw [isValidAtomSymbol, List.all_eq_true]
    intro char member
    unfold readDigits at reads
    split at reads
    · rename_i digits
      exact isAtomChar_of_isDigit (List.all_eq_true.mp digits.2 char member)
    · cases reads
  refine ⟨valid, read, ?_, same⟩
  rw [valueSymbol, valueString, writtenSymbol_of_valid valid]
  exact reads

theorem valueSymbol_large (large : 10 ^ 21 ≤ whole) :
    valueSymbol (.number (.finite whole)) = toAtomSymbol (numberToString (.finite whole)) ∧
      '_' ∈ (valueSymbol (.number (.finite whole))).toList := by
  have plus := plus_mem_numberToString large
  obtain ⟨first, rest, begins, digit⟩ := exists_digit_numberToString whole
  have invalid : isValidAtomSymbol (numberToString (.finite whole)) = false := by
    rw [isValidAtomSymbol, List.all_eq_false]
    exact ⟨'+', plus, by decide⟩
  have unquoted : isQuoted (numberToString (.finite whole)) = false := by
    have different : first ≠ '"' := by
      rintro rfl
      cases digit
    simp [isQuoted, isQuotedAtom, begins, different]
  have written : valueSymbol (.number (.finite whole)) =
      toAtomSymbol (numberToString (.finite whole)) := by
    rw [valueSymbol, valueString, writtenSymbol, invalid, unquoted]
    rfl
  refine ⟨written, ?_⟩
  rw [written, toAtomSymbol_eq, String.toList_ofList]
  exact underscore_mem_replaceRuns plus (by decide)

theorem exists_digit_valueSymbol (double : IsDouble (.finite whole)) :
    ∃ first rest, (valueSymbol (.number (.finite whole))).toList = first :: rest ∧
      first.isDigit = true := by
  obtain ⟨first, rest, begins, digit⟩ := exists_digit_numberToString whole
  rcases Nat.lt_or_ge whole (10 ^ 21) with small | large
  · obtain ⟨valid, -⟩ := readDigits_valueSymbol double small
    rw [valueSymbol, valueString, writtenSymbol_of_valid valid]
    exact ⟨first, rest, begins, digit⟩
  · rw [(valueSymbol_large large).1, toAtomSymbol_eq, String.toList_ofList, begins, replaceRuns,
      if_pos (isAtomChar_of_isDigit digit)]
    exact ⟨first, _, rfl, digit⟩

theorem isValidAtomSymbol_valueSymbol (argument : IsArgument value) :
    isValidAtomSymbol (valueSymbol value) = true := by
  match value, argument with
  | .number _, ⟨whole, rfl, double⟩ =>
    rcases Nat.lt_or_ge whole (10 ^ 21) with small | large
    · obtain ⟨valid, -⟩ := readDigits_valueSymbol double small
      rw [valueSymbol, valueString, writtenSymbol_of_valid valid]
      exact valid
    · rw [(valueSymbol_large large).1, toAtomSymbol_eq, isValidAtomSymbol, String.toList_ofList]
      exact replaceRuns_valid false _
  | .bool value, _ =>
    rw [valueSymbol_bool]
    cases value <;> decide
  | .text _, ⟨valid, _⟩ => rw [valueSymbol_text valid, valid]

theorem atomValue_of_valid (valid : isValidAtomSymbol symbol = true)
    (noNumber : readDigits symbol.toList = none) :
    atomValue symbol = if symbol = "true" then .bool true
      else if symbol = "false" then .bool false else .text symbol := by
  have each := List.all_eq_true.mp valid
  have noDecimal : isDecimalText symbol.toList = false := by
    unfold isDecimalText
    split
    · rename_i whole fraction spans
      rw [List.span_eq_takeWhile_dropWhile] at spans
      have point : '.' ∈ symbol.toList := by
        refine (List.dropWhile_sublist Char.isDigit).subset ?_
        rw [(Prod.mk.inj spans).2]
        exact List.mem_cons_self
      exact absurd (each '.' point) (by decide)
    · rfl
  have noQuote : ∀ quote, isAtomChar quote = false → isEnclosed quote symbol = false := by
    intro quote invalid
    rw [isEnclosed, Bool.and_eq_false_iff]
    left
    rw [beq_eq_false_iff_ne]
    intro begins
    have quoted := each quote (List.mem_of_mem_head? begins)
    rw [invalid] at quoted
    cases quoted
  rw [atomValue, noNumber]
  simp only [noDecimal, noQuote '"' (by decide), noQuote singleQuote (by decide),
    Bool.false_eq_true, if_false]

theorem atomValue_large (double : IsDouble (.finite whole)) (large : 10 ^ 21 ≤ whole) :
    readDigits (valueSymbol (.number (.finite whole))).toList = none ∧
      atomValue (valueSymbol (.number (.finite whole))) =
        .text (valueSymbol (.number (.finite whole))) := by
  have valid : isValidAtomSymbol (valueSymbol (.number (.finite whole))) = true :=
    isValidAtomSymbol_valueSymbol ⟨whole, rfl, double⟩
  have underscore := (valueSymbol_large large).2
  obtain ⟨first, rest, begins, digit⟩ := exists_digit_valueSymbol double
  have noNumber : readDigits (valueSymbol (.number (.finite whole))).toList = none := by
    rw [readDigits, if_neg]
    rintro ⟨-, digits⟩
    exact absurd (List.all_eq_true.mp digits '_' underscore) (by decide)
  refine ⟨noNumber, ?_⟩
  rw [atomValue_of_valid valid noNumber, if_neg, if_neg]
  · intro same
    rw [same] at begins
    cases begins
    cases digit
  · intro same
    rw [same] at begins
    cases begins
    cases digit

theorem isArgument_atomValue (argument : IsArgument value) :
    IsArgument (atomValue (valueSymbol value)) ∧ Faithful (atomValue (valueSymbol value)) := by
  match value, argument with
  | .number _, ⟨whole, rfl, double⟩ =>
    rcases Nat.lt_or_ge whole (10 ^ 21) with small | large
    · obtain ⟨-, read, reads, same⟩ := readDigits_valueSymbol double small
      rw [atomValue, reads]
      dsimp only
      rw [same]
      refine ⟨⟨whole, rfl, double⟩, fun other equal => ?_⟩
      have cast : (whole : ℚ) = other := JsNumber.finite.inj equal
      have whole_eq : whole = other := by exact_mod_cast cast
      exact whole_eq ▸ small
    · obtain ⟨noNumber, reads⟩ := atomValue_large double large
      obtain ⟨first, rest, begins, digit⟩ := exists_digit_valueSymbol double
      rw [reads]
      refine ⟨⟨isValidAtomSymbol_valueSymbol ⟨whole, rfl, double⟩, noNumber⟩, ?_, ?_⟩
      · intro same
        rw [same] at begins
        cases begins
        cases digit
      · intro same
        rw [same] at begins
        cases begins
        cases digit
  | .bool value, _ =>
    cases value <;> exact ⟨trivial, trivial⟩
  | .text value, ⟨valid, noNumber⟩ =>
    rw [valueSymbol_text valid, atomValue_of_valid valid noNumber]
    split_ifs with isTrue isFalse
    · exact ⟨trivial, trivial⟩
    · exact ⟨trivial, trivial⟩
    · exact ⟨⟨valid, noNumber⟩, isTrue, isFalse⟩

theorem atomValue_valueSymbol_iff (argument : IsArgument value) :
    atomValue (valueSymbol value) = value ↔ Faithful value := by
  constructor
  · intro same
    have faithful := (isArgument_atomValue argument).2
    rwa [same] at faithful
  · match value, argument with
    | .number _, ⟨whole, rfl, double⟩ =>
      intro faithful
      obtain ⟨-, read, reads, same⟩ := readDigits_valueSymbol double (faithful whole rfl)
      rw [atomValue, reads]
      dsimp only
      rw [same]
    | .bool value, _ =>
      intro _
      cases value <;> rfl
    | .text value, ⟨valid, noNumber⟩ =>
      rintro ⟨notTrue, notFalse⟩
      rw [valueSymbol_text valid, atomValue_of_valid valid noNumber, if_neg notTrue,
        if_neg notFalse]

theorem placeName_injective : Function.Injective placeName := by
  intro first second same
  have texts : Nat.repr first = Nat.repr second := (String.append_right_inj "arg").mp same
  have digits : Nat.toDigits 10 first = Nat.toDigits 10 second := by
    rw [← Nat.toList_repr, texts, Nat.toList_repr]
  rw [← Nat.ofDigitChars_ten_toDigits (n := first), digits, Nat.ofDigitChars_ten_toDigits]

end Senars.Terms
