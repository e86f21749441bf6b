/-
This file says which terms have a text that reads back, and collects what is
needed to know about such a text: what it looks like for every kind, which
characters it begins with, and when it holds a double quote.

A term is legible if every compound in it has a surface form that shows all its
arguments and that no other rule of the grammar reads first. The forms that do
not are a statement or a set operator with too few or too many arguments, a
product of one negation, an operation whose operator ends in a variable, and a
lone quote with another quote after it.
-/

import Senars.Grammar.Results

namespace Senars.Grammar

open Library Peg Terms

/-! ### Legible terms -/

/-- Whether the last thing a term's text shows is a variable. -/
def endsInVariable : Term → Bool
  | .atom symbol => isVariableSymbol symbol
  | .compound .negation [operand] => endsInVariable operand
  | .compound _ _ => false

/-- The kinds that are written between two arguments. -/
def infixKind (kind : OperatorKey) : Bool :=
  kind ≠ .negation && kind ≠ .setExt && kind ≠ .setInt && kind ≠ .operation && kind ≠ .product

/-- A lone quote in the first term is not closed by a quote in the later one. -/
def QuotesApart (first later : Term) : Prop :=
  AtomsAmong (· ≠ "\"") first ∨ AtomsAmong (fun symbol => '"' ∉ symbol.toList) later

/-- A term whose text shows what it is. -/
inductive Legible : Term → Prop
  | atom (symbol : String) : Legible (.atom symbol)
  | pair (kind : OperatorKey) (first second : Term) (written : infixKind kind = true)
      (left : Legible first) (right : Legible second) (apart : QuotesApart first second) :
      Legible (.compound kind [first, second])
  | listed (kind : OperatorKey) (args : List Term) (written : infixKind kind = true)
      (nary : naryOps kind = true) (more : 2 < args.length) (each : ∀ arg ∈ args, Legible arg)
      (apart : args.Pairwise QuotesApart) : Legible (.compound kind args)
  | product (args : List Term) (each : ∀ arg ∈ args, Legible arg)
      (apart : args.Pairwise QuotesApart)
      (shown : ∀ operand, args ≠ [.compound .negation [operand]]) :
      Legible (.compound .product args)
  | operation (op : Term) (args : List Term) (head : Legible op) (each : ∀ arg ∈ args, Legible arg)
      (ends : endsInVariable op = false) (before : ∀ arg ∈ args, QuotesApart op arg)
      (apart : args.Pairwise QuotesApart) :
      Legible (.compound .operation [op, .compound .product args])
  | negation (operand : Term) (inner : Legible operand) :
      Legible (.compound .negation [operand])
  | set (kind : OperatorKey) (args : List Term) (braced : kind = .setExt ∨ kind = .setInt)
      (each : ∀ arg ∈ args, Legible arg) (apart : args.Pairwise QuotesApart) :
      Legible (.compound kind args)

theorem Legible.of_negation {operand} (legible : Legible (.compound .negation [operand])) :
    Legible operand := by
  generalize same : Term.compound .negation [operand] = term at legible
  cases legible with
  | negation other inner =>
    obtain rfl : operand = other := by simpa using same
    exact inner
  | atom symbol => cases same
  | pair kind first second => simp at same
  | listed kind args written =>
    obtain ⟨rfl, -⟩ := Term.compound.inj same
    cases written
  | product args => simp at same
  | operation op args => simp at same
  | set kind args braced =>
    obtain ⟨rfl, -⟩ := Term.compound.inj same
    rcases braced with other | other <;> cases other

/-! ### Texts -/

/-- The characters of a term's text. -/
def text (term : Term) : List Char := (serializeTerm term).toList

/-- The characters of an argument list's text. -/
def listText (args : List Term) : List Char := (join "," (args.map serializeTerm)).toList

def symbolText (kind : OperatorKey) : List Char := (operators kind).symbol.toList

@[simp] theorem text_atom (symbol : String) : text (.atom symbol) = symbol.toList := rfl

@[simp] theorem listText_nil : listText [] = [] := rfl

@[simp] theorem listText_singleton (arg : Term) : listText [arg] = text arg := rfl

theorem listText_cons_cons (arg next : Term) (rest : List Term) :
    listText (arg :: next :: rest) = text arg ++ ',' :: listText (next :: rest) := by
  simp [listText, text, join_cons_cons]

theorem text_pair {kind : OperatorKey} (written : infixKind kind = true) (first second : Term) :
    text (.compound kind [first, second]) =
      '(' :: (text first ++ (symbolText kind ++ (text second ++ [')']))) := by
  cases kind <;> first
    | exact absurd written (by decide)
    | simp [text, symbolText, serializeTerm, serializeArgs, serializeCompound, naryOps, binaryOps,
        operators, serializeNary, serializeBinary, narySeparator]

theorem text_listed {kind : OperatorKey} (written : infixKind kind = true)
    (nary : naryOps kind = true) {args : List Term} (more : 2 < args.length) :
    text (.compound kind args) = '(' :: (symbolText kind ++ ',' :: (listText args ++ [')'])) := by
  match args with
  | [] | [_] | [_, _] => simp at more
  | first :: second :: third :: rest =>
    cases kind <;> first
      | exact absurd written (by decide)
      | exact absurd nary (by decide)
      | simp [text, symbolText, listText, serializeTerm, serializeArgs, serializeArgs_eq,
          serializeCompound, naryOps, operators, serializeNary]

theorem text_product (args : List Term) :
    text (.compound .product args) = '(' :: (listText args ++ [')']) := by
  match args with
  | [] | [_] | [_, _] | _ :: _ :: _ :: _ =>
    simp [text, listText, serializeTerm, serializeArgs, serializeArgs_eq, serializeCompound,
      naryOps, operators, serializeNary, narySeparator, emptyCompound, join]

theorem text_operation (op : Term) (args : List Term) :
    text (.compound .operation [op, .compound .product args]) =
      '(' :: (text op ++ (symbolText .operation ++ (text (.compound .product args) ++ [')']))) := by
  rw [text_product]
  simp [text, listText, symbolText, operators, serializeTerm, serializeOperation,
    serializeArgs_eq]

theorem text_negation (operand : Term) :
    text (.compound .negation [operand]) = '-' :: '-' :: text operand := by
  simp [text, serializeTerm, serializeArgs, serializeCompound, naryOps, binaryOps, operators,
    wrappers]

theorem text_setExt (args : List Term) :
    text (.compound .setExt args) = '\x7b' :: (listText args ++ ['\x7d']) := by
  simp [text, listText, serializeTerm, serializeArgs_eq, serializeCompound, naryOps, binaryOps,
    operators, wrappers]

theorem text_setInt (args : List Term) :
    text (.compound .setInt args) = '[' :: (listText args ++ [']']) := by
  simp [text, listText, serializeTerm, serializeArgs_eq, serializeCompound, naryOps, binaryOps,
    operators, wrappers]

/-! ### What a text begins with -/

/-- The characters the text of an atom begins with. -/
def opensAtom (char : Char) : Bool :=
  atomicChar char && isAtomChar char || isSigil char || char == '"'

/-- The characters the text of a term begins with. -/
def opensTerm (char : Char) : Bool := opensAtom char || "(\x7b[-".toList.contains char

theorem AtomText.head {chars} (atomText : AtomText chars) :
    ∃ char rest, chars = char :: rest ∧ opensAtom char = true := by
  cases atomText with
  | word _ some plain accepted =>
    obtain ⟨char, rest, rfl⟩ := List.exists_cons_of_ne_nil some
    simp [opensAtom, plain char List.mem_cons_self, accepted char List.mem_cons_self]
  | variableName sigil rest opens plain => exact ⟨sigil, rest, rfl, by simp [opensAtom, opens]⟩
  | quoted rest closed => exact ⟨'"', _, rfl, by decide⟩
  | quote => exact ⟨'"', [], rfl, by decide⟩

variable {term : Term}

theorem Legible.text_head (legible : Legible term) (readable : AtomsAmong Readable term) :
    ∃ char rest, text term = char :: rest ∧ opensTerm char = true ∧
      (char = '-' → ∃ operand, term = .compound .negation [operand]) := by
  cases legible with
  | atom symbol =>
    obtain ⟨char, rest, split, opens⟩ := ((atomsAmong_atom symbol).mp readable).text.head
    refine ⟨char, rest, split, by simp [opensTerm, opens], ?_⟩
    rintro rfl
    exact absurd opens (by decide)
  | pair kind first second written => exact ⟨'(', _, text_pair written _ _, by decide, by simp⟩
  | listed kind args written nary more =>
    exact ⟨'(', _, text_listed written nary more, by decide, by simp⟩
  | product args => exact ⟨'(', _, text_product args, by decide, by simp⟩
  | operation op args => exact ⟨'(', _, text_operation op args, by decide, by simp⟩
  | negation operand => exact ⟨'-', _, text_negation operand, by decide, fun _ => ⟨operand, rfl⟩⟩
  | set kind args braced =>
    rcases braced with rfl | rfl
    · exact ⟨'\x7b', _, text_setExt args, by decide, by simp⟩
    · exact ⟨'[', _, text_setInt args, by decide, by simp⟩

theorem Legible.avoids (legible : Legible term) (readable : AtomsAmong Readable term)
    (rest : List Char) : Avoids (text term ++ rest) fun char => !opensTerm char := by
  obtain ⟨char, more, split, opens, -⟩ := legible.text_head readable
  rw [split, List.cons_append, avoids_cons, opens]
  rfl

/-! ### Quotes in a text -/

theorem quote_notMem_symbolText (kind : OperatorKey) : '"' ∉ symbolText kind := by
  cases kind <;> decide

theorem quote_notMem_listText {args} (each : ∀ arg ∈ args, '"' ∉ text arg) :
    '"' ∉ listText args := by
  induction args with
  | nil => exact List.not_mem_nil
  | cons arg rest ih =>
    have first := each arg List.mem_cons_self
    have later := ih fun other member => each other (List.mem_cons_of_mem _ member)
    cases rest with
    | nil => exact first
    | cons next rest =>
      rw [listText_cons_cons]
      simp [first, later]

theorem Legible.quote_notMem (legible : Legible term)
    (unquoted : AtomsAmong (fun symbol => '"' ∉ symbol.toList) term) : '"' ∉ text term := by
  induction legible with
  | atom symbol => exact (atomsAmong_atom symbol).mp unquoted
  | pair kind first second written _ _ _ left right =>
    have args := (atomsAmong_compound _ _).mp unquoted
    rw [text_pair written]
    simp [left (args first (by simp)), right (args second (by simp)), quote_notMem_symbolText]
  | listed kind args written nary more _ _ each =>
    have args := (atomsAmong_compound _ _).mp unquoted
    rw [text_listed written nary more]
    have listed := quote_notMem_listText fun arg member => each arg member (args arg member)
    simp [listed, quote_notMem_symbolText]
  | product args _ _ _ each =>
    have args := (atomsAmong_compound _ _).mp unquoted
    rw [text_product]
    have listed := quote_notMem_listText fun arg member => each arg member (args arg member)
    simp [listed]
  | operation op args _ _ _ _ _ head each =>
    have outer := (atomsAmong_compound _ _).mp unquoted
    have args := (atomsAmong_compound _ _).mp (outer (.compound .product args) (by simp))
    rw [text_operation, text_product]
    have listed := quote_notMem_listText fun arg member => each arg member (args arg member)
    simp [listed, head (outer op (by simp)), quote_notMem_symbolText]
  | negation operand _ inner =>
    have args := (atomsAmong_compound _ _).mp unquoted
    rw [text_negation]
    simp [inner (args operand (by simp))]
  | set kind args braced _ _ each =>
    have args := (atomsAmong_compound _ _).mp unquoted
    have listed := quote_notMem_listText fun arg member => each arg member (args arg member)
    rcases braced with rfl | rfl
    · rw [text_setExt]
      simp [listed]
    · rw [text_setInt]
      simp [listed]

end Senars.Grammar
