/-
This file is about the alternatives of a term, one after another. Most fail on
the first character of a text. An atom's text is read by the alternative for
atoms, after the others failed, and an operator's token is read where a term
cannot begin.
-/

import Senars.Grammar.Atoms

namespace Senars.Grammar

open Library Peg Terms

variable {collator : Collator}

/-! ### Terms in front of a text -/

/-- A term whose text reads back in front of a text. -/
structure Ready (collator : Collator) (term : Term) (rest : List Char) : Prop where
  legible : Legible term
  canonical : Canonical termKey collator term
  readable : AtomsAmong Readable term
  stops : Stops rest
  ends : endsInVariable term = true → Avoids rest (· == '^')
  closed : AtomsAmong (· ≠ "\"") term ∨ '"' ∉ rest

/-! ### Rules that fail on the first character -/

section Failing

variable {rule : Rule Node} {whole : List Char}

theorem fails_atomic {member} (quote : Avoids whole (· == '"')) (avoids : Avoids whole member) :
    Fails (firstOf [stringLiteral, run1 member >>= atom]) whole :=
  (fails_stringLiteral quote).firstOf_fails
    ((fails_run1 avoids).bind.firstOf_fails fails_firstOf_nil)

theorem fails_statement (angle : Avoids whole (· == '<')) (round : Avoids whole (· == '(')) :
    Fails (statement collator rule) whole :=
  (fails_literal rfl angle).bind.firstOf_fails
    ((fails_literal rfl round).bind.firstOf_fails fails_firstOf_nil)

theorem fails_compactInheritance (misses : Misses atomicTerm whole ':') :
    Fails (compactInheritance collator rule) whole :=
  misses.bind_literal rfl fun pred => rule >>= fun subj => inheritance collator subj pred

theorem fails_negationTerm (dash : Avoids whole (· == '-')) :
    Fails (negationTerm collator rule) whole :=
  (fails_literal rfl dash).bind

theorem fails_deltaTerm (delta : Avoids whole (· == 'Δ')) (slash : Avoids whole (· == '/')) :
    Fails (deltaTerm collator rule) whole :=
  (fails_literal rfl delta).bind.firstOf_fails
    ((fails_literal rfl slash).bind.firstOf_fails fails_firstOf_nil)

theorem fails_operationCall (misses : Misses operationAtomicTerm whole '(') :
    Fails (operationCall collator rule) whole :=
  misses.bind_literal rfl fun operator => do
    let _ ← whitespace
    let args ← components rule
    let _ ← whitespace
    literal ")"
    operation collator operator args

theorem fails_compoundTerm (round : Avoids whole (· == '('))
    (call : Misses operationAtomicTerm whole '(') : Fails (compoundTerm collator rule) whole :=
  (fails_literal rfl round).bind.firstOf_fails ((fails_literal rfl round).bind.firstOf_fails
    ((fails_operationCall call).firstOf_fails
      ((fails_literal rfl round).bind.firstOf_fails fails_firstOf_nil)))

theorem fails_set (brace : Avoids whole (· == '\x7b')) (bracket : Avoids whole (· == '[')) :
    Fails (set collator rule) whole :=
  (fails_literal rfl brace).bind.firstOf_fails
    ((fails_literal rfl bracket).bind.firstOf_fails fails_firstOf_nil)

theorem fails_imagePlaceholder (backslash : Avoids whole (· == '\\'))
    (slash : Avoids whole (· == '/')) : Fails imagePlaceholder whole :=
  (fails_literal rfl backslash).bind.firstOf_fails
    ((fails_literal rfl slash).bind.firstOf_fails fails_firstOf_nil)

/-- A text that begins with no opening character of an atom: the rules for atoms fail on it. -/
structure AvoidsAtoms (whole : List Char) : Prop where
  operational : Avoids whole operationChar
  sigil : Avoids whole isSigil

theorem AvoidsAtoms.operationAtomicTerm (avoids : AvoidsAtoms whole) :
    Fails operationAtomicTerm whole :=
  operationAtomicTerm_eq ▸ fails_atomic (avoids.operational.char (by decide)) avoids.operational

theorem AvoidsAtoms.atomicTerm (avoids : AvoidsAtoms whole) : Fails atomicTerm whole :=
  fails_atomic (avoids.operational.char (by decide))
    (avoids.operational.imp fun _ => atomicChar_operationChar)

theorem fails_term {char rest} (following : follows char = true) (dash : char ≠ '-')
    (angle : char ≠ '<') : Fails (firstOf (termAlternatives collator rule)) (char :: rest) := by
  have stops : Stops (char :: rest) := stops_cons following
  have avoids : AvoidsAtoms (char :: rest) :=
    ⟨avoids_cons.mpr (not_operationChar_of_follows following), stops.avoids fun other among => by
      rcases follows_cases among with
        rfl | rfl | rfl | rfl | rfl | rfl | rfl | rfl | rfl | rfl <;> decide⟩
  have different : ∀ other, char ≠ other → Avoids (char :: rest) (· == other) :=
    fun other unequal => avoids_cons.mpr (beq_eq_false_iff_ne.mpr unequal)
  refine (fails_statement (different _ angle) (stops.mark (by decide))).firstOf_fails ?_
  refine (fails_compactInheritance (Or.inl avoids.atomicTerm)).firstOf_fails ?_
  refine (fails_negationTerm (different _ dash)).firstOf_fails ?_
  refine (fails_deltaTerm (stops.mark (by decide)) (stops.mark (by decide))).firstOf_fails ?_
  refine (fails_compoundTerm (stops.mark (by decide))
    (Or.inl avoids.operationAtomicTerm)).firstOf_fails ?_
  refine (fails_set (stops.mark (by decide)) (stops.mark (by decide))).firstOf_fails ?_
  refine (fails_oneOf avoids.sigil).bind.firstOf_fails ?_
  refine (fails_imagePlaceholder (stops.mark (by decide))
    (stops.mark (by decide))).firstOf_fails ?_
  exact avoids.atomicTerm.firstOf_fails fails_firstOf_nil

end Failing

/-! ### Atoms -/

section Reading

variable {rule : Rule Node} {rest : List Char}

theorem reads_after_failing {whole : List Char} {value : Node}
    (avoids : Avoids whole fun char => !opensAtom char)
    (compact : Misses atomicTerm whole ':') (call : Misses operationAtomicTerm whole '(')
    (later : Reads (firstOf [variableTerm, imagePlaceholder, atomicTerm]) whole value rest) :
    Reads (firstOf (termAlternatives collator rule)) whole value rest := by
  have outside : ∀ other, opensAtom other = false → Avoids whole (· == other) :=
    fun other closed => avoids.char (by simp [closed])
  refine (fails_statement (outside _ (by decide)) (outside _ (by decide))).firstOf ?_
  refine (fails_compactInheritance compact).firstOf ?_
  refine (fails_negationTerm (outside _ (by decide))).firstOf ?_
  refine (fails_deltaTerm (outside _ (by decide)) (outside _ (by decide))).firstOf ?_
  refine (fails_compoundTerm (outside _ (by decide)) call).firstOf ?_
  exact (fails_set (outside _ (by decide)) (outside _ (by decide))).firstOf later

theorem reads_variable {sigil chars} (opens : isSigil sigil = true)
    (plain : ∀ char ∈ chars, variableChar char = true)
    (accepted : atomOf (String.ofList (sigil :: chars)) =
      .ok (.atom (String.ofList (sigil :: chars)))) (stops : Stops rest)
    (ends : Avoids rest (· == '^')) :
    Reads (firstOf (termAlternatives collator rule)) (sigil :: chars ++ rest)
      (some (.atom (String.ofList (sigil :: chars)))) rest := by
  have colon : ':' ∉ chars := by
    have none := atomOf_colon accepted
    rw [String.toList_ofList] at none
    exact fun inside => none (List.mem_cons_of_mem _ inside)
  have round : '(' ∉ chars := fun inside => absurd (plain '(' inside) (by decide)
  have avoids : Avoids rest variableChar := by
    intro char first
    refine not_variableChar_of_follows (by simpa using stops char first) ?_
    rintro rfl
    exact absurd (ends '^' first) (by decide)
  refine reads_after_failing (avoids_cons.mpr (by simp [opensAtom, opens]))
    (misses_variable opens colon (fun _ => atomicChar_operationChar) stops colon (by decide))
    (operationAtomicTerm_eq ▸ misses_variable opens colon (fun _ => id) stops round (by decide)) ?_
  have read : Reads variableTerm (sigil :: chars ++ rest)
      (some (.atom (String.ofList (sigil :: chars)))) rest := by
    refine (reads_oneOf opens).bind ?_
    refine (reads_run plain avoids).bind ?_
    exact reads_atom accepted
  exact read.firstOf

theorem reads_named {chars} (atomText : AtomText chars)
    (accepted : atomOf (String.ofList chars) = .ok (.atom (String.ofList chars)))
    (named : isVariableSymbol (String.ofList chars) = false) (stops : Stops rest)
    (closed : chars = ['"'] → '"' ∉ rest) :
    Reads (firstOf (termAlternatives collator rule)) (chars ++ rest)
      (some (.atom (String.ofList chars))) rest := by
  obtain ⟨char, tail, rfl, opens⟩ := atomText.head
  have avoids : Avoids (char :: tail ++ rest) fun char => !opensAtom char :=
    avoids_cons.mpr (by simp [opens])
  have plain : isSigil char = false := by
    by_contra sigil
    rw [isVariableSymbol_iff.mpr ⟨char, tail, String.toList_ofList, by simpa using sigil⟩] at named
    cases named
  have atomic : Reads atomicTerm (char :: tail ++ rest)
      (some (.atom (String.ofList (char :: tail)))) rest :=
    reads_atomic atomText accepted named (fun _ => id) (fun _ => atomicChar_operationChar) stops
      closed
  have operational : Reads operationAtomicTerm (char :: tail ++ rest)
      (some (.atom (String.ofList (char :: tail)))) rest :=
    operationAtomicTerm_eq ▸ reads_atomic atomText accepted named
      (fun _ => atomicChar_operationChar) (fun _ => id) stops closed
  refine reads_after_failing avoids (Or.inr ⟨_, rest, atomic, stops.mark (by decide)⟩)
    (Or.inr ⟨_, rest, operational, stops.mark (by decide)⟩) ?_
  refine (fails_oneOf (avoids_cons.mpr plain)).bind.firstOf ?_
  refine (fails_imagePlaceholder (avoids.char (by decide)) (avoids.char (by decide))).firstOf ?_
  exact atomic.firstOf

theorem Ready.reads_atom {symbol} (ready : Ready collator (.atom symbol) rest) :
    Reads (firstOf (termAlternatives collator rule)) (text (.atom symbol) ++ rest)
      (some (.atom symbol)) rest := by
  obtain ⟨chars, rfl⟩ : ∃ chars, symbol = String.ofList chars :=
    ⟨symbol.toList, String.ofList_toList.symm⟩
  obtain ⟨atomText, accepted⟩ := (atomsAmong_atom _).mp ready.readable
  rw [text_atom, String.toList_ofList] at *
  cases named : isVariableSymbol (String.ofList chars) with
  | false =>
    refine reads_named atomText accepted named ready.stops fun lone => ?_
    rcases ready.closed with other | unclosed
    · exact absurd (congrArg String.ofList lone) ((atomsAmong_atom _).mp other)
    · exact unclosed
  | true =>
    obtain ⟨sigil, tail, split, opens⟩ := isVariableSymbol_iff.mp named
    rw [String.toList_ofList] at split
    subst split
    refine reads_variable opens (fun char inside => ?_) accepted ready.stops (ready.ends named)
    cases atomText with
    | word _ _ _ accepts =>
      have first := accepts sigil List.mem_cons_self
      rcases isSigil_iff.mp opens with rfl | rfl | rfl | rfl | rfl <;> cases first
    | variableName _ _ _ plain => exact plain char inside
    | quoted _ _ => cases opens
    | quote => cases opens

/-! ### Operators -/

theorem reads_operatorToken {kind} (written : infixKind kind = true ∨ kind = .operation)
    (bar : Avoids rest (· == '|')) (slash : Avoids rest (· == '/')) :
    Reads operatorToken (symbolText kind ++ rest) (operators kind).symbol rest := by
  have ambiguous : ∀ char, char = '|' ∨ char = '/' →
      (exactly [char] : Rule Unit) rest = .failure := by
    intro char same
    cases rest with
    | nil => rfl
    | cons head tail =>
      rw [avoids_cons, beq_eq_false_iff_ne] at bar slash
      rcases same with rfl | rfl
      · rw [exactly_cons_cons, if_neg (Ne.symm bar)]
      · rw [exactly_cons_cons, if_neg (Ne.symm slash)]
  cases kind <;> first
    | exact absurd written (by decide)
    | simp [Reads, operatorToken, operatorTokens, token, literal, symbolText, operators,
        firstOf_cons, ambiguous, succeed, followedBy, orElse]

theorem kindOf_symbol {kind} (written : infixKind kind = true ∨ kind = .operation) :
    kindOf (operators kind).symbol = some kind := by
  cases kind <;> first | exact absurd written (by decide) | rfl

theorem Legible.fails_operatorToken {term} (legible : Legible term)
    (readable : AtomsAmong Readable term) : Fails operatorToken (text term ++ rest) := by
  obtain ⟨char, tail, split, opens, dash⟩ := legible.text_head readable
  by_cases negated : char = '-'
  · -- A negation's text goes on with a second dash and then with the operand.
    obtain ⟨operand, rfl⟩ := dash negated
    have inner := (atomsAmong_compound _ _).mp readable operand List.mem_cons_self
    obtain ⟨first, more, operandSplit, operandOpens, -⟩ := legible.of_negation.text_head inner
    have arrow : '>' ≠ first := by
      rintro rfl
      exact absurd operandOpens (by decide)
    rw [text_negation, operandSplit]
    simp [Fails, operatorToken, operatorTokens, token, literal, firstOf_cons, followedBy, orElse,
      arrow]
  · have outside : ∀ other, opensTerm other = false → other ≠ char := by
      rintro other closed rfl
      exact absurd (opens.symm.trans closed) (by decide)
    rw [split]
    simp [Fails, operatorToken, operatorTokens, token, literal, firstOf_cons, followedBy, orElse,
      Ne.symm negated, outside '<' (by decide), outside '=' (by decide), outside '&' (by decide),
      outside '^' (by decide), outside '|' (by decide), outside ',' (by decide)]

end Reading

end Senars.Grammar
