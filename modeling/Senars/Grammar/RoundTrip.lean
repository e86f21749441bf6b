/-
This file proves that the text of a legible term reads back. The induction is on
the fuel: the rules that read a compound's arguments do so on shorter texts. For
every kind, the alternatives before the right one fail, most on the first
character and some only after they read an argument, and the factory gives back
a canonical compound from its own arguments.
-/

import Senars.Grammar.Alternatives

namespace Senars.Grammar

open Library Peg Terms

variable {collator : Collator} {rule : Rule Node} {bound : Nat} {rest : List Char}

/-! ### Rules for shorter texts -/

/-- What is known of the rule for the terms inside a text: it reads every ready term whose text
is short enough, reads through parentheses around a negation, and fails where no term begins. -/
structure ReadsShorter (collator : Collator) (rule : Rule Node) (bound : Nat) : Prop where
  reads : ∀ term rest, Ready collator term rest → (text term ++ rest).length < bound →
    Reads rule (text term ++ rest) (some term) rest
  wrapped : ∀ operand rest, Ready collator (.compound .negation [operand]) (')' :: rest) →
    ('(' :: (text (.compound .negation [operand]) ++ ')' :: rest)).length < bound →
    Reads rule ('(' :: (text (.compound .negation [operand]) ++ ')' :: rest))
      (some (.compound .negation [operand])) rest
  fails : ∀ char rest, follows char = true → char ≠ '-' → char ≠ '<' →
    (char :: rest).length < bound → Fails rule (char :: rest)

theorem reads_whitespace {whole} (starts : Avoids whole fun char => !opensTerm char) :
    Reads whitespace whole [] whole := by
  refine reads_run_nil (starts.imp fun char space => ?_)
  have among : char = ' ' ∨ char = '\t' ∨ char = '\n' ∨ char = '\r' := by
    simpa [isSpace] using space
  rcases among with rfl | rfl | rfl | rfl <;> decide

theorem Ready.unspaced {term : Term} (ready : Ready collator term rest) :
    Reads whitespace (text term ++ rest) [] (text term ++ rest) :=
  reads_whitespace (ready.legible.avoids ready.readable rest)

/-! ### Argument lists -/

/-- What follows the first of some arguments: the others, each after a comma, and the rest. -/
def tailText : List Term → List Char → List Char
  | [], rest => rest
  | arg :: args, rest => ',' :: (text arg ++ tailText args rest)

theorem listText_cons (arg : Term) (args : List Term) (rest : List Char) :
    listText (arg :: args) ++ rest = text arg ++ tailText args rest := by
  induction args generalizing arg with
  | nil => rfl
  | cons next args ih =>
    rw [listText_cons_cons, List.append_assoc, List.cons_append, ih, tailText]

/-- Arguments whose texts read back in a row, in front of a text that closes the list. -/
structure Row (collator : Collator) (args : List Term) (rest : List Char) : Prop where
  legible : ∀ arg ∈ args, Legible arg
  canonical : ∀ arg ∈ args, Canonical termKey collator arg
  readable : ∀ arg ∈ args, AtomsAmong Readable arg
  apart : args.Pairwise QuotesApart
  closed : ∀ arg ∈ args, AtomsAmong (· ≠ "\"") arg ∨ '"' ∉ rest
  stops : Stops rest
  comma : Avoids rest (· == ',')
  caret : Avoids rest (· == '^')

theorem Row.tail {arg args} (row : Row collator (arg :: args) rest) :
    Row collator args rest where
  legible other member := row.legible other (List.mem_cons_of_mem _ member)
  canonical other member := row.canonical other (List.mem_cons_of_mem _ member)
  readable other member := row.readable other (List.mem_cons_of_mem _ member)
  apart := (List.pairwise_cons.mp row.apart).2
  closed other member := row.closed other (List.mem_cons_of_mem _ member)
  stops := row.stops
  comma := row.comma
  caret := row.caret

theorem Row.stops_tailText {args} (row : Row collator args rest) :
    Stops (tailText args rest) ∧ Avoids (tailText args rest) (· == '^') := by
  cases args with
  | nil => exact ⟨row.stops, row.caret⟩
  | cons arg args => exact ⟨stops_cons (by decide), avoids_cons.mpr (by decide)⟩

theorem quote_notMem_tailText {args} (each : ∀ arg ∈ args, '"' ∉ text arg) (unclosed : '"' ∉ rest) :
    '"' ∉ tailText args rest := by
  induction args with
  | nil => exact unclosed
  | cons arg args ih =>
    have later := ih fun other member => each other (List.mem_cons_of_mem _ member)
    simp [tailText, each arg List.mem_cons_self, later]

theorem Row.head {arg args} (row : Row collator (arg :: args) rest) :
    Ready collator arg (tailText args rest) where
  legible := row.legible arg List.mem_cons_self
  canonical := row.canonical arg List.mem_cons_self
  readable := row.readable arg List.mem_cons_self
  stops := row.tail.stops_tailText.1
  ends _ := row.tail.stops_tailText.2
  closed := by
    by_cases alone : AtomsAmong (· ≠ "\"") arg
    · exact Or.inl alone
    · refine Or.inr (quote_notMem_tailText (fun other member => ?_)
        ((row.closed arg List.mem_cons_self).resolve_left alone))
      exact (row.tail.legible other member).quote_notMem
        (((List.pairwise_cons.mp row.apart).1 other member).resolve_left alone)

theorem Row.readsEach {args} (row : Row collator args rest)
    (shorter : ReadsShorter collator rule bound) (fits : (tailText args rest).length < bound) :
    ReadsEach (do
      let _ ← whitespace
      literal ","
      let _ ← whitespace
      rule) (tailText args rest) (args.map some) rest := by
  induction args with
  | nil => exact .done rest (row.stops.whitespace.bind_fails (fails_literal rfl row.comma).bind)
  | cons arg args ih =>
    have length : (tailText (arg :: args) rest).length =
        (text arg ++ tailText args rest).length + 1 := rfl
    refine .next _ (tailText args rest) rest (some arg) _ ?_ ?_ ?_
    · refine Reads.bind (stops_cons (by decide) : Stops (',' :: _)).whitespace ?_
      refine (reads_literal ",").bind ?_
      refine row.head.unspaced.bind ?_
      exact shorter.reads arg _ row.head (by omega)
    · rw [length, List.length_append]
      omega
    · rw [length, List.length_append] at fits
      exact ih row.tail (by omega)

theorem Row.reads_termList {arg args} (row : Row collator (arg :: args) rest)
    (shorter : ReadsShorter collator rule bound)
    (fits : (listText (arg :: args) ++ rest).length < bound) :
    Reads (termList rule) (listText (arg :: args) ++ rest) ((arg :: args).map some) rest := by
  rw [listText_cons] at fits ⊢
  rw [List.length_append] at fits
  refine (shorter.reads arg _ row.head (by rwa [List.length_append])).bind ?_
  exact ((row.tail.readsEach shorter (by omega)).star).bind reads_pure

theorem Row.reads_components {args closing} (row : Row collator args (closing :: rest))
    (shorter : ReadsShorter collator rule bound) (bracket : closing ≠ '-' ∧ closing ≠ '<')
    (fits : (listText args ++ closing :: rest).length < bound) :
    Reads (components rule) (listText args ++ closing :: rest) (args.map some)
      (closing :: rest) := by
  cases args with
  | nil =>
    have following : follows closing = true := by
      simpa [Stops, avoids_cons] using row.stops
    exact Reads.bind (Fails.optional
      (shorter.fails closing rest following bracket.1 bracket.2 fits).bind) reads_pure
  | cons arg args => exact Reads.bind (row.reads_termList shorter fits).optional reads_pure

/-! ### Compounds -/

theorem reads_create {kind args} (canonical : Canonical termKey collator (.compound kind args)) :
    Reads (create collator kind (args.map some)) rest (some (.compound kind args)) rest := by
  have given : (args.map some).filterMap id = args := by
    rw [List.filterMap_map]
    exact List.filterMap_some
  rw [create, given, canonical.createCompound_eq]
  rfl

theorem createCompound_operation {op arg} (bare : arg.kind? ≠ some .product) :
    createCompound termKey collator .operation [op, arg] =
      createCompound termKey collator .operation [op, .compound .product [arg]] := by
  simp [createCompound, compoundOf, folded, arityError, wrapOperationArgs, bare]

theorem Ready.row {kind : OperatorKey} {args : List Term} {closing : Char}
    (ready : Ready collator (.compound kind args) rest) (each : ∀ arg ∈ args, Legible arg)
    (apart : args.Pairwise QuotesApart)
    (bracket : closing = ')' ∨ closing = '\x7d' ∨ closing = ']') :
    Row collator args (closing :: rest) where
  legible := each
  canonical := ready.canonical.args
  readable := (atomsAmong_compound _ _).mp ready.readable
  apart := apart
  closed arg member := by
    refine ready.closed.imp (fun alone => (atomsAmong_compound _ _).mp alone arg member)
      fun unclosed => ?_
    rcases bracket with rfl | rfl | rfl <;> simpa using unclosed
  stops := by rcases bracket with rfl | rfl | rfl <;> exact stops_cons (by decide)
  comma := by rcases bracket with rfl | rfl | rfl <;> exact avoids_cons.mpr (by decide)
  caret := by rcases bracket with rfl | rfl | rfl <;> exact avoids_cons.mpr (by decide)

theorem avoidsAtoms_cons {char whole}
    (outside : operationChar char = false ∧ isSigil char = false) : AvoidsAtoms (char :: whole) :=
  ⟨avoids_cons.mpr outside.1, avoids_cons.mpr outside.2⟩

theorem Row.reads_enclosed {args closing value} {action : List Node → Rule Node} {before after}
    (row : Row collator args (closing :: rest)) (shorter : ReadsShorter collator rule bound)
    (bracket : closing ≠ '-' ∧ closing ≠ '<') (ends : after.toList = [closing])
    (fits : (listText args ++ closing :: rest).length < bound)
    (acts : Reads (action (args.map some)) rest value rest) :
    Reads (do
      literal before
      let _ ← whitespace
      let listed ← components rule
      let _ ← whitespace
      literal after
      action listed) (before.toList ++ (listText args ++ closing :: rest)) value rest := by
  have opened : Reads whitespace (listText args ++ closing :: rest) []
      (listText args ++ closing :: rest) := by
    cases args with
    | nil => exact row.stops.whitespace
    | cons arg args =>
      rw [listText_cons]
      exact row.head.unspaced
  have closed : Reads (literal after : Rule Unit) (closing :: rest) () rest := by
    have read : Reads (literal after : Rule Unit) (after.toList ++ rest) () rest :=
      reads_literal after
    rwa [ends] at read
  refine (reads_literal before).bind ?_
  refine opened.bind ?_
  refine (row.reads_components shorter bracket fits).bind ?_
  refine row.stops.whitespace.bind ?_
  exact closed.bind acts

theorem Ready.operand {operand} (ready : Ready collator (.compound .negation [operand]) rest) :
    Ready collator operand rest where
  legible := ready.legible.of_negation
  canonical := ready.canonical.args operand List.mem_cons_self
  readable := (atomsAmong_compound _ _).mp ready.readable operand List.mem_cons_self
  stops := ready.stops
  ends := ready.ends
  closed := ready.closed.imp_left fun alone =>
    (atomsAmong_compound _ _).mp alone operand List.mem_cons_self

theorem Ready.reads_negation {operand}
    (ready : Ready collator (.compound .negation [operand]) rest)
    (shorter : ReadsShorter collator rule bound)
    (fits : (text (.compound .negation [operand]) ++ rest).length < bound + 1) :
    Reads (firstOf (termAlternatives collator rule))
      (text (.compound .negation [operand]) ++ rest)
      (some (.compound .negation [operand])) rest := by
  rw [text_negation] at fits ⊢
  simp only [List.cons_append, List.length_cons] at fits ⊢
  have avoids : AvoidsAtoms ('-' :: '-' :: (text operand ++ rest)) :=
    avoidsAtoms_cons ⟨by decide, by decide⟩
  refine (fails_statement (avoids_cons.mpr (by decide)) (avoids_cons.mpr (by decide))).firstOf ?_
  refine (fails_compactInheritance (Or.inl avoids.atomicTerm)).firstOf (Reads.firstOf ?_)
  refine (shorter.reads operand rest ready.operand (by omega)).bind ?_
  exact reads_create ready.canonical

theorem Ready.reads_set {kind args} (ready : Ready collator (.compound kind args) rest)
    (braced : kind = .setExt ∨ kind = .setInt) (each : ∀ arg ∈ args, Legible arg)
    (apart : args.Pairwise QuotesApart) (shorter : ReadsShorter collator rule bound)
    (fits : (text (.compound kind args) ++ rest).length < bound + 1) :
    Reads (firstOf (termAlternatives collator rule)) (text (.compound kind args) ++ rest)
      (some (.compound kind args)) rest := by
  have skipped : ∀ {opening : Char} {whole : List Char}, opening = '\x7b' ∨ opening = '[' →
      Reads (set collator rule) (opening :: whole) (some (.compound kind args)) rest →
      Reads (firstOf (termAlternatives collator rule)) (opening :: whole)
        (some (.compound kind args)) rest := by
    intro opening whole brace read
    have avoids : AvoidsAtoms (opening :: whole) := by
      rcases brace with rfl | rfl <;> exact avoidsAtoms_cons ⟨by decide, by decide⟩
    have different : ∀ other, other ≠ '\x7b' → other ≠ '[' →
        Avoids (opening :: whole) (· == other) := by
      intro other noBrace noBracket
      refine avoids_cons.mpr (beq_eq_false_iff_ne.mpr ?_)
      rcases brace with rfl | rfl
      · exact Ne.symm noBrace
      · exact Ne.symm noBracket
    refine (fails_statement (different _ (by decide) (by decide))
      (different _ (by decide) (by decide))).firstOf ?_
    refine (fails_compactInheritance (Or.inl avoids.atomicTerm)).firstOf ?_
    refine (fails_negationTerm (different _ (by decide) (by decide))).firstOf ?_
    refine (fails_deltaTerm (different _ (by decide) (by decide))
      (different _ (by decide) (by decide))).firstOf ?_
    refine (fails_compoundTerm (different _ (by decide) (by decide))
      (Or.inl avoids.operationAtomicTerm)).firstOf ?_
    exact read.firstOf
  rcases braced with rfl | rfl
  · rw [text_setExt] at fits ⊢
    simp only [List.cons_append, List.append_assoc, List.nil_append, List.length_cons] at fits ⊢
    have row := ready.row each apart (Or.inr (Or.inl rfl))
    have read : Reads (bracketedSet collator rule "\x7b" "\x7d" .setExt)
        ('\x7b' :: (listText args ++ '\x7d' :: rest)) (some (.compound .setExt args)) rest :=
      row.reads_enclosed shorter ⟨by decide, by decide⟩ rfl (by omega)
        (reads_create ready.canonical)
    exact skipped (Or.inl rfl) read.firstOf
  · rw [text_setInt] at fits ⊢
    simp only [List.cons_append, List.append_assoc, List.nil_append, List.length_cons] at fits ⊢
    have row := ready.row each apart (Or.inr (Or.inr rfl))
    have read : Reads (bracketedSet collator rule "[" "]" .setInt)
        ('[' :: (listText args ++ ']' :: rest)) (some (.compound .setInt args)) rest :=
      row.reads_enclosed shorter ⟨by decide, by decide⟩ rfl (by omega)
        (reads_create ready.canonical)
    refine skipped (Or.inr rfl) (Fails.firstOf ?_ read.firstOf)
    exact (fails_literal rfl (avoids_cons.mpr (by decide))).bind

/-! ### Compounds in parentheses -/

theorem reads_infixStatement {kind : OperatorKey} {first second : Term} {value : Node}
    {later : List Char} (written : infixKind kind = true ∨ kind = .operation)
    (opened : Reads whitespace (text first ++ (symbolText kind ++ later)) []
      (text first ++ (symbolText kind ++ later)))
    (left : Reads rule (text first ++ (symbolText kind ++ later)) (some first)
      (symbolText kind ++ later))
    (starts : Avoids later fun char => !opensTerm char)
    (right : Reads rule later (some second) (')' :: rest))
    (built : Reads (create collator kind [some first, some second]) rest value rest) :
    Reads (firstOf (termAlternatives collator rule))
      ('(' :: (text first ++ (symbolText kind ++ later))) value rest := by
  have stops : Stops (symbolText kind ++ later) := by
    cases kind <;> first
      | exact absurd written (by decide)
      | exact avoids_cons.mpr (by decide)
  have blank := reads_whitespace starts
  have read : Reads (parenthesizedStatement collator rule)
      ('(' :: (text first ++ (symbolText kind ++ later))) value rest := by
    refine (reads_literal "(").bind ?_
    refine opened.bind ?_
    refine left.bind ?_
    refine stops.whitespace.bind ?_
    refine (reads_operatorToken written (starts.char (by decide)) (starts.char (by decide))).bind ?_
    refine blank.optional.bind ?_
    refine blank.bind ?_
    refine right.bind ?_
    refine (stops_cons (by decide) : Stops (')' :: rest)).whitespace.bind ?_
    refine (reads_literal ")").bind ?_
    refine Reads.bind ?_ built
    rw [operatorKind, kindOf_symbol written]
    exact reads_act
  exact Reads.firstOf ((fails_literal rfl (avoids_cons.mpr (by decide))).bind.firstOf read.firstOf)

theorem reads_compoundTerm {whole : List Char} {value : Node}
    (statement : Fails (parenthesizedStatement collator rule) ('(' :: whole))
    (read : Reads (compoundTerm collator rule) ('(' :: whole) value rest) :
    Reads (firstOf (termAlternatives collator rule)) ('(' :: whole) value rest := by
  have avoids : AvoidsAtoms ('(' :: whole) := avoidsAtoms_cons ⟨by decide, by decide⟩
  have angle : Fails (angleBracketStatement collator rule) ('(' :: whole) :=
    (fails_literal rfl (avoids_cons.mpr (by decide))).bind
  refine (angle.firstOf_fails (statement.firstOf_fails fails_firstOf_nil)).firstOf ?_
  refine (fails_compactInheritance (Or.inl avoids.atomicTerm)).firstOf ?_
  refine (fails_negationTerm (avoids_cons.mpr (by decide))).firstOf ?_
  refine (fails_deltaTerm (avoids_cons.mpr (by decide)) (avoids_cons.mpr (by decide))).firstOf ?_
  exact read.firstOf

theorem fails_infixStatement {first : Term} {later : List Char}
    (opened : Reads whitespace (text first ++ later) [] (text first ++ later))
    (left : Reads rule (text first ++ later) (some first) later) (stops : Stops later)
    (token : Fails operatorToken later) :
    Fails (parenthesizedStatement collator rule) ('(' :: (text first ++ later)) :=
  (reads_literal "(").bind_fails (opened.bind_fails (left.bind_fails
    (stops.whitespace.bind_fails token.bind)))

theorem fails_operatorToken_cons {char : Char} (outside : char = ')') (whole : List Char) :
    Fails operatorToken (char :: whole) := by
  subst outside
  simp [Fails, operatorToken, operatorTokens, token, literal, firstOf_cons, followedBy, orElse]

theorem Row.fails_operatorToken {args : List Term} (row : Row collator args (')' :: rest)) :
    Fails operatorToken (tailText args (')' :: rest)) := by
  cases args with
  | nil => exact fails_operatorToken_cons rfl rest
  | cons arg args =>
    obtain ⟨char, tail, split, opens, -⟩ := row.head.legible.text_head row.head.readable
    have slash : '/' ≠ char := by
      rintro rfl
      exact absurd opens (by decide)
    rw [tailText, split]
    simp [Fails, operatorToken, operatorTokens, token, literal, firstOf_cons, followedBy, orElse,
      slash]

theorem Ready.reads_wrapped {operand : Term}
    (ready : Ready collator (.compound .negation [operand]) (')' :: rest))
    (shorter : ReadsShorter collator rule bound)
    (fits : ('(' :: (text (.compound .negation [operand]) ++ ')' :: rest)).length < bound + 1) :
    Reads (firstOf (termAlternatives collator rule))
      ('(' :: (text (.compound .negation [operand]) ++ ')' :: rest))
      (some (.compound .negation [operand])) rest := by
  have whole := shorter.reads _ _ ready (by simpa using fits)
  refine reads_compoundTerm (fails_infixStatement ready.unspaced whole ready.stops
    (fails_operatorToken_cons rfl rest)) (Reads.firstOf ?_)
  have opened := ready.unspaced
  rw [text_negation] at fits opened ⊢
  simp only [List.cons_append, List.length_cons] at fits opened ⊢
  refine (reads_literal "(").bind ?_
  refine opened.bind ?_
  refine (reads_literal "--").bind ?_
  refine ready.operand.unspaced.bind ?_
  refine (shorter.reads operand _ ready.operand (by omega)).bind ?_
  refine ready.stops.whitespace.bind ?_
  exact reads_create ready.canonical

theorem Row.fails_parenthesizedNegation {args : List Term} (row : Row collator args (')' :: rest))
    (shown : ∀ operand, args ≠ [.compound .negation [operand]])
    (shorter : ReadsShorter collator rule bound)
    (fits : (listText args ++ ')' :: rest).length < bound) :
    Fails (parenthesizedNegation collator rule) ('(' :: (listText args ++ ')' :: rest)) := by
  cases args with
  | nil =>
    exact (reads_literal "(").bind_fails (row.stops.whitespace.bind_fails
      (fails_literal rfl (avoids_cons.mpr (by decide))).bind)
  | cons arg args =>
    rw [listText_cons] at fits ⊢
    refine (reads_literal "(").bind_fails (row.head.unspaced.bind_fails ?_)
    obtain ⟨char, tail, split, -, dash⟩ := row.head.legible.text_head row.head.readable
    by_cases negated : char = '-'
    · obtain ⟨operand, rfl⟩ := dash negated
      have inner := row.head.operand
      rw [text_negation] at fits ⊢
      simp only [List.cons_append, List.length_cons] at fits ⊢
      refine (reads_literal "--").bind_fails (inner.unspaced.bind_fails ?_)
      refine (shorter.reads operand _ inner (by omega)).bind_fails
        (inner.stops.whitespace.bind_fails ?_)
      cases args with
      | nil => exact absurd rfl (shown operand)
      | cons next args => exact (fails_literal rfl (avoids_cons.mpr (by decide))).bind
    · rw [split]
      exact (fails_literal rfl (avoids_cons.mpr (beq_eq_false_iff_ne.mpr negated))).bind

theorem Ready.reads_product {args} (ready : Ready collator (.compound .product args) rest)
    (each : ∀ arg ∈ args, Legible arg) (apart : args.Pairwise QuotesApart)
    (shown : ∀ operand, args ≠ [.compound .negation [operand]])
    (shorter : ReadsShorter collator rule bound)
    (fits : (text (.compound .product args) ++ rest).length < bound + 1) :
    Reads (firstOf (termAlternatives collator rule)) (text (.compound .product args) ++ rest)
      (some (.compound .product args)) rest := by
  have row := ready.row each apart (Or.inl rfl : ')' = ')' ∨ _)
  rw [text_product] at fits ⊢
  simp only [List.cons_append, List.append_assoc, List.nil_append, List.length_cons] at fits ⊢
  have fits : (listText args ++ ')' :: rest).length < bound := by omega
  have negation := row.fails_parenthesizedNegation shown shorter fits
  have symbol : Fails operatorSymbol (listText args ++ ')' :: rest) ∧
      Reads whitespace (listText args ++ ')' :: rest) [] (listText args ++ ')' :: rest) ∧
      Fails (parenthesizedStatement collator rule) ('(' :: (listText args ++ ')' :: rest)) := by
    cases args with
    | nil =>
      have missing := shorter.fails ')' rest (by decide) (by decide) (by decide) fits
      exact ⟨(fails_operatorToken_cons rfl rest).bind, row.stops.whitespace,
        (reads_literal "(").bind_fails (row.stops.whitespace.bind_fails missing.bind)⟩
    | cons arg args =>
      rw [listText_cons] at fits ⊢
      exact ⟨(row.head.legible.fails_operatorToken row.head.readable).bind, row.head.unspaced,
        fails_infixStatement row.head.unspaced (shorter.reads arg _ row.head fits) row.head.stops
          row.tail.fails_operatorToken⟩
  refine reads_compoundTerm symbol.2.2 (negation.firstOf ?_)
  have prefixed : Fails (prefixCompound collator rule) ('(' :: (listText args ++ ')' :: rest)) :=
    (reads_literal "(").bind_fails (symbol.2.1.bind_fails symbol.1.bind)
  refine prefixed.firstOf ((fails_operationCall (Or.inl ?_)).firstOf (Reads.firstOf ?_))
  · exact (avoidsAtoms_cons ⟨by decide, by decide⟩).operationAtomicTerm
  · exact row.reads_enclosed shorter ⟨by decide, by decide⟩ rfl fits (reads_create ready.canonical)

theorem symbolText_listed {kind} (written : infixKind kind = true) (nary : naryOps kind = true) :
    (∃ char tail, symbolText kind = char :: tail ∧ (char = '&' ∨ char = '|')) ∧
      (operators kind).symbol.toList.getLast? ≠ some ',' ∧ (operators kind).symbol ≠ "^" := by
  cases kind with
  | conjunction => exact ⟨⟨'&', [], rfl, Or.inl rfl⟩, by decide, by decide⟩
  | disjunction => exact ⟨⟨'|', [], rfl, Or.inr rfl⟩, by decide, by decide⟩
  | parallel => exact ⟨⟨'&', ['|'], rfl, Or.inl rfl⟩, by decide, by decide⟩
  | _ => first | exact absurd written (by decide) | exact absurd nary (by decide)

theorem Ready.reads_prefixCompound {kind : OperatorKey} {arg : Term} {others : List Term}
    (ready : Ready collator (.compound kind (arg :: others)) rest)
    (written : infixKind kind = true) (nary : naryOps kind = true)
    (stops : Stops (symbolText kind ++ ',' :: (listText (arg :: others) ++ ')' :: rest)))
    (row : Row collator (arg :: others) (')' :: rest)) (shorter : ReadsShorter collator rule bound)
    (fits : (listText (arg :: others) ++ ')' :: rest).length < bound) :
    Reads (prefixCompound collator rule)
      ('(' :: (symbolText kind ++ ',' :: (listText (arg :: others) ++ ')' :: rest)))
      (some (.compound kind (arg :: others))) rest := by
  obtain ⟨_, plain, sigil⟩ := symbolText_listed written nary
  have symbol : Reads operatorSymbol
      (symbolText kind ++ ',' :: (listText (arg :: others) ++ ')' :: rest))
      (operators kind).symbol (',' :: (listText (arg :: others) ++ ')' :: rest)) := by
    refine (reads_operatorToken (Or.inl written) (avoids_cons.mpr (by decide))
      (avoids_cons.mpr (by decide))).bind ?_
    rw [if_neg plain]
    exact reads_pure
  have blank : Reads whitespace (listText (arg :: others) ++ ')' :: rest) []
      (listText (arg :: others) ++ ')' :: rest) := by
    rw [listText_cons]
    exact row.head.unspaced
  refine (reads_literal "(").bind ?_
  refine stops.whitespace.bind ?_
  refine symbol.bind ?_
  refine (stops_cons (by decide) : Stops (',' :: _)).whitespace.bind ?_
  refine (reads_literal ",").optional.bind ?_
  refine blank.bind ?_
  refine (row.reads_termList shorter fits).bind ?_
  refine row.stops.whitespace.bind ?_
  refine (reads_literal ")").bind ?_
  rw [if_neg sigil]
  refine Reads.bind ?_ (reads_create ready.canonical)
  rw [operatorKind, kindOf_symbol (Or.inl written)]
  exact reads_act

theorem Ready.reads_listed {kind args} (ready : Ready collator (.compound kind args) rest)
    (written : infixKind kind = true) (nary : naryOps kind = true) (more : 2 < args.length)
    (each : ∀ arg ∈ args, Legible arg) (apart : args.Pairwise QuotesApart)
    (shorter : ReadsShorter collator rule bound)
    (fits : (text (.compound kind args) ++ rest).length < bound + 1) :
    Reads (firstOf (termAlternatives collator rule)) (text (.compound kind args) ++ rest)
      (some (.compound kind args)) rest := by
  have row := ready.row each apart (Or.inl rfl : ')' = ')' ∨ _)
  rw [text_listed written nary more] at fits ⊢
  simp only [List.cons_append, List.append_assoc, List.nil_append, List.length_cons] at fits ⊢
  obtain ⟨arg, others, rfl⟩ : ∃ arg others, args = arg :: others :=
    List.exists_cons_of_length_pos (by omega)
  obtain ⟨⟨char, tail, split, bar⟩, _⟩ := symbolText_listed written nary
  have stops : Stops (symbolText kind ++ ',' :: (listText (arg :: others) ++ ')' :: rest)) := by
    rw [split]
    rcases bar with rfl | rfl <;> exact stops_cons (by decide)
  have missing : Fails rule
      (symbolText kind ++ ',' :: (listText (arg :: others) ++ ')' :: rest)) := by
    rw [split] at fits ⊢
    rcases bar with rfl | rfl
    · exact shorter.fails '&' _ (by decide) (by decide) (by decide) (by simpa using fits)
    · exact shorter.fails '|' _ (by decide) (by decide) (by decide) (by simpa using fits)
  have dashes : Avoids (symbolText kind ++ ',' :: (listText (arg :: others) ++ ')' :: rest))
      (· == '-') := by
    rw [split]
    rcases bar with rfl | rfl <;> exact avoids_cons.mpr (by decide)
  refine reads_compoundTerm
    ((reads_literal "(").bind_fails (stops.whitespace.bind_fails missing.bind)) ?_
  refine Fails.firstOf ((reads_literal "(").bind_fails
    (stops.whitespace.bind_fails (fails_literal rfl dashes).bind)) (Reads.firstOf ?_)
  refine ready.reads_prefixCompound written nary stops row shorter ?_
  simp only [List.length_append, List.length_cons] at fits ⊢
  omega

theorem Ready.reads_pair {kind first second}
    (ready : Ready collator (.compound kind [first, second]) rest)
    (written : infixKind kind = true) (left : Legible first) (right : Legible second)
    (apart : QuotesApart first second) (shorter : ReadsShorter collator rule bound)
    (fits : (text (.compound kind [first, second]) ++ rest).length < bound + 1) :
    Reads (firstOf (termAlternatives collator rule))
      (text (.compound kind [first, second]) ++ rest)
      (some (.compound kind [first, second])) rest := by
  have row : Row collator [first, second] (')' :: rest) :=
    ready.row (by simp [left, right]) (by simp [apart]) (Or.inl rfl)
  have last : Ready collator second (')' :: rest) := row.tail.head
  have before : Ready collator first (symbolText kind ++ (text second ++ ')' :: rest)) :=
    { legible := left
      canonical := row.head.canonical
      readable := row.head.readable
      stops := by
        cases kind <;> first
          | exact absurd written (by decide)
          | exact avoids_cons.mpr (by decide)
      ends := fun _ => by
        cases kind <;> first
          | exact absurd written (by decide)
          | exact avoids_cons.mpr (by decide)
      closed := by
        refine row.head.closed.imp_right fun unclosed => ?_
        have both : '"' ∉ text second ∧ '"' ∉ rest := by
          simpa [tailText, not_or] using unclosed
        simp [both.1, both.2, quote_notMem_symbolText] }
  rw [text_pair written] at fits ⊢
  simp only [List.cons_append, List.append_assoc, List.nil_append, List.length_cons,
    List.length_append] at fits ⊢
  refine reads_infixStatement (Or.inl written) before.unspaced (shorter.reads _ _ before ?_)
    (right.avoids last.readable _) (shorter.reads _ _ last ?_)
    (reads_create ready.canonical)
  · simp only [List.length_append, List.length_cons]
    omega
  · simp only [List.length_append, List.length_cons]
    omega

theorem Ready.closed_arg {kind : OperatorKey} {args : List Term} {arg : Term}
    (ready : Ready collator (.compound kind args) rest) (member : arg ∈ args) :
    AtomsAmong (· ≠ "\"") arg ∨ '"' ∉ ')' :: rest :=
  ready.closed.imp (fun alone => (atomsAmong_compound _ _).mp alone arg member)
    fun unclosed => by simpa using unclosed

theorem Ready.operator {op : Term} {args : List Term}
    (ready : Ready collator (.compound .operation [op, .compound .product args]) rest)
    (head : Legible op) (each : ∀ arg ∈ args, Legible arg) (ends : endsInVariable op = false)
    (before : ∀ arg ∈ args, QuotesApart op arg) :
    Ready collator op
      (symbolText .operation ++ (text (.compound .product args) ++ ')' :: rest)) where
  legible := head
  canonical := ready.canonical.args op (by simp)
  readable := (atomsAmong_compound _ _).mp ready.readable op (by simp)
  stops := avoids_cons.mpr (by decide)
  ends named := absurd (named.symm.trans ends) (by decide)
  closed := by
    by_cases alone : AtomsAmong (· ≠ "\"") op
    · exact Or.inl alone
    · have unclosed := (ready.closed_arg (List.mem_cons_self : op ∈ _)).resolve_left alone
      have listed : '"' ∉ listText args := quote_notMem_listText fun arg member =>
        (each arg member).quote_notMem ((before arg member).resolve_left alone)
      refine Or.inr ?_
      rw [text_product]
      simpa [listed, quote_notMem_symbolText] using unclosed

theorem Ready.onlyArgument {kind : OperatorKey} {args : List Term} {arg : Term}
    (ready : Ready collator (.compound kind args) rest) (last : .compound .product [arg] ∈ args)
    (legible : Legible arg) : Ready collator arg (')' :: ')' :: rest) where
  legible
  canonical := (ready.canonical.args _ last).args arg (by simp)
  readable := (atomsAmong_compound _ _).mp
    ((atomsAmong_compound _ _).mp ready.readable _ last) arg (by simp)
  stops := stops_cons (by decide)
  ends _ := avoids_cons.mpr (by decide)
  closed := (ready.closed_arg last).imp
    (fun alone => (atomsAmong_compound _ _).mp alone arg (by simp))
    fun unclosed => by simpa using unclosed

theorem reads_create_negatedArgument {op operand} (canonical : Canonical termKey collator
      (.compound .operation [op, .compound .product [.compound .negation [operand]]])) :
    Reads (create collator .operation [some op, some (.compound .negation [operand])]) rest
      (some (.compound .operation [op, .compound .product [.compound .negation [operand]]]))
      rest := by
  have given : createCompound termKey collator .operation [op, .compound .negation [operand]] =
      .ok _ := (createCompound_operation (by simp)).trans canonical.createCompound_eq
  rw [create]
  simp only [List.filterMap_cons, id, List.filterMap_nil, given]
  rfl

theorem Ready.reads_operation {op args}
    (ready : Ready collator (.compound .operation [op, .compound .product args]) rest)
    (head : Legible op) (each : ∀ arg ∈ args, Legible arg) (ends : endsInVariable op = false)
    (before : ∀ arg ∈ args, QuotesApart op arg) (apart : args.Pairwise QuotesApart)
    (shorter : ReadsShorter collator rule bound)
    (fits : (text (.compound .operation [op, .compound .product args]) ++ rest).length <
      bound + 1) :
    Reads (firstOf (termAlternatives collator rule))
      (text (.compound .operation [op, .compound .product args]) ++ rest)
      (some (.compound .operation [op, .compound .product args])) rest := by
  have first := ready.operator head each ends before
  have inside : .compound .product args ∈ [op, .compound .product args] := by simp
  rw [text_operation] at fits ⊢
  simp only [List.cons_append, List.append_assoc, List.nil_append, List.length_cons,
    List.length_append] at fits ⊢
  have starts : Avoids (text (.compound .product args) ++ ')' :: rest)
      fun char => !opensTerm char := by
    rw [text_product]
    exact avoids_cons.mpr (by decide)
  have left := shorter.reads _ _ first (by simp only [List.length_append, List.length_cons]; omega)
  by_cases negated : ∃ operand, args = [.compound .negation [operand]]
  · obtain ⟨operand, rfl⟩ := negated
    have shape : text (.compound .product [.compound .negation [operand]]) ++ ')' :: rest =
        '(' :: (text (.compound .negation [operand]) ++ ')' :: ')' :: rest) := by
      rw [text_product]
      simp
    have right : Reads rule
        (text (.compound .product [.compound .negation [operand]]) ++ ')' :: rest)
        (some (.compound .negation [operand])) (')' :: rest) := by
      refine shape ▸ shorter.wrapped operand _ (ready.onlyArgument inside (each _ (by simp))) ?_
      rw [← shape, List.length_append, List.length_cons]
      omega
    exact reads_infixStatement (Or.inr rfl) first.unspaced left starts right
      (reads_create_negatedArgument ready.canonical)
  · have last : Ready collator (.compound .product args) (')' :: rest) :=
      { legible := .product args each apart fun operand same => negated ⟨operand, same⟩
        canonical := ready.canonical.args _ inside
        readable := (atomsAmong_compound _ _).mp ready.readable _ inside
        stops := stops_cons (by decide)
        ends := fun named => by cases named
        closed := ready.closed_arg inside }
    exact reads_infixStatement (Or.inr rfl) first.unspaced left starts
      (shorter.reads _ _ last (by simp only [List.length_append, List.length_cons]; omega))
      (reads_create ready.canonical)

/-! ### The round trip -/

theorem readsShorter_term (fuel : Nat) : ReadsShorter collator (term collator fuel) fuel := by
  induction fuel with
  | zero =>
    exact ⟨fun _ _ _ short => absurd short (Nat.not_lt_zero _),
      fun _ _ _ short => absurd short (Nat.not_lt_zero _),
      fun _ _ _ _ _ short => absurd short (Nat.not_lt_zero _)⟩
  | succ fuel shorter =>
    refine ⟨fun term rest ready fits => ?_, fun operand rest ready fits => ?_,
      fun char rest following dash angle _ => fails_term following dash angle⟩
    · have legible := ready.legible
      cases legible with
      | atom symbol => exact ready.reads_atom
      | pair kind first second written left right apart =>
        exact ready.reads_pair written left right apart shorter fits
      | listed kind args written nary more each apart =>
        exact ready.reads_listed written nary more each apart shorter fits
      | product args each apart shown => exact ready.reads_product each apart shown shorter fits
      | operation op args head each ends before apart =>
        exact ready.reads_operation head each ends before apart shorter fits
      | negation operand => exact ready.reads_negation shorter fits
      | set kind args braced each apart => exact ready.reads_set braced each apart shorter fits
    · exact ready.reads_wrapped shorter fits

/-- The round trip: if a text is accepted as a legible term, that term's text is accepted as
the term. -/
theorem parsesTo_serializeTerm (collator : Collator) (parseFloat : String → JsNumber)
    (source : String) (term : Term) (accepted : ParsesTo collator parseFloat source term)
    (legible : Legible term) : ParsesTo collator parseFloat (serializeTerm term) term := by
  obtain ⟨canonical, readable⟩ := accepted.parsed
  have ready : Ready collator term [] :=
    { legible, canonical, readable
      stops := stops_nil
      ends := fun _ => avoids_nil _
      closed := Or.inr List.not_mem_nil }
  have read := (readsShorter_term ((text term).length + 1)).reads term [] ready (by simp)
  have blank := ready.unspaced
  rw [List.append_nil] at read blank
  have punc : Fails punctuation [] := stops_nil.whitespace.bind_fails (fails_oneOf (avoids_nil _))
  have noTask : Fails (task parseFloat (Grammar.term collator ((text term).length + 1)))
      (text term) := read.bind_fails punc.bind
  have asTerm : Reads (do return Content.term (← Grammar.term collator ((text term).length + 1)))
      (text term) (.term (some term)) [] := read.bind reads_pure
  have whole : Reads (start collator parseFloat ((text term).length + 1)) (text term)
      (.term (some term)) [] :=
    blank.bind ((noTask.bind.firstOf asTerm.firstOf).bind (stops_nil.whitespace.bind reads_pure))
  rw [Reads, text] at whole
  rw [ParsesTo, parse, whole]

/-- `<(&,a,b,c)-->{d,--e}>` is read, written as `((&,a,b,c)-->{d,--e})` and read again. -/
theorem parsesTo_serializeTerm_statement :
    ParsesTo codePointCollator (fun _ => .nan)
      (serializeTerm (.compound .inheritance
        [.compound .conjunction [.atom "a", .atom "b", .atom "c"],
          .compound .setExt [.atom "d", .compound .negation [.atom "e"]]]))
      (.compound .inheritance
        [.compound .conjunction [.atom "a", .atom "b", .atom "c"],
          .compound .setExt [.atom "d", .compound .negation [.atom "e"]]]) := by
  have unquoted : ∀ symbol : String, symbol ≠ "\"" →
      AtomsAmong (· ≠ "\"") (.atom symbol) := fun symbol plain => (atomsAmong_atom symbol).mpr plain
  refine parsesTo_serializeTerm codePointCollator (fun _ => .nan) "<(&,a,b,c)-->\x7bd,--e\x7d>" _
    (by unfold ParsesTo; decide +kernel) ?_
  refine .pair _ _ _ rfl (.listed _ _ rfl rfl (by decide) ?_ ?_) (.set _ _ (Or.inl rfl) ?_ ?_) ?_
  · simp [Legible.atom]
  · simp [QuotesApart, unquoted]
  · simp [Legible.atom, Legible.negation]
  · simp [QuotesApart, unquoted]
  · refine Or.inl ((atomsAmong_compound _ _).mpr ?_)
    simp [unquoted]

/-- The operation `$x(a)` is written as `($x^(a))`, in which the sigil of the operation is read
as a part of the variable, and the text is rejected. -/
theorem operation_of_variable_not_read_back :
    ¬ ∀ (collator : Collator) (parseFloat : String → JsNumber) (source : String) (term : Term),
      ParsesTo collator parseFloat source term →
      ParsesTo collator parseFloat (serializeTerm term) term := by
  intro roundTrip
  have accepted : ParsesTo codePointCollator (fun _ => .nan) "$x(a)"
      (.compound .operation [.atom "$x", .compound .product [.atom "a"]]) := by
    unfold ParsesTo
    decide +kernel
  have rejected : parse codePointCollator (fun _ => .nan) "($x^(a))" = .failure := by
    decide +kernel
  have again := roundTrip _ _ _ _ accepted
  have written : serializeTerm (.compound .operation
      [.atom "$x", .compound .product [.atom "a"]]) = "($x^(a))" := by decide
  rw [ParsesTo, written, rejected] at again
  cases again

end Senars.Grammar
