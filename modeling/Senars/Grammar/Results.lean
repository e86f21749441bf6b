/-
This file is about what the grammar makes of a text, whatever the text is. The
fuel of a parse never runs out. Every term it yields was normalised by the
factory, and every atom in it is a word, a variable, a quoted text or a lone
quote, since the characters of an atom were read off the text by one of the
rules for atoms and then accepted by the factory.
-/

import Senars.Grammar.Narsese
import Senars.Terms.Symbols

namespace Senars.Grammar

open Library Peg Terms

/-! ### Symbols -/

/-- A sequence of characters one of the rules for atoms reads as one atom. -/
inductive AtomText : List Char → Prop
  | word (chars : List Char) (some : chars ≠ []) (plain : ∀ char ∈ chars, atomicChar char = true)
      (accepted : ∀ char ∈ chars, isAtomChar char = true) : AtomText chars
  | variableName (sigil : Char) (chars : List Char) (opens : isSigil sigil = true)
      (plain : ∀ char ∈ chars, variableChar char = true) : AtomText (sigil :: chars)
  | quoted (chars : List Char) (closed : '"' ∉ chars) : AtomText ('"' :: chars ++ ['"'])
  | quote : AtomText ['"']

/-- A symbol the grammar reads and the factory accepts. -/
structure Readable (symbol : String) : Prop where
  text : AtomText symbol.toList
  accepted : atomOf symbol = .ok (.atom symbol)

variable {char : Char}

theorem operationChar_variableChar (member : operationChar char = true) :
    variableChar char = true := by
  simp only [operationChar, colonedChar, Bool.and_eq_true] at member
  exact member.1.1

theorem atomicChar_operationChar (member : atomicChar char = true) : operationChar char = true := by
  simp only [atomicChar, Bool.and_eq_true] at member
  exact member.1

theorem isSigil_iff :
    isSigil char = true ↔ char = '?' ∨ char = '$' ∨ char = '#' ∨ char = '*' ∨ char = '%' := by
  simp [isSigil]

theorem isVariableSymbol_iff {symbol} :
    isVariableSymbol symbol = true ↔
      ∃ sigil chars, symbol.toList = sigil :: chars ∧ isSigil sigil = true := by
  rw [isVariableSymbol]
  cases symbol.toList with
  | nil => simp
  | cons first chars => simp [isSigil_iff, or_assoc]

theorem atomOf_cases {symbol term} (built : atomOf symbol = .ok term) :
    isVariableSymbol symbol = true ∨ isQuotedAtom symbol = true ∨
      ∀ char ∈ symbol.toList, isAtomChar char = true := by
  by_cases constant : symbol = "TRUE" ∨ symbol = "FALSE" ∨ symbol = "NULL"
  · refine Or.inr (Or.inr ?_)
    rcases constant with rfl | rfl | rfl <;> exact List.all_eq_true.mp (by decide)
  · simp only [not_or] at constant
    rw [atomOf, if_neg constant.1, if_neg constant.2.1, if_neg constant.2.2, createAtom] at built
    split at built
    · cases built
    split at built
    · rename_i exempt
      rw [Bool.or_eq_true] at exempt
      exact exempt.imp_right Or.inl
    split at built
    · cases built
    · rename_i none
      refine Or.inr (Or.inr fun char inside => ?_)
      simpa using List.find?_eq_none.mp none char inside

theorem readable_of_run {chars} (some : chars ≠ [])
    (plain : ∀ char ∈ chars, operationChar char = true) {term}
    (built : atomOf (String.ofList chars) = .ok term) :
    Readable (String.ofList chars) ∨ isQuotedAtom (String.ofList chars) = true := by
  have accepted : atomOf (String.ofList chars) = .ok (.atom (String.ofList chars)) :=
    built.trans (congrArg _ (atomOf_eq built))
  have colon : ':' ∉ chars := by
    simpa only [String.toList_ofList] using atomOf_colon built
  rcases atomOf_cases built with named | quoted | word
  · obtain ⟨sigil, rest, split, opens⟩ := isVariableSymbol_iff.mp named
    rw [String.toList_ofList] at split
    subst split
    refine Or.inl ⟨?_, accepted⟩
    rw [String.toList_ofList]
    exact .variableName sigil rest opens fun char inside =>
      operationChar_variableChar (plain char (List.mem_cons_of_mem _ inside))
  · exact Or.inr quoted
  · rw [String.toList_ofList] at word
    refine Or.inl ⟨?_, accepted⟩
    rw [String.toList_ofList]
    refine .word chars some (fun char inside => ?_) word
    have different : char ≠ ':' := fun same => colon (same ▸ inside)
    simp [atomicChar, plain char inside, different]

/-! ### Atoms -/

/-- What the grammar yields: `undefined`, or a canonical term of readable atoms. -/
def Parsed (collator : Collator) (node : Node) : Prop :=
  ∀ term ∈ node, Canonical termKey collator term ∧ AtomsAmong Readable term

section Atoms

variable {collator : Collator} {room : Nat}

theorem parsed_atom {symbol} (readable : Readable symbol) :
    Parsed collator (some (.atom symbol)) := by
  intro term same
  cases same
  exact ⟨.atom symbol, (atomsAmong_atom symbol).mpr readable⟩

theorem yields_build {built} (parsed : ∀ term, built = .ok term → Parsed collator (some term)) :
    Yields room (build built) (Parsed collator) := by
  refine yields_act fun node done => ?_
  cases built with
  | ok term => exact Except.ok.inj done ▸ parsed term rfl
  | error error => cases done

theorem yields_atom {chars}
    (readable : ∀ term, atomOf (String.ofList chars) = .ok term → Readable (String.ofList chars)) :
    Yields room (atom chars) (Parsed collator) :=
  yields_build fun term built => atomOf_eq built ▸ parsed_atom (readable term built)

theorem yields_stringLiteral : Yields room stringLiteral (Parsed collator) := by
  refine (yields_literal _).bind fun _ _ => (yields_run _).bind fun chars each =>
    (yields_literal _).bind fun _ _ => yields_atom fun term built => ⟨?_, ?_⟩
  · rw [String.toList_ofList]
    refine .quoted chars fun inside => ?_
    simpa using each _ inside
  · exact built.trans (congrArg _ (atomOf_eq built))

theorem stringLiteral_ne_failure {text} (closed : '"' ∈ text) :
    stringLiteral ('"' :: text) ≠ .failure := by
  obtain ⟨before, after, rfl, first⟩ := List.eq_append_cons_of_mem closed
  have opening : Reads (literal "\"" : Rule Unit) ('"' :: (before ++ '"' :: after)) ()
      (before ++ '"' :: after) := reads_literal "\""
  have inside : Reads (run (· != '"') : Rule (List Char)) (before ++ '"' :: after) before
      ('"' :: after) := by
    refine reads_run (fun char member => ?_) (by simp [avoids_cons])
    exact bne_iff_ne.mpr fun same => first (same ▸ member)
  have closing : Reads (literal "\"" : Rule Unit) ('"' :: after) () after := reads_literal "\""
  have thrown : ∀ built text, build built text ≠ .failure := by
    intro built text
    cases built with
    | ok term => exact fun same => by cases same
    | error error => exact fun same => by cases same
  rw [stringLiteral, bind_apply, opening, followedBy, bind_apply, inside, followedBy, bind_apply,
    closing]
  exact thrown _ _

theorem fails_colonedAtom (text : List Char) : Fails colonedAtom text := by
  cases text with
  | nil => rfl
  | cons char rest =>
    by_cases member : operationChar char = true
    · have colon : Avoids (rest.dropWhile operationChar) (· == ':') :=
        (avoids_dropWhile operationChar rest).char (by decide)
      exact (reads_run1_takeWhile member).bind_fails ((fails_literal rfl colon).bind.bind).bind
    · exact (fails_run1 (avoids_cons.mpr (by simpa using member))).bind

theorem readable_of_quoted_run {char chars term}
    (built : atomOf (String.ofList (char :: chars)) = .ok term)
    (quoted : isQuotedAtom (String.ofList (char :: chars)) = true)
    (alone : char = '"' → '"' ∉ chars) : Readable (String.ofList (char :: chars)) := by
  rw [isQuotedAtom, String.toList_ofList, Bool.and_eq_true, beq_iff_eq, beq_iff_eq] at quoted
  have first : char = '"' := Option.some.inj quoted.1
  have none : chars = [] := by
    cases chars with
    | nil => rfl
    | cons next rest =>
      rw [List.getLast?_cons_cons] at quoted
      exact absurd (List.mem_of_getLast? quoted.2) (alone first)
  subst first none
  refine ⟨?_, built.trans (congrArg _ (atomOf_eq built))⟩
  exact .quote

theorem yields_atomic {member}
    (operational : ∀ char, member char = true → operationChar char = true) :
    Yields room (firstOf [stringLiteral, run1 member >>= atom]) (Parsed collator) := by
  intro text fits
  rw [firstOf_cons]
  have literal : Bounded text.length (Parsed collator) (stringLiteral text) :=
    yields_stringLiteral text fits
  cases outcome : stringLiteral text with
  | success value rest => rwa [outcome] at literal
  | thrown error => trivial
  | exhausted => rwa [outcome] at literal
  | failure =>
    rw [firstOf_singleton]
    cases text with
    | nil => trivial
    | cons char rest =>
      by_cases holds : member char = true
      · have plain : ∀ other ∈ char :: rest.takeWhile member, operationChar other = true :=
          List.forall_mem_cons.mpr ⟨operational char holds,
            fun other inside => operational other (List.mem_takeWhile_imp inside)⟩
        have unclosed : char = '"' → '"' ∉ rest.takeWhile member := by
          rintro rfl inside
          exact stringLiteral_ne_failure ((List.takeWhile_prefix member).subset inside) outcome
        rw [bind_apply, reads_run1_takeWhile holds]
        refine Bounded.mono (yields_atom (fun term built => ?_) _ le_rfl)
          ((List.dropWhile_suffix member).length_le.trans (Nat.le_succ _))
        rcases readable_of_run (List.cons_ne_nil _ _) plain built with readable | quoted
        · exact readable
        · exact readable_of_quoted_run built quoted unclosed
      · rw [(fails_run1 (avoids_cons.mpr (by simpa using holds))).bind]
        trivial

theorem yields_atomicTerm : Yields room atomicTerm (Parsed collator) :=
  yields_atomic fun _ => atomicChar_operationChar

theorem operationAtomicTerm_eq :
    operationAtomicTerm = firstOf [stringLiteral, run1 operationChar >>= atom] := by
  funext text
  rw [operationAtomicTerm, firstOf_cons, firstOf_cons, fails_colonedAtom text]
  rfl

theorem yields_operationAtomicTerm : Yields room operationAtomicTerm (Parsed collator) :=
  operationAtomicTerm_eq ▸ yields_atomic fun _ => id

theorem yields_variableTerm : Yields room variableTerm (Parsed collator) := by
  refine (yields_oneOf isSigil).bind fun sigil opens => (yields_run variableChar).bind
    fun chars plain => yields_atom fun term built => ⟨?_, ?_⟩
  · rw [String.toList_ofList]
    exact .variableName sigil chars opens plain
  · exact built.trans (congrArg _ (atomOf_eq built))

theorem yields_imagePlaceholder : Yields room imagePlaceholder (Parsed collator) := by
  refine yields_firstOf fun parser member => ?_
  simp only [List.mem_cons, List.not_mem_nil, or_false] at member
  rcases member with rfl | rfl
  · exact (yields_literal _).bind fun _ _ => yields_atom fun term built => by cases built
  · exact (yields_literal _).bind fun _ _ => yields_atom fun term built => by cases built

end Atoms

/-! ### Terms -/

section Terms

variable {collator : Collator} {room : Nat}

theorem readable_constant (symbol : BoolSymbol) : Readable symbol.text := by
  refine ⟨?_, by cases symbol <;> rfl⟩
  cases symbol with
  | TRUE =>
    exact .word _ (by decide) (List.all_eq_true.mp (by decide)) (List.all_eq_true.mp (by decide))
  | FALSE =>
    exact .word _ (by decide) (List.all_eq_true.mp (by decide)) (List.all_eq_true.mp (by decide))

theorem yields_create (kind : OperatorKey) {args} (each : ∀ node ∈ args, Parsed collator node) :
    Yields room (create collator kind args) (Parsed collator) := by
  refine yields_build fun term built result same => ?_
  cases same
  refine ⟨?_, createCompound_atomsAmong readable_constant (fun arg member => ?_) built⟩
  · rw [createCompound] at built
    cases raw : compoundOf collator kind (args.filterMap id) with
    | error error => exact absurd (raw ▸ built) (by rintro ⟨⟩)
    | ok middle =>
      rw [raw] at built
      exact canonicalTerm_canonical built
  · obtain ⟨node, inside, same⟩ := List.mem_filterMap.mp member
    exact (each node inside arg same).2

theorem yields_inheritance {subj pred} (subject : Parsed collator subj)
    (predicate : Parsed collator pred) :
    Yields room (inheritance collator subj pred) (Parsed collator) := by
  have failed : Yields room (act (.error (.term .notATerm)) : Rule Node) (Parsed collator) :=
    yields_act fun node done => by cases done
  cases subj with
  | none => exact failed
  | some subj =>
    cases pred with
    | none => exact failed
    | some pred =>
      rw [inheritance]
      split
      · exact yields_pure fun term absent => absurd absent (by simp)
      · exact yields_create .inheritance (by simp [subject, predicate])

theorem yields_operation {operator args} (head : Parsed collator operator)
    (each : ∀ node ∈ args, Parsed collator node) :
    Yields room (operation collator operator args) (Parsed collator) := by
  unfold operation
  split
  · rename_i arg
    exact yields_create .operation (by simp [head, each arg])
  · refine (yields_create .product each).bind fun product parsed => ?_
    exact yields_create .operation (by simp [head, parsed])

/-! ### Rules -/

variable {term : Rule Node}

theorem yields_whitespace : Yields room whitespace fun _ => True :=
  (yields_run isSpace).imp fun _ _ => trivial

theorem yields_termList (inner : Yields room term (Parsed collator)) :
    Yields room (termList term) fun nodes => ∀ node ∈ nodes, Parsed collator node := by
  refine inner.bind fun head parsed => Yields.bind (Yields.star ?_)
    fun tail (each : ∀ node ∈ tail, Parsed collator node) => ?_
  · exact yields_whitespace.bind fun _ _ => (yields_literal _).bind fun _ _ =>
      yields_whitespace.bind fun _ _ => inner
  · exact yields_pure (List.forall_mem_cons.mpr ⟨parsed, each⟩)

theorem yields_components (inner : Yields room term (Parsed collator)) :
    Yields room (components term) fun nodes => ∀ node ∈ nodes, Parsed collator node := by
  refine (yields_termList inner).optional.bind fun listed each => yields_pure ?_
  cases listed with
  | none => exact fun node absent => absurd absent List.not_mem_nil
  | some nodes => exact each nodes rfl

theorem yields_operatorToken : Yields room operatorToken fun _ => True := by
  refine yields_firstOf fun parser member => ?_
  obtain ⟨symbol, _, rfl⟩ := List.mem_map.mp member
  exact (yields_literal symbol).bind fun _ _ => yields_pure trivial

theorem yields_operatorKind (symbol : String) :
    Yields room (operatorKind symbol) fun _ => True :=
  yields_act fun _ _ => trivial

theorem yields_infixStatement {opening closing} (some : opening.toList ≠ [])
    (inner : ∀ less < room, Yields less term (Parsed collator)) :
    Yields room (infixStatement collator term opening closing) (Parsed collator) := by
  refine Yields.after_literal some fun less fits => ?_
  refine yields_whitespace.bind fun _ _ => (inner less fits).bind fun subject parsedSubject => ?_
  refine yields_whitespace.bind fun _ _ => yields_operatorToken.bind fun op _ => ?_
  refine yields_whitespace.optional.bind fun _ _ => yields_whitespace.bind fun _ _ => ?_
  refine (inner less fits).bind fun predicate parsedPredicate => ?_
  refine yields_whitespace.bind fun _ _ => ?_
  refine (yields_literal _).bind fun _ _ => (yields_operatorKind op).bind fun kind _ => ?_
  exact yields_create kind (by simp [parsedSubject, parsedPredicate])

theorem yields_prefixCompound (inner : ∀ less < room, Yields less term (Parsed collator)) :
    Yields room (prefixCompound collator term) (Parsed collator) := by
  refine Yields.after_literal (by decide) fun less fits => ?_
  have symbol : Yields less operatorSymbol fun _ => True :=
    yields_operatorToken.bind fun _ _ => yields_pure trivial
  refine yields_whitespace.bind fun _ _ => symbol.bind fun symbol _ => ?_
  refine yields_whitespace.bind fun _ _ => (yields_literal _).optional.bind fun _ _ => ?_
  refine yields_whitespace.bind fun _ _ => ?_
  refine (yields_termList (inner less fits)).bind fun listed each => ?_
  refine yields_whitespace.bind fun _ _ => (yields_literal _).bind fun _ _ => ?_
  split
  · exact yields_act fun node done => by cases done
  · exact (yields_operatorKind symbol).bind fun kind _ => yields_create kind each

theorem yields_enclosed {opening closing} (some : opening.toList ≠ [])
    (inner : ∀ less < room, Yields less term (Parsed collator)) {action : List Node → Rule Node}
    (acts : ∀ listed, (∀ node ∈ listed, Parsed collator node) →
      ∀ less, Yields less (action listed) (Parsed collator)) :
    Yields room (do
      literal opening
      let _ ← whitespace
      let listed ← components term
      let _ ← whitespace
      literal closing
      action listed) (Parsed collator) := by
  refine Yields.after_literal some fun less fits => ?_
  refine yields_whitespace.bind fun _ _ => ?_
  refine (yields_components (inner less fits)).bind fun listed each => ?_
  refine yields_whitespace.bind fun _ _ => (yields_literal _).bind fun _ _ => ?_
  exact acts listed each less

theorem yields_operationCall (inner : ∀ less < room, Yields less term (Parsed collator)) :
    Yields room (operationCall collator term) (Parsed collator) :=
  yields_operationAtomicTerm.bind fun _ head =>
    yields_enclosed (by decide) inner fun _ each _ => yields_operation head each

theorem yields_compoundTerm (inner : ∀ less < room, Yields less term (Parsed collator)) :
    Yields room (compoundTerm collator term) (Parsed collator) := by
  refine yields_firstOf fun parser member => ?_
  simp only [List.mem_cons, List.not_mem_nil, or_false] at member
  rcases member with rfl | rfl | rfl | rfl
  · refine Yields.after_literal (by decide) fun less fits => ?_
    refine yields_whitespace.bind fun _ _ => (yields_literal _).bind fun _ _ => ?_
    refine yields_whitespace.bind fun _ _ => (inner less fits).bind fun operand parsed => ?_
    refine yields_whitespace.bind fun _ _ => (yields_literal _).bind fun _ _ => ?_
    exact yields_create .negation (by simp [parsed])
  · exact yields_prefixCompound inner
  · exact yields_operationCall inner
  · exact yields_enclosed (by decide) inner fun _ each _ => yields_create .product each

theorem yields_negated {mark} (some : mark.toList ≠ [])
    (inner : ∀ less < room, Yields less term (Parsed collator)) :
    Yields room (do
      literal mark
      let operand ← term
      create collator .negation [operand]) (Parsed collator) :=
  Yields.after_literal some fun less fits =>
    (inner less fits).bind fun _ parsed => yields_create .negation (by simp [parsed])

section

variable (inner : ∀ less < room, Yields less term (Parsed collator))

include inner

theorem yields_deltaTerm : Yields room (deltaTerm collator term) (Parsed collator) := by
  refine yields_firstOf fun parser member => ?_
  simp only [List.mem_cons, List.not_mem_nil, or_false] at member
  rcases member with rfl | rfl
  · exact yields_negated (by decide) inner
  · exact yields_negated (by decide) inner

theorem yields_statement : Yields room (statement collator term) (Parsed collator) := by
  refine yields_firstOf fun parser member => ?_
  simp only [List.mem_cons, List.not_mem_nil, or_false] at member
  rcases member with rfl | rfl
  · exact yields_infixStatement (by decide) inner
  · exact yields_infixStatement (by decide) inner

theorem yields_set : Yields room (set collator term) (Parsed collator) := by
  refine yields_firstOf fun parser member => ?_
  simp only [List.mem_cons, List.not_mem_nil, or_false] at member
  rcases member with rfl | rfl
  · exact yields_enclosed (by decide) inner fun _ each _ => yields_create .setExt each
  · exact yields_enclosed (by decide) inner fun _ each _ => yields_create .setInt each

theorem yields_compactInheritance :
    Yields room (compactInheritance collator term) (Parsed collator) :=
  yields_atomicTerm.bind fun _ predicate => Yields.after_literal (by decide)
    fun less fits => ((inner less fits).bind fun _ subject => yields_inheritance subject predicate)

end

theorem yields_term {fuel} (enough : room < fuel) :
    Yields room (Grammar.term collator fuel) (Parsed collator) := by
  induction fuel generalizing room with
  | zero => exact absurd enough (Nat.not_lt_zero room)
  | succ fuel ih =>
    have inner : ∀ less < room, Yields less (Grammar.term collator fuel) (Parsed collator) :=
      fun less fits => ih (by omega)
    refine yields_firstOf fun parser member => ?_
    simp only [termAlternatives, List.mem_cons, List.not_mem_nil, or_false] at member
    rcases member with rfl | rfl | rfl | rfl | rfl | rfl | rfl | rfl | rfl
    · exact yields_statement inner
    · exact yields_compactInheritance inner
    · exact yields_negated (by decide) inner
    · exact yields_deltaTerm inner
    · exact yields_compoundTerm inner
    · exact yields_set inner
    · exact yields_variableTerm
    · exact yields_imagePlaceholder
    · exact yields_atomicTerm

/-! ### The whole text -/

variable {parseFloat : String → JsNumber}

theorem yields_float : Yields room (float parseFloat) fun _ => True := by
  have sign : Yields room (token "-" : Rule String) fun _ => True :=
    (yields_literal _).bind fun _ _ => yields_pure trivial
  have fraction : Yields room (do
      literal "."
      let chars ← digits
      return '.' :: chars : Rule (List Char)) fun _ => True :=
    (yields_literal _).bind fun _ _ => (yields_run1 _).bind fun _ _ => yields_pure trivial
  exact sign.optional.bind fun _ _ => (yields_run1 _).bind fun _ _ =>
    fraction.optional.bind fun _ _ => yields_pure trivial

theorem yields_truthValue : Yields room (truthValue parseFloat) fun _ => True := by
  refine yields_firstOf fun parser member => ?_
  simp only [List.mem_cons, List.not_mem_nil, or_false] at member
  rcases member with rfl | rfl
  · refine yields_whitespace.bind fun _ _ => (yields_literal _).bind fun _ _ => ?_
    refine yields_whitespace.bind fun _ _ => yields_float.bind fun _ _ => ?_
    refine yields_whitespace.bind fun _ _ => (yields_literal _).bind fun _ _ => ?_
    refine yields_whitespace.bind fun _ _ => yields_float.bind fun _ _ => ?_
    refine yields_whitespace.bind fun _ _ => (yields_literal _).bind fun _ _ => ?_
    exact yields_act fun _ _ => trivial
  · refine yields_whitespace.bind fun _ _ => (yields_literal _).bind fun _ _ => ?_
    refine yields_whitespace.bind fun _ _ => yields_float.bind fun _ _ => ?_
    refine yields_whitespace.bind fun _ _ => (yields_literal _).bind fun _ _ => ?_
    exact yields_act fun _ _ => trivial

theorem yields_task (inner : Yields room term (Parsed collator)) :
    Yields room (task parseFloat term) fun _ => True := by
  have punc : Yields room punctuation fun _ => True :=
    yields_whitespace.bind fun _ _ => (yields_oneOf _).imp fun _ _ => trivial
  refine inner.bind fun _ _ => punc.bind fun _ _ => yields_truthValue.optional.bind fun _ _ => ?_
  exact yields_pure trivial

theorem yields_start {fuel} (enough : room < fuel) :
    Yields room (start collator parseFloat fuel) fun content =>
      ∀ node, content = .term node → Parsed collator node := by
  refine yields_whitespace.bind fun _ _ => ?_
  refine Yields.bind (yields_firstOf fun parser member => ?_) fun content parsed =>
    yields_whitespace.bind fun _ _ => yields_pure parsed
  simp only [List.mem_cons, List.not_mem_nil, or_false] at member
  rcases member with rfl | rfl
  · exact (yields_task (yields_term enough)).bind fun _ _ => yields_pure fun _ same => by cases same
  · refine (yields_term enough).bind fun node parsed => yields_pure fun other same => ?_
    exact Content.term.inj same ▸ parsed

theorem bounded_start (collator : Collator) (parseFloat : String → JsNumber) (text : String) :
    Bounded text.toList.length (fun content => ∀ node, content = .term node → Parsed collator node)
      (start collator parseFloat (text.toList.length + 1) text.toList) :=
  yields_start (Nat.lt_succ_self _) text.toList le_rfl

theorem parse_cases (collator : Collator) (parseFloat : String → JsNumber) (text : String) :
    parse collator parseFloat text = .failure ∨
      parse collator parseFloat text =
        start collator parseFloat (text.toList.length + 1) text.toList := by
  delta parse
  split
  · exact .inl rfl
  · exact .inr rfl

theorem parse_ne_exhausted (text : String) : parse collator parseFloat text ≠ .exhausted := by
  have bounded := bounded_start collator parseFloat text
  intro ran
  rcases parse_cases collator parseFloat text with failed | started
  · cases failed.symm.trans ran
  · rw [started.symm.trans ran] at bounded
    exact bounded

theorem ParsesTo.parsed {text term} (accepted : ParsesTo collator parseFloat text term) :
    Canonical termKey collator term ∧ AtomsAmong Readable term := by
  have bounded := bounded_start collator parseFloat text
  rcases parse_cases collator parseFloat text with failed | started
  · cases failed.symm.trans accepted
  · rw [started.symm.trans accepted] at bounded
    exact bounded.1 (some term) rfl term rfl

end Terms

end Senars.Grammar
