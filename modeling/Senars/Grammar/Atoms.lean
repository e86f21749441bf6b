/-
This file is about reading an atom back, in front of a text that can follow a
term. The rules that come before the ones for atoms either fail on its first
character or read a part of it and then miss the colon or the parenthesis they
go on with.
-/

import Senars.Grammar.Legible

namespace Senars.Grammar

open Library Peg Terms

/-! ### What follows a term -/

/-- The characters that follow the text of a term inside another text. -/
def follows (char : Char) : Bool := ")\x7d],-<=&|^".toList.contains char

/-- A text that can follow a term: it is empty or begins with a following character. -/
def Stops (rest : List Char) : Prop := Avoids rest fun char => !follows char

theorem stops_nil : Stops [] := avoids_nil _

variable {char : Char}

theorem stops_cons {rest} (following : follows char = true) : Stops (char :: rest) :=
  avoids_cons.mpr (by simp [following])

theorem follows_cases (following : follows char = true) :
    char = ')' ∨ char = '\x7d' ∨ char = ']' ∨ char = ',' ∨ char = '-' ∨ char = '<' ∨ char = '=' ∨
      char = '&' ∨ char = '|' ∨ char = '^' := by
  simpa [follows] using following

theorem not_operationChar_of_follows (following : follows char = true) :
    operationChar char = false := by
  rcases follows_cases following with rfl | rfl | rfl | rfl | rfl | rfl | rfl | rfl | rfl | rfl <;>
    decide

theorem not_variableChar_of_follows (following : follows char = true) (plain : char ≠ '^') :
    variableChar char = false := by
  rcases follows_cases following with rfl | rfl | rfl | rfl | rfl | rfl | rfl | rfl | rfl | rfl <;>
    first | decide | exact absurd rfl plain

section Stops

variable {rest : List Char} (stops : Stops rest)
include stops

theorem Stops.avoids {member} (outside : ∀ char, follows char = true → member char = false) :
    Avoids rest member := by
  refine stops.imp fun char inside => ?_
  by_contra following
  rw [outside char (by simpa using following)] at inside
  cases inside

theorem Stops.whitespace : Reads whitespace rest [] rest := by
  refine reads_run_nil (stops.avoids fun char following => ?_)
  rcases follows_cases following with
    rfl | rfl | rfl | rfl | rfl | rfl | rfl | rfl | rfl | rfl <;> decide

theorem Stops.run {member} (narrow : ∀ char, member char = true → operationChar char = true) :
    Avoids rest member := by
  refine stops.avoids fun char following => ?_
  by_contra inside
  have operational := narrow char (by simpa using inside)
  rw [not_operationChar_of_follows following] at operational
  cases operational

theorem Stops.mark {char} (outside : follows char = false) : Avoids rest (· == char) :=
  Avoids.char stops (by simp [outside])

end Stops

/-! ### A quoted text, or a run of characters -/

section Atomic

variable {chars rest : List Char} {member : Char → Bool}

theorem reads_atom (accepted : atomOf (String.ofList chars) = .ok (.atom (String.ofList chars))) :
    Reads (atom chars) rest (some (.atom (String.ofList chars))) rest := by
  rw [atom, accepted]
  rfl

theorem fails_stringLiteral (avoids : Avoids rest (· == '"')) : Fails stringLiteral rest :=
  (fails_literal rfl avoids).bind

theorem fails_stringLiteral_of_unclosed (unclosed : '"' ∉ rest) :
    Fails stringLiteral ('"' :: rest) := by
  have all : Reads (run (· != '"') : Rule (List Char)) (rest ++ []) rest [] :=
    reads_run (fun char inside => bne_iff_ne.mpr fun same => unclosed (same ▸ inside))
      (avoids_nil _)
  rw [List.append_nil] at all
  exact (reads_literal "\"").bind_fails (all.bind_fails (fails_literal rfl (avoids_nil _)).bind)

theorem reads_atomic (atomText : AtomText chars)
    (accepted : atomOf (String.ofList chars) = .ok (.atom (String.ofList chars)))
    (named : isVariableSymbol (String.ofList chars) = false)
    (wide : ∀ char, atomicChar char = true → member char = true)
    (narrow : ∀ char, member char = true → operationChar char = true) (stops : Stops rest)
    (closed : chars = ['"'] → '"' ∉ rest) :
    Reads (firstOf [stringLiteral, run1 member >>= atom]) (chars ++ rest)
      (some (.atom (String.ofList chars))) rest := by
  have avoids : Avoids rest member := stops.run narrow
  cases atomText with
  | word _ some plain accepts =>
    obtain ⟨char, tail, rfl⟩ := List.exists_cons_of_ne_nil some
    have unquoted : char ≠ '"' := by
      rintro rfl
      exact absurd (accepts '"' List.mem_cons_self) (by decide)
    refine (fails_stringLiteral (avoids_cons.mpr (by simpa using unquoted))).firstOf ?_
    exact ((reads_run1 (fun other inside => wide other (plain other inside)) avoids).bind
      (reads_atom accepted)).firstOf
  | variableName sigil tail opens plain =>
    rw [isVariableSymbol_iff.mpr ⟨sigil, tail, String.toList_ofList, opens⟩] at named
    cases named
  | quoted tail unclosed =>
    have inner : Reads (run (· != '"') : Rule (List Char)) (tail ++ '"' :: rest) tail
        ('"' :: rest) := by
      refine reads_run (fun char inside => ?_) (by simp [avoids_cons])
      exact bne_iff_ne.mpr fun same => unclosed (same ▸ inside)
    rw [List.append_assoc]
    exact Reads.firstOf ((reads_literal "\"").bind (inner.bind
      ((reads_literal "\"").bind (reads_atom accepted))))
  | quote =>
    refine (fails_stringLiteral_of_unclosed (closed rfl)).firstOf (Reads.firstOf ?_)
    refine (reads_run1 (fun char inside => ?_) avoids).bind (reads_atom accepted)
    rw [List.mem_singleton.mp inside]
    exact wide '"' (by decide)

/-! ### Variables -/

/-- A parser does not read a text up to a certain character: it fails, or reads up to another. -/
def Misses (parser : Rule Node) (whole : List Char) (mark : Char) : Prop :=
  Fails parser whole ∨ ∃ value left, Reads parser whole value left ∧ Avoids left (· == mark)

theorem Misses.bind_literal {parser whole mark char} (first : mark.toList.head? = some char)
    (misses : Misses parser whole char) (next : Node → Rule Node) :
    Fails (parser >>= fun value => literal mark >>= fun _ => next value) whole := by
  rcases misses with failed | ⟨value, left, read, avoids⟩
  · exact failed.bind
  · exact read.bind_fails (fails_literal first avoids).bind

theorem atomOf_variable {sigil} (opens : isSigil sigil = true) (plain : ':' ∉ chars) :
    ∃ term, atomOf (String.ofList (sigil :: chars)) = .ok term := by
  have named : isVariableSymbol (String.ofList (sigil :: chars)) = true :=
    isVariableSymbol_iff.mpr ⟨sigil, chars, String.toList_ofList, opens⟩
  have colon : ':' ∉ sigil :: chars := by
    refine fun inside => (List.mem_cons.mp inside).elim (fun same => ?_) plain
    exact absurd (same ▸ opens) (by decide)
  unfold atomOf
  split
  · exact ⟨_, rfl⟩
  split
  · exact ⟨_, rfl⟩
  split
  · exact ⟨_, rfl⟩
  · rw [createAtom, String.toList_ofList, if_neg (by simpa using colon), named, Bool.true_or,
      if_pos rfl]
    exact ⟨_, rfl⟩

theorem misses_variable {sigil mark} (opens : isSigil sigil = true) (plain : ':' ∉ chars)
    (narrow : ∀ char, member char = true → operationChar char = true) (stops : Stops rest)
    (inside : mark ∉ chars) (outside : follows mark = false) :
    Misses (firstOf [stringLiteral, run1 member >>= atom]) (sigil :: chars ++ rest) mark := by
  have unquoted : Fails stringLiteral (sigil :: chars ++ rest) := by
    rcases isSigil_iff.mp opens with rfl | rfl | rfl | rfl | rfl <;> rfl
  by_cases read : member sigil = true
  · have stopped : Reads (run1 member : Rule (List Char)) (sigil :: chars ++ rest)
        (sigil :: chars.takeWhile member) (chars.dropWhile member ++ rest) := by
      rw [List.cons_append, ← takeWhile_append_of_avoids (stops.run narrow),
        ← dropWhile_append_of_avoids (stops.run narrow)]
      exact reads_run1_takeWhile read
    obtain ⟨term, built⟩ := atomOf_variable opens fun colon =>
      plain ((List.takeWhile_prefix member).subset colon)
    have atomRead : Reads (atom (sigil :: chars.takeWhile member))
        (chars.dropWhile member ++ rest) (some term) (chars.dropWhile member ++ rest) := by
      rw [atom, built]
      rfl
    refine Or.inr ⟨some term, _, unquoted.firstOf (stopped.bind atomRead).firstOf, ?_⟩
    cases left : chars.dropWhile member with
    | nil => exact stops.mark outside
    | cons char more =>
      refine avoids_cons.mpr (beq_eq_false_iff_ne.mpr ?_)
      rintro rfl
      exact inside ((List.dropWhile_suffix member).subset (left ▸ List.mem_cons_self))
  · have failed : Fails (run1 member : Rule (List Char)) (sigil :: chars ++ rest) :=
      fails_run1 (avoids_cons.mpr (by simpa using read))
    exact Or.inl (unquoted.firstOf_fails (failed.bind.firstOf_fails fails_firstOf_nil))

end Atomic

end Senars.Grammar
