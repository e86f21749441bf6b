/-
This file is the reader of MeTTa: a text is cut into tokens, and the first form of the tokens is
read as an atom. What comes after it is not read.

A word that is read as an atom is a word of the text: a variable keeps its sigil, a number is a
double, and a symbol is neither.
-/

import Senars.Library.NumberWriting
import Senars.Unify.MettaAtom

namespace Senars.Metta

open Library Unify

/-! ### Tokens -/

/-- A character that ends a word. -/
def endsWord (char : Char) : Bool := isTrimmed char || char = '(' || char = ')'

/-- Put a word before the tokens that follow it. -/
def pushWord (word : List Char) (tokens : List String) : List String :=
  if word = [] then tokens else String.ofList word :: tokens

/-- Cut the rest of a text, of which a word is being read. -/
def tokenizeFrom (word : List Char) : List Char → List String
  | [] => pushWord word []
  | char :: rest =>
    if isTrimmed char then pushWord word (tokenizeFrom [] rest)
    else if char = '(' ∨ char = ')' then
      pushWord word (String.singleton char :: tokenizeFrom [] rest)
    else tokenizeFrom (word ++ [char]) rest

def tokenize (input : String) : List String := tokenizeFrom [] input.toList

/-- A token that begins with the sigil of a variable. -/
def startsVariable (token : String) : Bool := token.toList.head? == some '$'

/-! ### Reading -/

inductive MeTTaReason where
  | unexpectedToken | unmatchedParen
  deriving DecidableEq

structure MeTTaError where
  reason : MeTTaReason
  message : String
  deriving DecidableEq

/-- What is left of some tokens, which is less. -/
abbrev Left (tokens : List String) := { rest : List String // rest.length < tokens.length }

/-- The atom of a token that is no parenthesis. -/
def parseWord (token : String) : MettaAtom :=
  if startsVariable token then .varr token
  else if (numberOf token).isNaN then .sym token else .num (numberOf token)

mutual

/-- Read one form. -/
def parseTokens (tokens : List String) : Except MeTTaError (MettaAtom × Left tokens) :=
  match tokens with
  | [] => .error ⟨.unexpectedToken, "Unexpected end of input"⟩
  | token :: rest =>
    if token = "(" then
      match parseItems rest with
      | .error error => .error error
      | .ok ([], left) => .ok (.sym "Nil", ⟨left.1, Nat.lt_succ_of_lt left.2⟩)
      | .ok (operator :: args, left) =>
        .ok (.expr operator args, ⟨left.1, Nat.lt_succ_of_lt left.2⟩)
    else .ok (parseWord token, ⟨rest, Nat.lt_succ_self _⟩)
  termination_by (tokens.length, 0)

/-- Read forms until a parenthesis closes them. -/
def parseItems (tokens : List String) : Except MeTTaError (List MettaAtom × Left tokens) :=
  match tokens with
  | [] => .error ⟨.unmatchedParen, "Unmatched opening paren"⟩
  | token :: rest =>
    if token = ")" then .ok ([], ⟨rest, Nat.lt_succ_self _⟩)
    else
      match parseTokens (token :: rest) with
      | .error error => .error error
      | .ok (item, left) =>
        match parseItems left.1 with
        | .error error => .error error
        | .ok (items, last) => .ok (item :: items, ⟨last.1, last.2.trans left.2⟩)
  termination_by (tokens.length, 1)
  decreasing_by
  · exact Prod.Lex.right _ (by decide)
  · exact Prod.Lex.left _ _ left.2

end

def parseMeTTa (input : String) : Except MeTTaError MettaAtom :=
  match tokenize input with
  | [] => .error ⟨.unexpectedToken, "Empty input"⟩
  | token :: rest => (parseTokens (token :: rest)).map Prod.fst

/-! ### What is read, and what is left -/

/-- The first form and the tokens after it. -/
def readForm (tokens : List String) : Except MeTTaError (MettaAtom × List String) :=
  (parseTokens tokens).map fun output => (output.1, output.2.1)

/-- The forms before the parenthesis that closes them, and the tokens after it. -/
def readItems (tokens : List String) : Except MeTTaError (List MettaAtom × List String) :=
  (parseItems tokens).map fun output => (output.1, output.2.1)

/-- The atom of some forms in parentheses. -/
def ofItems : List MettaAtom → MettaAtom
  | [] => .sym "Nil"
  | operator :: args => .expr operator args

theorem readForm_nil : readForm [] = .error ⟨.unexpectedToken, "Unexpected end of input"⟩ := by
  rw [readForm, parseTokens]
  rfl

theorem readForm_open (rest : List String) :
    readForm ("(" :: rest) = (readItems rest).map fun output => (ofItems output.1, output.2) := by
  rw [readForm, parseTokens, if_pos rfl, readItems]
  split
  · next error failed =>
    rw [failed]
    rfl
  · next left read =>
    rw [read]
    rfl
  · next operator args left read =>
    rw [read]
    rfl

theorem readForm_word {token} (isWord : token ≠ "(") (rest : List String) :
    readForm (token :: rest) = .ok (parseWord token, rest) := by 
  rw [readForm, parseTokens, if_neg isWord]
  rfl

theorem readItems_nil : readItems [] = .error ⟨.unmatchedParen, "Unmatched opening paren"⟩ := by
  rw [readItems, parseItems]
  rfl

theorem readItems_close (rest : List String) : readItems (")" :: rest) = .ok ([], rest) := by
  rw [readItems, parseItems]
  rfl

theorem readItems_cons {token : String} (opens : token ≠ ")") (rest : List String) :
    readItems (token :: rest) = (readForm (token :: rest)).bind fun first =>
      (readItems first.2).map fun later => (first.1 :: later.1, later.2) := by
  rw [readItems, parseItems, if_neg opens, readForm]
  split
  · next error failed =>
    rw [failed]
    rfl
  · next item left read =>
    rw [read]
    show _ = (readItems left.1).map _
    rw [readItems]
    split
    · next error failed =>
      rw [failed]
      rfl
    · next items last readLater =>
      rw [readLater]
      rfl

theorem length_of_readForm {tokens rest atom} (read : readForm tokens = .ok (atom, rest)) :
    rest.length < tokens.length := by
  unfold readForm at read
  cases parsed : parseTokens tokens with
  | error error =>
    rw [parsed] at read
    cases read
  | ok output =>
    rw [parsed] at read
    cases read
    exact output.2.2

mutual

/-- How a form is read from some tokens: its atom, and the tokens that are left. -/
inductive Reads : List String → MettaAtom → List String → Prop
  | word {token : String} (isWord : token ≠ "(") (rest : List String) :
      Reads (token :: rest) (parseWord token) rest
  | list {tokens rest : List String} {items : List MettaAtom}
      (reads : ReadsItems tokens items rest) : Reads ("(" :: tokens) (ofItems items) rest

/-- How forms are read up to the parenthesis that closes them. -/
inductive ReadsItems : List String → List MettaAtom → List String → Prop
  | close (rest : List String) : ReadsItems (")" :: rest) [] rest
  | cons {tokens left rest : List String} {item : MettaAtom} {items : List MettaAtom}
      (begins : tokens.head? ≠ some ")") (reads : Reads tokens item left)
      (later : ReadsItems left items rest) : ReadsItems tokens (item :: items) rest

end

mutual

theorem reads_of_readForm {tokens rest atom} (read : readForm tokens = .ok (atom, rest)) :
    Reads tokens atom rest := by
  match tokens, read with
  | [], read =>
    rw [readForm_nil] at read
    cases read
  | token :: later, read =>
    by_cases opens : token = "("
    · subst opens
      rw [readForm_open] at read
      cases readLater : readItems later with
      | error error =>
        rw [readLater] at read
        cases read
      | ok output =>
        rw [readLater] at read
        cases read
        exact .list (reads_of_readItems readLater)
    · rw [readForm_word opens] at read
      cases read
      exact .word opens _
  termination_by (tokens.length, 0)

theorem reads_of_readItems {tokens rest items} (read : readItems tokens = .ok (items, rest)) :
    ReadsItems tokens items rest := by
  match tokens, read with
  | [], read =>
    rw [readItems_nil] at read
    cases read
  | token :: later, read =>
    by_cases closes : token = ")"
    · subst closes
      rw [readItems_close] at read
      cases read
      exact .close _
    · rw [readItems_cons closes] at read
      cases readFirst : readForm (token :: later) with
      | error error =>
        rw [readFirst] at read
        cases read
      | ok output =>
        obtain ⟨item, left⟩ := output
        rw [readFirst] at read
        change (readItems left).map _ = _ at read
        cases readLater : readItems left with
        | error error =>
          rw [readLater] at read
          cases read
        | ok output =>
          rw [readLater] at read
          cases read
          have shorter := length_of_readForm readFirst
          exact .cons (fun same => closes (Option.some.inj same)) (reads_of_readForm readFirst)
            (reads_of_readItems readLater)
  termination_by (tokens.length, 1)
  decreasing_by
  · exact Prod.Lex.right _ (by decide)
  · exact Prod.Lex.left _ _ shorter

end

theorem parseMeTTa_of_readForm {input atom rest}
    (read : readForm (tokenize input) = .ok (atom, rest)) : parseMeTTa input = .ok atom := by
  unfold parseMeTTa
  generalize tokenize input = tokens at read
  cases tokens with
  | nil =>
    rw [readForm_nil] at read
    cases read
  | cons token later =>
    unfold readForm at read
    dsimp only
    cases parsed : parseTokens (token :: later) with
    | error error =>
      rw [parsed] at read
      cases read
    | ok output =>
      rw [parsed] at read
      cases read
      rfl

theorem exists_readForm {input atom} (accepted : parseMeTTa input = .ok atom) :
    ∃ rest, readForm (tokenize input) = .ok (atom, rest) := by
  unfold parseMeTTa at accepted
  generalize tokenize input = tokens at accepted
  cases tokens with
  | nil => cases accepted
  | cons token later =>
    unfold readForm
    dsimp only at accepted
    cases parsed : parseTokens (token :: later) with
    | error error =>
      rw [parsed] at accepted
      cases accepted
    | ok output =>
      rw [parsed] at accepted
      cases accepted
      exact ⟨output.2.1, rfl⟩

/-! ### Tokens of a text -/

/-- A word, which no character of it ends. -/
def IsWord (token : String) : Prop :=
  token.toList ≠ [] ∧ ∀ char ∈ token.toList, endsWord char = false

theorem isWord_of_all {token} (nonempty : token.toList ≠ [])
    (plain : token.toList.all (!endsWord ·) = true) : IsWord token :=
  ⟨nonempty, fun char member => by simpa using List.all_eq_true.mp plain char member⟩

def IsToken (token : String) : Prop := token = "(" ∨ token = ")" ∨ IsWord token

theorem mem_pushWord {word tokens} (plain : ∀ char ∈ word, endsWord char = false)
    (later : ∀ token ∈ tokens, IsToken token) : ∀ token ∈ pushWord word tokens, IsToken token := by
  unfold pushWord
  split
  · exact later
  · next some =>
    refine List.forall_mem_cons.mpr ⟨.inr (.inr ⟨?_, ?_⟩), later⟩
    · rwa [String.toList_ofList]
    · rwa [String.toList_ofList]

theorem isToken_of_mem_tokenizeFrom {word rest} (plain : ∀ char ∈ word, endsWord char = false) :
    ∀ token ∈ tokenizeFrom word rest, IsToken token := by
  induction rest generalizing word with
  | nil => exact mem_pushWord plain (List.forall_mem_nil _)
  | cons char rest ih =>
    have starts : ∀ token ∈ tokenizeFrom [] rest, IsToken token :=
      ih (List.forall_mem_nil _)
    unfold tokenizeFrom
    split_ifs with space paren
    · exact mem_pushWord plain starts
    · refine mem_pushWord plain (List.forall_mem_cons.mpr ⟨?_, starts⟩)
      rcases paren with rfl | rfl
      · exact .inl rfl
      · exact .inr (.inl rfl)
    · refine ih fun other member => ?_
      rcases List.mem_append.mp member with before | now
      · exact plain other before
      · rw [List.mem_singleton.mp now]
        rw [not_or] at paren
        simp [endsWord, space, paren.1, paren.2]

theorem isToken_of_mem_tokenize {input token} (member : token ∈ tokenize input) : IsToken token :=
  isToken_of_mem_tokenizeFrom (List.forall_mem_nil _) token member

end Senars.Metta
