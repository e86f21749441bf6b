/-
This file is about reading a MeTTa text, writing the atom, and reading what was written. Reading
keeps the sigil of a variable in its name and writing puts another one before it, so each trip
gives every variable one more sigil.

An atom is read back as it was exactly where the form it was read from names no variable.
-/

import Senars.Metta.Parser

namespace Senars.Metta

open Library Unify

/-! ### Writing -/

/-- `words.join(' ')`. -/
def joinWords : List String → String
  | [] => ""
  | [word] => word
  | word :: rest => word ++ " " ++ joinWords rest

mutual

/-- The text of an atom. -/
def atomToString : MettaAtom → String
  | .sym value => value
  | .varr name => "$" ++ name
  | .num value => numberToString value
  | .str value => "\"" ++ value ++ "\""
  | .expr operator args =>
    "(" ++ atomToString operator ++ " " ++ joinWords (argsToStrings args) ++ ")"
  | .grounded op _ => "\x7b" ++ op ++ "\x7d"

def argsToStrings : List MettaAtom → List String
  | [] => []
  | arg :: rest => atomToString arg :: argsToStrings rest

end

/-! ### The first form -/

/-- The tokens up to the one that closes all parentheses that are open. -/
def formFrom : ℕ → List String → List String
  | _, [] => []
  | depth, token :: rest =>
    if token = "(" then token :: formFrom (depth + 1) rest
    else
      let depth := if token = ")" then depth - 1 else depth
      if depth = 0 then [token] else token :: formFrom depth rest

/-- The first token, or all of them up to the one that closes it. -/
def firstForm (tokens : List String) : List String := formFrom 0 tokens

/-! ### Atoms that are read -/

mutual

/-- An atom that some form is read as. -/
def Readable : MettaAtom → Prop
  | .sym value => IsWord value ∧ startsVariable value = false ∧ numberOf value = .nan
  | .varr name => IsWord name ∧ startsVariable name = true
  | .num value => IsDouble value
  | .str _ => False
  | .expr operator args => Readable operator ∧ ReadableArgs args
  | .grounded _ _ => False

def ReadableArgs : List MettaAtom → Prop
  | [] => True
  | arg :: rest => Readable arg ∧ ReadableArgs rest

end

mutual

/-- An atom with a variable in it. -/
def hasVariable : MettaAtom → Bool
  | .varr _ => true
  | .expr operator args => hasVariable operator || haveVariable args
  | _ => false

def haveVariable : List MettaAtom → Bool
  | [] => false
  | arg :: rest => hasVariable arg || haveVariable rest

end

mutual

/-- The atom with one more sigil on each variable. -/
def resigil : MettaAtom → MettaAtom
  | .varr name => .varr ("$" ++ name)
  | .expr operator args => .expr (resigil operator) (resigilArgs args)
  | atom => atom

def resigilArgs : List MettaAtom → List MettaAtom
  | [] => []
  | arg :: rest => resigil arg :: resigilArgs rest

end

mutual

theorem resigil_eq_iff : ∀ atom : MettaAtom, resigil atom = atom ↔ hasVariable atom = false
  | .sym _ | .num _ | .str _ | .grounded _ _ => by simp [resigil, hasVariable]
  | .varr name => by
    have longer : "$" ++ name ≠ name := by
      intro same
      have length := congrArg String.length same
      rw [String.length_append] at length
      change 1 + name.length = name.length at length
      omega
    simp [resigil, hasVariable, longer]
  | .expr operator args => by
    simp [resigil, hasVariable, resigil_eq_iff operator, resigilArgs_eq_iff args]

theorem resigilArgs_eq_iff :
    ∀ args : List MettaAtom, resigilArgs args = args ↔ haveVariable args = false
  | [] => by simp [resigilArgs, haveVariable]
  | arg :: rest => by
    simp [resigilArgs, haveVariable, resigil_eq_iff arg, resigilArgs_eq_iff rest]

end

/-! ### What a form is read as -/

theorem readable_nil : Readable (.sym "Nil") :=
  ⟨isWord_of_all (by decide) (by decide), by decide, by decide +kernel⟩

variable {token : String}

theorem readable_parseWord (isWord : IsWord token) : Readable (parseWord token) := by
  unfold parseWord
  split_ifs with starts notNumber
  · exact ⟨isWord, starts⟩
  · exact ⟨isWord, eq_false_of_ne_true starts, of_decide_eq_true notNumber⟩
  · exact isDouble_numberOf fun isNan => notNumber (decide_eq_true isNan)

theorem hasVariable_parseWord (token : String) :
    hasVariable (parseWord token) = startsVariable token := by
  unfold parseWord
  split_ifs with starts notNumber
  · exact starts.symm
  · exact (eq_false_of_ne_true starts).symm
  · exact (eq_false_of_ne_true starts).symm

theorem IsWord.not_open (isWord : IsWord token) : token ≠ "(" := by
  rintro rfl
  exact absurd (isWord.2 '(' (by decide)) (by decide)

theorem IsWord.not_close (isWord : IsWord token) : token ≠ ")" := by
  rintro rfl
  exact absurd (isWord.2 ')' (by decide)) (by decide)

/-- What follows a form that was begun at some depth. -/
def formAfter (depth : ℕ) (tokens : List String) : List String :=
  if depth = 0 then [] else formFrom depth tokens

theorem formFrom_open (depth : ℕ) (tokens : List String) :
    formFrom depth ("(" :: tokens) = "(" :: formFrom (depth + 1) tokens := by
  rw [formFrom, if_pos rfl]

theorem formFrom_close (depth : ℕ) (tokens : List String) :
    formFrom (depth + 1) (")" :: tokens) = ")" :: formAfter depth tokens := by
  rw [formFrom, if_neg (by decide)]
  unfold formAfter
  dsimp only
  rw [if_pos rfl, Nat.add_sub_cancel]
  split <;> rfl

theorem formFrom_word (isWord : IsWord token) (depth : ℕ) (tokens : List String) :
    formFrom depth (token :: tokens) = token :: formAfter depth tokens := by
  rw [formFrom, if_neg isWord.not_open]
  unfold formAfter
  dsimp only
  rw [if_neg isWord.not_close]
  split <;> rfl

/-- Some tokens make up what was begun so many parentheses deeper, and hold a variable or not. -/
structure MakesUp (used : List String) (deeper : ℕ) (some : Bool) : Prop where
  form : ∀ depth more, formFrom (depth + deeper) (used ++ more) = used ++ formAfter depth more
  sigils : some = false ↔ ∀ token ∈ used, startsVariable token = false

theorem makesUp_word (isWord : IsWord token) :
    MakesUp [token] 0 (startsVariable token) where
  form depth more := formFrom_word isWord depth more
  sigils := by rw [List.forall_mem_singleton]

theorem makesUp_close : MakesUp [")"] 1 false where
  form depth more := formFrom_close depth more
  sigils := by decide

theorem MakesUp.open {used some} (makes : MakesUp used 1 some) :
    MakesUp ("(" :: used) 0 some where
  form depth more := by
    rw [List.cons_append, formFrom_open, makes.form, List.cons_append]
  sigils := by
    have plain : startsVariable "(" = false := by decide
    rw [List.forall_mem_cons, ← makes.sigils]
    exact (and_iff_right plain).symm

theorem MakesUp.append {first later some others} (makes : MakesUp first 0 some)
    (makesLater : MakesUp later 1 others) :
    MakesUp (first ++ later) 1 (some || others) where
  form depth more := by
    have goesOn : formAfter (depth + 1) (later ++ more) =
        formFrom (depth + 1) (later ++ more) := rfl
    have begins := makes.form (depth + 1) (later ++ more)
    rw [List.append_assoc, begins, goesOn, makesLater.form, List.append_assoc]
  sigils := by
    rw [Bool.or_eq_false_iff, List.forall_mem_append, makes.sigils, makesLater.sigils]

mutual

theorem Reads.readable : ∀ {tokens rest : List String} {atom : MettaAtom},
    Reads tokens atom rest → (∀ token ∈ tokens, IsToken token) → tokens.head? ≠ some ")" →
      Readable atom ∧ ∃ used, tokens = used ++ rest ∧ MakesUp used 0 (hasVariable atom)
  | _, _, _, @Reads.word token opens rest, areTokens, begins => by
    have isWord : IsWord token :=
      ((areTokens token List.mem_cons_self).resolve_left opens).resolve_left fun closes =>
        begins (congrArg some closes)
    refine ⟨readable_parseWord isWord, [token], rfl, ?_⟩
    rw [hasVariable_parseWord]
    exact makesUp_word isWord
  | _, _, _, @Reads.list tokens _ items reads, areTokens, _ => by
    obtain ⟨readable, used, rfl, makes⟩ := reads.readable (List.forall_mem_cons.mp areTokens).2
    refine ⟨?_, "(" :: used, rfl, ?_⟩
    · cases items with
      | nil => exact readable_nil
      | cons operator args => exact readable
    · cases items with
      | nil => exact makes.open
      | cons operator args => exact makes.open

theorem ReadsItems.readable : ∀ {tokens rest : List String} {items : List MettaAtom},
    ReadsItems tokens items rest → (∀ token ∈ tokens, IsToken token) →
      ReadableArgs items ∧ ∃ used, tokens = used ++ rest ∧ MakesUp used 1 (haveVariable items)
  | _, _, _, .close _, _ => ⟨trivial, [")"], rfl, makesUp_close⟩
  | _, _, _, .cons begins reads later, areTokens => by
    obtain ⟨readable, first, split, makes⟩ := reads.readable areTokens begins
    obtain ⟨readableLater, used, rfl, makesLater⟩ := later.readable fun other member =>
      areTokens other (split ▸ List.mem_append_right first member)
    refine ⟨⟨readable, readableLater⟩, first ++ used, ?_, makes.append makesLater⟩
    rw [split, List.append_assoc]

end

theorem readable_of_readForm {tokens rest : List String} {atom : MettaAtom}
    (areTokens : ∀ token ∈ tokens, IsToken token) (begins : tokens.head? ≠ some ")")
    (read : readForm tokens = .ok (atom, rest)) :
    Readable atom ∧ ∃ used, tokens = used ++ rest ∧ MakesUp used 0 (hasVariable atom) :=
  (reads_of_readForm read).readable areTokens begins

/-! ### Cutting what is written -/

mutual

/-- The tokens of what an atom is written as. -/
def tokensOf : MettaAtom → List String
  | .sym value => [value]
  | .varr name => ["$" ++ name]
  | .num value => [numberToString value]
  | .expr operator args => "(" :: (tokensOf operator ++ (tokensOfArgs args ++ [")"]))
  | _ => []

def tokensOfArgs : List MettaAtom → List String
  | [] => []
  | arg :: rest => tokensOf arg ++ tokensOfArgs rest

end

/-- A text that begins with no character of a word. -/
def Ends (text : List Char) : Prop := ∀ char ∈ text.head?, endsWord char = true

theorem tokenizeFrom_space (word rest : List Char) :
    tokenizeFrom word (' ' :: rest) = pushWord word (tokenizeFrom [] rest) := by
  rw [tokenizeFrom, if_pos (by decide)]

theorem tokenizeFrom_open (rest : List Char) :
    tokenizeFrom [] ('(' :: rest) = "(" :: tokenizeFrom [] rest := by
  rfl

theorem tokenizeFrom_close (rest : List Char) :
    tokenizeFrom [] (')' :: rest) = ")" :: tokenizeFrom [] rest := by
  rfl

theorem tokenizeFrom_append {chars} (plain : ∀ char ∈ chars, endsWord char = false)
    (word rest : List Char) :
    tokenizeFrom word (chars ++ rest) = tokenizeFrom (word ++ chars) rest := by
  induction chars generalizing word with
  | nil => rw [List.append_nil, List.nil_append]
  | cons char others ih =>
    obtain ⟨isPlain, others⟩ := List.forall_mem_cons.mp plain
    simp only [endsWord, Bool.or_eq_false_iff, decide_eq_false_iff_not] at isPlain
    obtain ⟨⟨notSpace, notOpen⟩, notClose⟩ := isPlain
    rw [List.cons_append, tokenizeFrom, if_neg (by rw [notSpace]; exact Bool.false_ne_true),
      if_neg (not_or.mpr ⟨notOpen, notClose⟩), ih others, List.append_assoc]
    rfl

theorem tokenizeFrom_ends {rest} (ends : Ends rest) (word : List Char) :
    tokenizeFrom word rest = pushWord word (tokenizeFrom [] rest) := by
  cases rest with
  | nil => rfl
  | cons char others =>
    have ending := ends char rfl
    simp only [endsWord, Bool.or_eq_true, decide_eq_true_eq, or_assoc] at ending
    unfold tokenizeFrom
    split_ifs with space
    · rfl
    · rfl
    · rcases ending with isSpace | isParen
      · exact absurd isSpace space
      · exact absurd isParen ‹_›

theorem tokenizeFrom_word {word} (isWord : IsWord word) {rest} (ends : Ends rest) :
    tokenizeFrom [] (word.toList ++ rest) = word :: tokenizeFrom [] rest := by
  rw [tokenizeFrom_append isWord.2, tokenizeFrom_ends ends, List.nil_append, pushWord,
    if_neg isWord.1, String.ofList_toList]

theorem isWord_numberToString {number} (double : IsDouble number) :
    IsWord (numberToString number) ∧ startsVariable (numberToString number) = false := by
  have isNumber : number ≠ .nan := by
    rintro rfl
    exact double
  obtain ⟨nonempty, chars⟩ := numberToString_chars isNumber
  have plain : ∀ char, isNumberChar char = true → endsWord char = false ∧ char ≠ '$' := by
    intro char written
    have notTrimmed : isTrimmed char = false := isTrimmed_of_isNumberChar written
    have notOpen : char ≠ '(' := by
      rintro rfl
      exact absurd written (by decide)
    have notClose : char ≠ ')' := by
      rintro rfl
      exact absurd written (by decide)
    have notSigil : char ≠ '$' := by
      rintro rfl
      exact absurd written (by decide)
    exact ⟨by simp [endsWord, notTrimmed, notOpen, notClose], notSigil⟩
  refine ⟨⟨nonempty, fun char member => (plain char (chars char member)).1⟩, ?_⟩
  unfold startsVariable
  cases text : (numberToString number).toList with
  | nil => exact absurd text nonempty
  | cons first rest =>
    have isFirst : first ∈ (numberToString number).toList := text ▸ List.mem_cons_self
    have notSigil := (plain first (chars first isFirst)).2
    simpa using notSigil

theorem isWord_sigil {name} (isWord : IsWord name) : IsWord ("$" ++ name) := by
  obtain ⟨nonempty, plain⟩ : IsWord "$" := isWord_of_all (by decide) (by decide)
  refine ⟨?_, ?_⟩ <;> rw [String.toList_append]
  · exact List.append_ne_nil_of_left_ne_nil nonempty _
  · exact List.forall_mem_append.mpr ⟨plain, isWord.2⟩

mutual

theorem tokenizeFrom_atomToString : ∀ {atom : MettaAtom}, Readable atom → ∀ {rest : List Char},
    Ends rest → tokenizeFrom [] ((atomToString atom).toList ++ rest) =
      tokensOf atom ++ tokenizeFrom [] rest
  | .sym _, readable, _, ends => tokenizeFrom_word readable.1 ends
  | .varr _, readable, _, ends => tokenizeFrom_word (isWord_sigil readable.1) ends
  | .num _, readable, _, ends => tokenizeFrom_word (isWord_numberToString readable).1 ends
  | .expr operator args, ⟨isOperator, areArgs⟩, rest, ends => by
    have text : (atomToString (.expr operator args)).toList ++ rest =
        '(' :: ((atomToString operator).toList ++
          (' ' :: ((joinWords (argsToStrings args)).toList ++ (')' :: rest)))) := by
      simp [atomToString]
    have space : Ends (' ' :: ((joinWords (argsToStrings args)).toList ++ (')' :: rest))) := by
      rintro char ⟨⟩
      rfl
    rw [text, tokenizeFrom_open, tokenizeFrom_atomToString isOperator space, tokenizeFrom_space,
      pushWord, if_pos rfl, tokenizeFrom_argsToStrings areArgs, tokensOf]
    simp

theorem tokenizeFrom_argsToStrings : ∀ {args : List MettaAtom}, ReadableArgs args →
    ∀ {rest : List Char}, tokenizeFrom []
        ((joinWords (argsToStrings args)).toList ++ (')' :: rest)) =
      tokensOfArgs args ++ (")" :: tokenizeFrom [] rest)
  | [], _, rest => tokenizeFrom_close rest
  | [arg], ⟨isArg, _⟩, rest => by
    have close : Ends (')' :: rest) := by
      rintro char ⟨⟩
      rfl
    rw [argsToStrings, argsToStrings, joinWords, tokenizeFrom_atomToString isArg close,
      tokenizeFrom_close, tokensOfArgs, tokensOfArgs, List.append_nil]
  | arg :: next :: others, ⟨isArg, areOthers⟩, rest => by
    have text : (joinWords (argsToStrings (arg :: next :: others))).toList ++ (')' :: rest) =
        (atomToString arg).toList ++
          (' ' :: ((joinWords (argsToStrings (next :: others))).toList ++ (')' :: rest))) := by
      simp [argsToStrings, joinWords]
    have space : Ends (' ' ::
        ((joinWords (argsToStrings (next :: others))).toList ++ (')' :: rest))) := by
      rintro char ⟨⟩
      rfl
    rw [text, tokenizeFrom_atomToString isArg space, tokenizeFrom_space, pushWord, if_pos rfl,
      tokenizeFrom_argsToStrings areOthers, ← List.append_assoc]
    rfl

end

/-! ### Reading the tokens again -/

theorem exists_tokensOf_eq_cons {atom} (readable : Readable atom) :
    ∃ token rest, tokensOf atom = token :: rest ∧ token ≠ ")" := by
  cases atom with
  | sym value => exact ⟨value, [], rfl, readable.1.not_close⟩
  | varr name => exact ⟨"$" ++ name, [], rfl, (isWord_sigil readable.1).not_close⟩
  | num value => exact ⟨numberToString value, [], rfl, (isWord_numberToString readable).1.not_close⟩
  | str value => exact absurd readable id
  | expr operator args => exact ⟨"(", _, rfl, by decide⟩
  | grounded op value => exact absurd readable id

mutual

theorem readForm_tokensOf : ∀ {atom : MettaAtom}, Readable atom → ∀ rest : List String,
    readForm (tokensOf atom ++ rest) = .ok (resigil atom, rest)
  | .sym value, ⟨isWord, plain, notNumber⟩, rest => by
    have word : parseWord value = .sym value := by
      rw [parseWord, plain, notNumber]
      rfl
    exact (readForm_word isWord.not_open rest).trans (by rw [word]; rfl)
  | .varr name, ⟨isWord, _⟩, rest => by
    have word : parseWord ("$" ++ name) = .varr ("$" ++ name) := by
      have starts : startsVariable ("$" ++ name) = true := by
        rw [startsVariable, String.toList_append]
        rfl
      rw [parseWord, starts]
      rfl
    exact (readForm_word (isWord_sigil isWord).not_open rest).trans (by rw [word]; rfl)
  | .num value, double, rest => by
    obtain ⟨isWord, plain⟩ := isWord_numberToString double
    have notNan : value.isNaN = false := by
      cases value with
      | nan => exact absurd double id
      | infinite negative => rfl
      | finite number => rfl
    have word : parseWord (numberToString value) = .num value := by
      rw [parseWord, plain, numberOf_numberToString double, notNan]
      rfl
    exact (readForm_word isWord.not_open rest).trans (by rw [word]; rfl)
  | .expr operator args, ⟨isOperator, areArgs⟩, rest => by
    obtain ⟨token, later, tokens, opens⟩ := exists_tokensOf_eq_cons isOperator
    have items : readItems (tokensOf operator ++ (tokensOfArgs args ++ (")" :: rest))) =
        .ok (resigil operator :: resigilArgs args, rest) := by
      have first := readForm_tokensOf isOperator (tokensOfArgs args ++ (")" :: rest))
      rw [tokens, List.cons_append] at first ⊢
      rw [readItems_cons opens, first]
      show (readItems (tokensOfArgs args ++ (")" :: rest))).map _ = _
      rw [readItems_tokensOfArgs areArgs]
      rfl
    have text : tokensOf (.expr operator args) ++ rest =
        "(" :: (tokensOf operator ++ (tokensOfArgs args ++ (")" :: rest))) := by
      simp [tokensOf]
    rw [text, readForm_open, items]
    rfl

theorem readItems_tokensOfArgs : ∀ {args : List MettaAtom}, ReadableArgs args →
    ∀ rest : List String,
      readItems (tokensOfArgs args ++ (")" :: rest)) = .ok (resigilArgs args, rest)
  | [], _, rest => readItems_close rest
  | arg :: others, ⟨isArg, areOthers⟩, rest => by
    obtain ⟨token, later, tokens, opens⟩ := exists_tokensOf_eq_cons isArg
    have first := readForm_tokensOf isArg (tokensOfArgs others ++ (")" :: rest))
    rw [tokensOfArgs, List.append_assoc]
    rw [tokens, List.cons_append] at first ⊢
    rw [readItems_cons opens, first]
    show (readItems (tokensOfArgs others ++ (")" :: rest))).map _ = _
    rw [readItems_tokensOfArgs areOthers]
    rfl

end

theorem parseMeTTa_atomToString {atom} (readable : Readable atom) :
    parseMeTTa (atomToString atom) = .ok (resigil atom) := by
  have nothing : Ends [] := by rintro _ ⟨⟩
  have tokens := tokenizeFrom_atomToString readable nothing
  rw [List.append_nil] at tokens
  have read : readForm (tokenize (atomToString atom)) = .ok (resigil atom, []) := by
    rw [tokenize, tokens]
    exact readForm_tokensOf readable []
  exact parseMeTTa_of_readForm read

/-! ### The round trip -/

/-- An accepted text is read, written and read as the same atom exactly where no token of its first
form begins with the sigil of a variable. -/
theorem round_trip_iff {input : String} {atom : MettaAtom}
    (accepted : parseMeTTa input = .ok atom) :
    parseMeTTa (atomToString atom) = .ok atom ↔
      ∀ token ∈ firstForm (tokenize input), startsVariable token = false := by
  obtain ⟨rest, read⟩ := exists_readForm accepted
  by_cases closes : (tokenize input).head? = some ")"
  · -- A parenthesis that closes nothing is read as a symbol.
    obtain ⟨later, tokens⟩ := List.head?_eq_some_iff.mp closes
    rw [tokens, readForm_word (by decide)] at read
    cases read
    have form : firstForm (tokenize input) = [")"] := by
      rw [tokens]
      rfl
    rw [form]
    have notNumber : numberOf ")" = .nan := by decide +kernel
    have symbol : parseWord ")" = .sym ")" := by
      rw [parseWord, notNumber]
      rfl
    have again : parseMeTTa (atomToString (parseWord ")")) = .ok (parseWord ")") := by
      have tokens : tokenize ")" = [")"] := by decide
      have read : readForm (tokenize ")") = .ok (.sym ")", []) := by
        rw [tokens, readForm_word (by decide), symbol]
      rw [symbol]
      exact parseMeTTa_of_readForm read
    have plain : ∀ token ∈ [")"], startsVariable token = false := by decide
    exact iff_of_true again plain
  · obtain ⟨readable, used, split, makes⟩ :=
      readable_of_readForm (fun token => isToken_of_mem_tokenize) closes read
    have form : firstForm (tokenize input) = used := by
      rw [firstForm, split]
      exact (makes.form 0 rest).trans (List.append_nil used)
    rw [parseMeTTa_atomToString readable, form, ← makes.sigils, ← resigil_eq_iff, Except.ok.injEq]

/-- The form `(a 1)` names no variable, and is read back as it was. -/
theorem round_trip_iff_expression :
    parseMeTTa "(a 1)" = .ok (.expr (.sym "a") [.num 1]) ∧
      (parseMeTTa (atomToString (.expr (.sym "a") [.num 1])) =
          .ok (.expr (.sym "a") [.num 1]) ↔
        ∀ token ∈ firstForm (tokenize "(a 1)"), startsVariable token = false) := by
  have tokens : tokenize "(a 1)" = ["(", "a", "1", ")"] := by decide
  have notNumber : numberOf "a" = .nan := by decide +kernel
  have isOne : numberOf "1" = 1 := by decide +kernel
  have symbol : parseWord "a" = .sym "a" := by
    rw [parseWord, notNumber]
    rfl
  have one : parseWord "1" = .num 1 := by
    rw [parseWord, isOne]
    rfl
  have read : readForm (tokenize "(a 1)") = .ok (.expr (.sym "a") [.num 1], []) := by
    rw [tokens, readForm_open, readItems_cons (by decide), readForm_word (by decide), symbol]
    simp [readItems_cons, readForm_word, one, readItems_close, Except.map, Except.bind, ofItems]
  exact ⟨parseMeTTa_of_readForm read, round_trip_iff (parseMeTTa_of_readForm read)⟩

/-- The variable `$x` keeps its sigil when it is read, is written as `$$x`, and keeps both when
that is read. -/
theorem sigil_added : ¬ ∀ input atom, parseMeTTa input = .ok atom →
    parseMeTTa (atomToString atom) = .ok atom := by
  intro trips
  have tokens : tokenize "$x" = ["$x"] := by decide
  have read : readForm (tokenize "$x") = .ok (.varr "$x", []) := by
    rw [tokens, readForm_word (by decide)]
    rfl
  have again := trips "$x" (.varr "$x") (parseMeTTa_of_readForm read)
  have readable : Readable (.varr "$x") := ⟨isWord_of_all (by decide) (by decide), by decide⟩
  rw [parseMeTTa_atomToString readable, Except.ok.injEq, resigil_eq_iff] at again
  cases again

end Senars.Metta
