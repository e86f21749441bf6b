/-
This file is about the texts that the reader of MeTTa accepts, against the language of one
s-expression: a word, or s-expressions in parentheses.

Every s-expression is accepted and every text that is refused is none. What is accepted is one
exactly where it does not begin with a parenthesis that closes nothing, which is read as a symbol,
and nothing comes after its first form, which is all that is read.
-/

import Senars.Metta.RoundTrip

namespace Senars.Metta

open Library Unify

/-! ### The language -/

/-- The tokens of one s-expression. -/
inductive SExpression : List String → Prop
  | word {token : String} (opens : token ≠ "(") (closes : token ≠ ")") : SExpression [token]
  | list {forms : List (List String)} (each : ∀ form ∈ forms, SExpression form) :
      SExpression ("(" :: (forms.flatten ++ [")"]))

/-- A text is accepted where its tokens are one s-expression, and refused where they are not. -/
def AcceptsExactly (input : String) : Prop :=
  (SExpression (tokenize input) ∧ ∃ atom, parseMeTTa input = .ok atom) ∨
    (¬ SExpression (tokenize input) ∧ ∃ error, parseMeTTa input = .error error)

theorem SExpression.begins {tokens} (form : SExpression tokens) :
    ∃ token later, tokens = token :: later ∧ token ≠ ")" := by
  cases form with
  | word opens closes => exact ⟨_, [], rfl, closes⟩
  | list each => exact ⟨"(", _, rfl, by decide⟩

/-! ### What is an s-expression is read -/

theorem readItems_of_forms {forms : List (List String)}
    (each : ∀ form ∈ forms, ∀ rest, ∃ atom, readForm (form ++ rest) = .ok (atom, rest))
    (begins : ∀ form ∈ forms, ∃ token later, form = token :: later ∧ token ≠ ")")
    (rest : List String) :
    ∃ items, readItems (forms.flatten ++ ")" :: rest) = .ok (items, rest) := by
  induction forms with
  | nil => exact ⟨[], readItems_close rest⟩
  | cons form others ih =>
    obtain ⟨readFirst, readOthers⟩ := List.forall_mem_cons.mp each
    obtain ⟨beginsFirst, beginsOthers⟩ := List.forall_mem_cons.mp begins
    obtain ⟨items, later⟩ := ih readOthers beginsOthers
    obtain ⟨atom, first⟩ := readFirst (others.flatten ++ ")" :: rest)
    obtain ⟨token, more, rfl, notClosing⟩ := beginsFirst
    refine ⟨atom :: items, ?_⟩
    rw [List.flatten_cons, List.append_assoc, List.cons_append, readItems_cons notClosing,
      ← List.cons_append, first]
    show (readItems (others.flatten ++ ")" :: rest)).map _ = _
    rw [later]
    rfl

theorem SExpression.readForm {tokens} (form : SExpression tokens) :
    ∀ rest, ∃ atom, readForm (tokens ++ rest) = .ok (atom, rest) := by
  induction form with
  | word opens closes => exact fun rest => ⟨_, readForm_word opens rest⟩
  | @list forms each ih =>
    intro rest
    obtain ⟨items, read⟩ :=
      readItems_of_forms ih (fun form isForm => (each form isForm).begins) rest
    refine ⟨ofItems items, ?_⟩
    rw [List.cons_append, List.append_assoc, List.singleton_append, readForm_open, read]
    rfl

/-! ### What is read is an s-expression -/

mutual

theorem Reads.sExpression : ∀ {tokens rest : List String} {atom : MettaAtom},
    Reads tokens atom rest → tokens.head? ≠ some ")" →
      ∃ used, SExpression used ∧ tokens = used ++ rest
  | _, _, _, @Reads.word token opens rest, begins =>
    ⟨[token], .word opens fun closes => begins (congrArg some closes), rfl⟩
  | _, _, _, .list reads, _ => by
    obtain ⟨forms, each, rfl⟩ := reads.sExpressions
    refine ⟨"(" :: (forms.flatten ++ [")"]), .list each, ?_⟩
    rw [List.cons_append, List.append_assoc, List.singleton_append]

theorem ReadsItems.sExpressions : ∀ {tokens rest : List String} {items : List MettaAtom},
    ReadsItems tokens items rest →
      ∃ forms : List (List String), (∀ form ∈ forms, SExpression form) ∧
        tokens = forms.flatten ++ ")" :: rest
  | _, _, _, .close _ => ⟨[], List.forall_mem_nil _, rfl⟩
  | _, _, _, .cons begins reads later => by
    obtain ⟨first, isForm, split⟩ := reads.sExpression begins
    obtain ⟨forms, each, same⟩ := later.sExpressions
    refine ⟨first :: forms, List.forall_mem_cons.mpr ⟨isForm, each⟩, ?_⟩
    rw [split, same, List.flatten_cons, List.append_assoc]

end

/-! ### What is refused -/

mutual

theorem formFrom_of_refused {tokens error} (areTokens : ∀ token ∈ tokens, IsToken token)
    (refused : readForm tokens = .error error) (depth : ℕ) : formFrom depth tokens = tokens := by
  match tokens, areTokens, refused with
  | [], _, _ => cases depth <;> rfl
  | token :: later, areTokens, refused =>
    by_cases opens : token = "("
    · subst opens
      rw [readForm_open] at refused
      cases readLater : readItems later with
      | error error =>
        rw [formFrom_open, formFrom_of_itemsRefused (List.forall_mem_cons.mp areTokens).2 readLater]
      | ok output =>
        rw [readLater] at refused
        cases refused
    · rw [readForm_word opens] at refused
      cases refused
  termination_by (tokens.length, 0)

theorem formFrom_of_itemsRefused {tokens error} (areTokens : ∀ token ∈ tokens, IsToken token)
    (refused : readItems tokens = .error error) (depth : ℕ) :
    formFrom (depth + 1) tokens = tokens := by
  match tokens, areTokens, refused with
  | [], _, _ => rfl
  | token :: later, areTokens, refused =>
    by_cases closes : token = ")"
    · rw [closes, readItems_close] at refused
      cases refused
    · rw [readItems_cons closes] at refused
      cases readFirst : readForm (token :: later) with
      | error error => exact formFrom_of_refused areTokens readFirst (depth + 1)
      | ok output =>
        obtain ⟨item, left⟩ := output
        rw [readFirst] at refused
        change (readItems left).map _ = _ at refused
        cases readLater : readItems left with
        | ok output =>
          rw [readLater] at refused
          cases refused
        | error error =>
          have shorter := length_of_readForm readFirst
          have begins : (token :: later).head? ≠ some ")" := fun same =>
            closes (Option.some.inj same)
          obtain ⟨-, first, split, makes⟩ := readable_of_readForm areTokens begins readFirst
          have areLeft : ∀ token ∈ left, IsToken token := fun other member =>
            areTokens other (split ▸ List.mem_append_right first member)
          have goesOn : formAfter (depth + 1) left = formFrom (depth + 1) left := rfl
          rw [split]
          refine (makes.form (depth + 1) left).trans ?_
          rw [goesOn, formFrom_of_itemsRefused areLeft readLater]
  termination_by (tokens.length, 1)
  decreasing_by
  · exact Prod.Lex.right _ (by decide)
  · exact Prod.Lex.left _ _ shorter

end

/-! ### The texts that are told apart -/

theorem sExpression_iff_of_readForm {tokens rest atom}
    (areTokens : ∀ token ∈ tokens, IsToken token) (read : readForm tokens = .ok (atom, rest)) :
    SExpression tokens ↔ tokens.head? ≠ some ")" ∧ firstForm tokens = tokens := by
  constructor
  · intro form
    obtain ⟨token, later, rfl, notClosing⟩ := form.begins
    have begins : (token :: later).head? ≠ some ")" := fun same =>
      notClosing (Option.some.inj same)
    obtain ⟨-, used, split, makes⟩ := readable_of_readForm areTokens begins read
    obtain ⟨other, readAll⟩ := form.readForm []
    rw [List.append_nil, read] at readAll
    cases readAll
    rw [List.append_nil] at split
    have all := makes.form 0 []
    rw [List.append_nil, ← split] at all
    exact ⟨begins, all.trans (List.append_nil _)⟩
  · rintro ⟨begins, whole⟩
    obtain ⟨-, used, split, makes⟩ := readable_of_readForm areTokens begins read
    obtain ⟨form, isForm, same⟩ := (reads_of_readForm read).sExpression begins
    obtain rfl : used = form := List.append_cancel_right (split.symm.trans same)
    have first : firstForm tokens = used := by
      rw [split]
      exact (makes.form 0 rest).trans (List.append_nil used)
    rwa [← whole, first]

/-- A text is accepted where it is one s-expression and refused where it is none exactly where it
does not begin with a parenthesis that closes nothing and its first form is all of it, closed or
not. -/
theorem acceptsExactly_iff (input : String) :
    AcceptsExactly input ↔
      (tokenize input).head? ≠ some ")" ∧ firstForm (tokenize input) = tokenize input := by
  have areTokens : ∀ token ∈ tokenize input, IsToken token :=
    fun token => isToken_of_mem_tokenize
  unfold AcceptsExactly
  cases read : readForm (tokenize input) with
  | ok output =>
    obtain ⟨atom, rest⟩ := output
    have accepted := parseMeTTa_of_readForm read
    rw [← sExpression_iff_of_readForm areTokens read]
    constructor
    · rintro (⟨form, -⟩ | ⟨-, error, refused⟩)
      · exact form
      · cases accepted.symm.trans refused
    · exact fun form => .inl ⟨form, atom, accepted⟩
  | error error =>
    refine iff_of_true (.inr ⟨fun form => ?_, ?_⟩) ⟨fun closes => ?_, ?_⟩
    · obtain ⟨atom, readAll⟩ := form.readForm []
      rw [List.append_nil, read] at readAll
      cases readAll
    · cases refused : parseMeTTa input with
      | error error => exact ⟨error, rfl⟩
      | ok atom =>
        obtain ⟨rest, accepted⟩ := exists_readForm refused
        cases read.symm.trans accepted
    · obtain ⟨later, tokens⟩ := List.head?_eq_some_iff.mp closes
      rw [tokens, readForm_word (by decide)] at read
      cases read
    · exact formFrom_of_refused areTokens read 0

/-- The second word of `a b` is left over, and the text is accepted. -/
theorem leftover_accepted : ¬ ∀ input, AcceptsExactly input := by
  intro always
  have tokens : tokenize "a b" = ["a", "b"] := by decide
  have accepted : parseMeTTa "a b" = .ok (parseWord "a") :=
    parseMeTTa_of_readForm (by rw [tokens, readForm_word (by decide)])
  rcases always "a b" with ⟨form, -⟩ | ⟨-, error, refused⟩
  · rw [tokens] at form
    obtain ⟨atom, readAll⟩ := form.readForm []
    rw [List.append_nil, readForm_word (by decide)] at readAll
    cases readAll
  · cases accepted.symm.trans refused

end Senars.Metta
