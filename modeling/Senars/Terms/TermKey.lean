/-
This file determines when two terms have one structural key.

A key is the pre-order listing of a term's heads: each atom with its symbol, each
compound with its kind, and a comma after a node nothing is nested in. It can be
read back, because no symbol the factory accepts holds a colon. What cannot be
read back is where an argument list ends: nothing closes one. Two terms have one
key exactly when they list the same heads, and a listing of heads determines the
term only together with the number of arguments of each node.
-/

import Senars.Terms.Symbols

namespace Senars.Terms

open Library

/-! ### Heads -/

/-- What one node contributes to a key: an atom's symbol, or a compound's kind and whether the
compound is empty. -/
inductive Head where
  | atom (symbol : String)
  | compound (kind : OperatorKey) (empty : Bool)
  deriving DecidableEq

/-- The head of a node. -/
def headOf : Term → Head
  | .atom symbol => .atom symbol
  | .compound kind args => .compound kind args.isEmpty

/-- The heads of a term in pre-order. -/
def heads (term : Term) : List Head := (visited term).map headOf

/-- The numbers of arguments of a term's nodes in pre-order. -/
def arities (term : Term) : List Nat := (visited term).map fun node => (getArgs node).length

/-- What stands before the colon. -/
def Head.word : Head → String
  | .atom _ => "atom"
  | .compound kind _ => kind.name

/-- What stands after the colon and belongs to the node itself. -/
def Head.body : Head → String
  | .atom symbol => symbol
  | .compound _ _ => ""

/-- Whether nothing is nested in the node. -/
def Head.closed : Head → Bool
  | .atom _ => true
  | .compound _ empty => empty

/-- The text of a listing of heads. -/
def keyText : List Head → List Char
  | [] => []
  | head :: rest =>
    head.word.toList ++ ':' :: (head.body.toList ++
      (if head.closed && !rest.isEmpty then ',' :: keyText rest else keyText rest))

@[simp] theorem heads_atom (symbol : String) : heads (.atom symbol) = [.atom symbol] := rfl

theorem heads_compound (kind : OperatorKey) (args : List Term) :
    heads (.compound kind args) = .compound kind args.isEmpty :: args.flatMap heads := by
  rw [heads, visited, visitedArgs_eq, List.map_cons, List.map_flatMap]
  rfl

@[simp] theorem arities_atom (symbol : String) : arities (.atom symbol) = [0] := rfl

theorem arities_compound (kind : OperatorKey) (args : List Term) :
    arities (.compound kind args) = args.length :: args.flatMap arities := by
  rw [arities, visited, visitedArgs_eq, List.map_cons, List.map_flatMap]
  rfl

theorem heads_ne_nil (term : Term) : heads term ≠ [] := by
  cases term with
  | atom symbol => exact List.cons_ne_nil _ _
  | compound kind args => rw [heads_compound]; exact List.cons_ne_nil _ _

/-! ### The key lists the heads -/

/-- The text that follows a complete node. -/
def following : List Head → List Char
  | [] => []
  | head :: rest => ',' :: keyText (head :: rest)

theorem following_of_ne_nil {rest} (more : rest ≠ []) : following rest = ',' :: keyText rest := by
  cases rest with
  | nil => exact absurd rfl more
  | cons head tail => rfl

variable {head : Head} {first second : List Head}

theorem keyText_closed (closed : head.closed = true) (rest : List Head) :
    keyText (head :: rest) =
      head.word.toList ++ ':' :: (head.body.toList ++ following rest) := by
  rw [keyText, closed]
  cases rest <;> rfl

theorem keyText_open (nested : head.closed = false) (rest : List Head) :
    keyText (head :: rest) = head.word.toList ++ ':' :: (head.body.toList ++ keyText rest) := by
  rw [keyText, nested]
  rfl

theorem join_termKeys (args : List Term) (more : args ≠ [])
    (each : ∀ arg ∈ args, ∀ rest,
      keyText (heads arg ++ rest) = (termKey arg).toList ++ following rest) (rest : List Head) :
    keyText (args.flatMap heads ++ rest) =
      (join "," (args.map termKey)).toList ++ following rest := by
  induction args with
  | nil => exact absurd rfl more
  | cons arg others ih =>
    cases others with
    | nil => simpa using each arg List.mem_cons_self rest
    | cons next others =>
      have tail := ih (List.cons_ne_nil _ _)
        fun other member => each other (List.mem_cons_of_mem _ member)
      have nonempty : (next :: others).flatMap heads ++ rest ≠ [] := by
        rw [List.flatMap_cons, List.append_assoc]
        exact List.append_ne_nil_of_left_ne_nil (heads_ne_nil next) _
      rw [List.flatMap_cons, List.append_assoc, each arg List.mem_cons_self,
        following_of_ne_nil nonempty, tail, List.map_cons, List.map_cons, List.map_cons,
        join_cons_cons]
      simp

theorem keyText_heads_append (term : Term) :
    ∀ rest, keyText (heads term ++ rest) = (termKey term).toList ++ following rest := by
  induction term with
  | atom symbol =>
    intro rest
    rw [heads_atom, List.singleton_append, keyText_closed rfl, termKey]
    simp [Head.word, Head.body]
  | compound kind args ih =>
    intro rest
    rw [heads_compound, List.cons_append, termKey, termKeys_eq]
    cases args with
    | nil =>
      rw [List.flatMap_nil, keyText_closed rfl]
      simp [Head.word, Head.body]
    | cons arg others =>
      rw [keyText_open rfl, join_termKeys _ (List.cons_ne_nil _ _) ih]
      simp [Head.word, Head.body]

theorem termKey_toList (term : Term) : (termKey term).toList = keyText (heads term) := by
  have text := keyText_heads_append term []
  rw [List.append_nil, following, List.append_nil] at text
  exact text.symm

/-! ### Reading a listing back -/

/-- A listing that can be read back: no symbol holds a colon, and a node that is not closed is
followed by another. -/
def Decodable : List Head → Prop
  | [] => True
  | head :: rest =>
    ':' ∉ head.body.toList ∧ (head.closed = false → rest ≠ []) ∧ Decodable rest

theorem name_facts (kind : OperatorKey) : kind.name ≠ "atom" ∧ ':' ∉ kind.name.toList ∧
    ',' ∉ kind.name.toList ∧ kind.name.toList ≠ [] := by
  cases kind <;> decide

theorem word_colon : ∀ head : Head, ':' ∉ head.word.toList
  | .atom _ => (by decide : ':' ∉ "atom".toList)
  | .compound kind _ => (name_facts kind).2.1

theorem word_comma : ∀ head : Head, ',' ∉ head.word.toList
  | .atom _ => (by decide : ',' ∉ "atom".toList)
  | .compound kind _ => (name_facts kind).2.2.1

theorem word_ne_nil : ∀ head : Head, head.word.toList ≠ []
  | .atom _ => (by decide : "atom".toList ≠ [])
  | .compound kind _ => (name_facts kind).2.2.2

theorem keyText_ne_comma {rest text} : keyText (head :: rest) ≠ ',' :: text := by
  intro same
  obtain ⟨char, word, found⟩ := List.exists_cons_of_ne_nil (word_ne_nil head)
  rw [keyText, found, List.cons_append, List.cons.injEq] at same
  exact word_comma head (found ▸ same.1 ▸ List.mem_cons_self)

theorem following_ne_keyText (more : second ≠ []) : following first ≠ keyText second := by
  cases second with
  | nil => exact absurd rfl more
  | cons head rest =>
    cases first with
    | nil =>
      exact (List.append_ne_nil_of_right_ne_nil _ (List.cons_ne_nil _ _)).symm
    | cons other others => exact keyText_ne_comma.symm

theorem following_injective
    (ih : keyText first = keyText second → first = second)
    (same : following first = following second) : first = second := by
  cases first with
  | nil =>
    cases second with
    | nil => rfl
    | cons head rest => cases same
  | cons head rest =>
    cases second with
    | nil => cases same
    | cons otherHead otherRest => exact ih (List.cons.inj same).2

theorem body_following {first second firstRest secondRest} (firstColon : ':' ∉ first)
    (secondColon : ':' ∉ second)
    (same : first ++ following firstRest = second ++ following secondRest) :
    first = second ∧ following firstRest = following secondRest := by
  have holdsColon : ∀ head rest, ':' ∈ following (head :: rest) := by
    intro head rest
    simp [following, keyText]
  cases firstRest with
  | nil =>
    cases secondRest with
    | nil => exact ⟨by simpa [following] using same, rfl⟩
    | cons head rest =>
      rw [following, List.append_nil] at same
      exact absurd (same ▸ List.mem_append_right second (holdsColon head rest)) firstColon
  | cons head rest =>
    cases secondRest with
    | nil =>
      rw [following.eq_def [], List.append_nil] at same
      exact absurd (same ▸ List.mem_append_right first (holdsColon head rest)) secondColon
    | cons otherHead otherRest =>
      have untilColon : ∀ (symbol : List Char) (next : Head), ':' ∉ symbol →
          ':' ∉ symbol ++ ',' :: next.word.toList := by
        intro symbol next absent member
        rcases List.mem_append.mp member with inside | later
        · exact absent inside
        · exact word_colon next ((List.mem_cons.mp later).resolve_left (by decide))
      have listed : ∀ (symbol : List Char) (next : Head) (others : List Head),
          ∃ text, keyText (next :: others) = next.word.toList ++ ':' :: text ∧
            symbol ++ following (next :: others) =
              (symbol ++ ',' :: next.word.toList) ++ ':' :: text :=
        fun symbol next others => ⟨_, rfl, by rw [following, keyText]; simp⟩
      obtain ⟨firstText, firstKey, firstListed⟩ := listed first head rest
      obtain ⟨secondText, secondKey, secondListed⟩ := listed second otherHead otherRest
      rw [firstListed, secondListed] at same
      obtain ⟨upTo, after⟩ := split_at_first_mark (untilColon first head firstColon)
        (untilColon second otherHead secondColon) same
      obtain ⟨symbols, words⟩ := split_at_last_mark (word_comma head) (word_comma otherHead) upTo
      refine ⟨symbols, ?_⟩
      rw [following, following, firstKey, secondKey, words, after]

theorem word_injective {first second : Head} (same : first.word = second.word) :
    (∃ left right, first = .atom left ∧ second = .atom right) ∨
      ∃ kind left right, first = .compound kind left ∧ second = .compound kind right := by
  cases first with
  | atom left =>
    cases second with
    | atom right => exact Or.inl ⟨left, right, rfl, rfl⟩
    | compound kind empty => exact absurd same.symm (name_facts kind).1
  | compound kind left =>
    cases second with
    | atom right => exact absurd same (name_facts kind).1
    | compound other right =>
      obtain rfl := OperatorKey.name_injective same
      exact Or.inr ⟨kind, left, right, rfl, rfl⟩

theorem keyText_injective (firstDecodable : Decodable first) (secondDecodable : Decodable second)
    (same : keyText first = keyText second) : first = second := by
  induction first generalizing second with
  | nil =>
    cases second with
    | nil => rfl
    | cons head rest =>
      exact absurd same.symm (List.append_ne_nil_of_right_ne_nil _ (List.cons_ne_nil _ _))
  | cons head rest ih =>
    cases second with
    | nil =>
      exact absurd same (List.append_ne_nil_of_right_ne_nil _ (List.cons_ne_nil _ _))
    | cons other others =>
      obtain ⟨firstColon, firstOpen, firstRest⟩ := firstDecodable
      obtain ⟨secondColon, secondOpen, secondRest⟩ := secondDecodable
      have unfolded := same
      obtain ⟨words, tails⟩ := split_at_first_mark (word_colon head) (word_colon other) unfolded
      rcases word_injective (String.toList_injective words) with
        ⟨left, right, rfl, rfl⟩ | ⟨kind, left, right, rfl, rfl⟩
      · rw [keyText_closed rfl, keyText_closed rfl] at same
        obtain ⟨_, bodies⟩ := split_at_first_mark (word_colon _) (word_colon _) same
        obtain ⟨symbols, rests⟩ := body_following firstColon secondColon bodies
        have symbols : left = right := String.toList_injective symbols
        rw [symbols, following_injective
          (fun equal => ih firstRest secondRest equal) rests]
      · cases left <;> cases right
        · rw [keyText_open rfl] at same
          obtain ⟨_, rests⟩ := split_at_first_mark (word_colon _) (word_colon _) same
          rw [ih firstRest secondRest rests]
        · rw [keyText_open rfl, keyText_closed rfl] at same
          obtain ⟨_, rests⟩ := split_at_first_mark (word_colon _) (word_colon _) same
          exact absurd rests.symm (following_ne_keyText (firstOpen rfl))
        · rw [keyText_closed rfl] at same
          obtain ⟨_, rests⟩ := split_at_first_mark (word_colon _) (word_colon _) same
          exact absurd rests (following_ne_keyText (secondOpen rfl))
        · rw [keyText_closed rfl, keyText_closed rfl] at same
          obtain ⟨_, rests⟩ := split_at_first_mark (word_colon _) (word_colon _) same
          rw [following_injective
            (fun equal => ih firstRest secondRest equal) rests]

theorem decodable_heads {term} (among : AtomsAmong (fun symbol => ':' ∉ symbol.toList) term) :
    ∀ {rest : List Head}, Decodable rest → Decodable (heads term ++ rest) := by
  induction term with
  | atom symbol =>
    intro rest decodable
    exact ⟨(atomsAmong_atom symbol).mp among, fun closed => absurd closed (by rintro ⟨⟩), decodable⟩
  | compound kind args ih =>
    intro rest decodable
    have inner : Decodable (args.flatMap heads ++ rest) := by
      have each := (atomsAmong_compound kind args).mp among
      clear among
      induction args with
      | nil => exact decodable
      | cons arg others listHypothesis =>
        rw [List.flatMap_cons, List.append_assoc]
        refine ih arg List.mem_cons_self (each arg List.mem_cons_self) ?_
        exact listHypothesis
          (fun other member => ih other (List.mem_cons_of_mem _ member))
          fun other member => each other (List.mem_cons_of_mem _ member)
    rw [heads_compound, List.cons_append]
    refine ⟨by simp [Head.body], fun nested => ?_, inner⟩
    cases args with
    | nil => cases nested
    | cons arg others =>
      rw [List.flatMap_cons, List.append_assoc]
      exact List.append_ne_nil_of_left_ne_nil (heads_ne_nil arg) _

theorem termKey_eq_iff_heads_eq {collator first second} (firstBuilt : FactoryBuilt collator first)
    (secondBuilt : FactoryBuilt collator second) :
    termKey first = termKey second ↔ heads first = heads second := by
  have decodable : ∀ {term : Term}, FactoryBuilt collator term → Decodable (heads term) := by
    intro term built
    have empty : Decodable [] := trivial
    have readable := decodable_heads
      (fun symbol member => atomOf_colon (built.atomsAmong symbol member)) empty
    rwa [List.append_nil] at readable
  constructor
  · intro same
    refine keyText_injective (decodable firstBuilt) (decodable secondBuilt) ?_
    rw [← termKey_toList, ← termKey_toList, same]
  · intro same
    refine String.toList_injective ?_
    rw [termKey_toList, termKey_toList, same]

/-! ### Heads and arities -/

theorem eq_of_heads_arities {first} :
    ∀ {second : Term} {firstHeads secondHeads : List Head} {firstArities secondArities : List Nat},
      heads first ++ firstHeads = heads second ++ secondHeads →
      arities first ++ firstArities = arities second ++ secondArities →
      first = second ∧ firstHeads = secondHeads ∧ firstArities = secondArities := by
  induction first with
  | atom symbol =>
    intro second firstHeads secondHeads firstArities secondArities sameHeads sameArities
    cases second with
    | atom other =>
      obtain ⟨head, rest⟩ := List.cons.inj sameHeads
      exact ⟨congrArg Term.atom (Head.atom.inj head), rest, (List.cons.inj sameArities).2⟩
    | compound kind args =>
      exact absurd (List.cons.inj sameHeads).1 (by rintro ⟨⟩)
  | compound kind args ih =>
    intro second firstHeads secondHeads firstArities secondArities sameHeads sameArities
    cases second with
    | atom other =>
      exact absurd (List.cons.inj sameHeads).1 (by rintro ⟨⟩)
    | compound otherKind otherArgs =>
      rw [heads_compound, heads_compound, List.cons_append, List.cons_append] at sameHeads
      rw [arities_compound, arities_compound, List.cons_append, List.cons_append] at sameArities
      obtain ⟨head, restHeads⟩ := List.cons.inj sameHeads
      obtain ⟨length, restArities⟩ := List.cons.inj sameArities
      obtain ⟨rfl, -⟩ := Head.compound.inj head
      have lists : args = otherArgs ∧ firstHeads = secondHeads ∧
          firstArities = secondArities := by
        clear sameHeads sameArities head
        induction args generalizing otherArgs with
        | nil =>
          obtain rfl := List.length_eq_zero_iff.mp length.symm
          exact ⟨rfl, restHeads, restArities⟩
        | cons arg others listHypothesis =>
          cases otherArgs with
          | nil => cases length
          | cons otherArg otherOthers =>
            rw [List.flatMap_cons, List.flatMap_cons, List.append_assoc, List.append_assoc]
              at restHeads restArities
            obtain ⟨same, laterHeads, laterArities⟩ :=
              ih arg List.mem_cons_self restHeads restArities
            obtain ⟨rest, heads, arities⟩ := listHypothesis
              (fun other member => ih other (List.mem_cons_of_mem _ member))
              otherOthers laterHeads (Nat.succ.inj length) laterArities
            exact ⟨congr (congrArg List.cons same) rest, heads, arities⟩
      exact ⟨congrArg (Term.compound kind) lists.1, lists.2⟩

/-- A shared key of two factory-built terms identifies them exactly when two terms that list the
same heads also list the same numbers of arguments. -/
theorem termKey_injective_iff {collator : Collator} {first second : Term}
    (firstBuilt : FactoryBuilt collator first) (secondBuilt : FactoryBuilt collator second) :
    (termKey first = termKey second → first = second) ↔
      (heads first = heads second → arities first = arities second) := by
  rw [termKey_eq_iff_heads_eq firstBuilt secondBuilt]
  constructor
  · intro identifies sameHeads
    rw [identifies sameHeads]
  · intro determined sameHeads
    have sameArities := determined sameHeads
    refine (eq_of_heads_arities (?_ : heads first ++ [] = heads second ++ [])
      (?_ : arities first ++ [] = arities second ++ [])).1
    · rw [sameHeads]
    · rw [sameArities]

/-! ### The argument list nothing closes -/

theorem atom_built {collator symbol} (accepted : atomOf symbol = .ok (.atom symbol)) :
    FactoryBuilt collator (.atom symbol) :=
  .atom symbol _ accepted

theorem set_then_atom_built : FactoryBuilt codePointCollator
    (.compound .product [.compound .setExt [.atom "a"], .atom "b"]) := by
  have a : FactoryBuilt codePointCollator (.atom "a") := atom_built (by decide)
  have b : FactoryBuilt codePointCollator (.atom "b") := atom_built (by decide)
  have set : FactoryBuilt codePointCollator (.compound .setExt [.atom "a"]) :=
    .compound .setExt [.atom "a"] _ (by simpa using a) (by decide)
  exact .compound .product [.compound .setExt [.atom "a"], .atom "b"] _
    (by simpa using ⟨set, b⟩) (by decide)

theorem set_of_two_built : FactoryBuilt codePointCollator
    (.compound .product [.compound .setExt [.atom "a", .atom "b"]]) := by
  have a : FactoryBuilt codePointCollator (.atom "a") := atom_built (by decide)
  have b : FactoryBuilt codePointCollator (.atom "b") := atom_built (by decide)
  have set : FactoryBuilt codePointCollator (.compound .setExt [.atom "a", .atom "b"]) :=
    .compound .setExt [.atom "a", .atom "b"] _ (by simpa using ⟨a, b⟩) (by decide)
  exact .compound .product [.compound .setExt [.atom "a", .atom "b"]] _
    (by simpa using set) (by decide)

/-- The product of the set of `a` and of `b` lists other heads than the atom `a`, so a shared key
would identify them. -/
theorem termKey_injective_iff_product :
    ((termKey (.compound .product [.compound .setExt [.atom "a"], .atom "b"]) =
        termKey (.atom "a") →
      Term.compound .product [.compound .setExt [.atom "a"], .atom "b"] = .atom "a") ↔
      (heads (.compound .product [.compound .setExt [.atom "a"], .atom "b"]) =
          heads (.atom "a") →
        arities (.compound .product [.compound .setExt [.atom "a"], .atom "b"]) =
          arities (.atom "a"))) ∧
      heads (.compound .product [.compound .setExt [.atom "a"], .atom "b"]) ≠ heads (.atom "a") :=
  ⟨termKey_injective_iff set_then_atom_built (atom_built (by decide)), by decide⟩

/-- The product of a set of one atom and another atom has the key of the product of the set of
both. -/
theorem termKey_of_product_not_injective :
    ¬ ∀ (collator : Collator) (first second : Term), FactoryBuilt collator first →
      FactoryBuilt collator second → termKey first = termKey second → first = second := by
  intro injective
  exact absurd (injective codePointCollator _ _ set_then_atom_built set_of_two_built (by decide))
    (by decide)

end Senars.Terms
