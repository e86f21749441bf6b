/-
This file is parsing expressions: parsers that try their alternatives in order
and commit to the first that succeeds. An action may throw, which ends the whole
parse, and a parser that recurses takes fuel, which may run out.

Two things are said about parsers, each with one rule for every combinator. On
one text, what a parser reads off it, or that it fails. On all texts up to a
length, which values a parser yields, that it never gives back more than it was
given, and that it does not run out of fuel.
-/

import Mathlib.Data.List.TakeWhile
import Mathlib.Order.Basic

namespace Senars.Library

/-- What a parser makes of a text. -/
inductive Outcome (Error Value : Type) where
  | success (value : Value) (rest : List Char)
  | failure
  | thrown (error : Error)
  | exhausted
  deriving DecidableEq

/-- A parsing expression. -/
def Peg (Error Value : Type) : Type := List Char → Outcome Error Value

namespace Peg

variable {Error Value Other : Type}

/-! ### Combinators -/

/-- Succeed without reading. -/
def succeed (value : Value) : Peg Error Value := fun text => .success value text

/-- What a parser made of a text, and what the next one makes of the rest. -/
def followedBy (outcome : Outcome Error Value) (next : Value → Peg Error Other) :
    Outcome Error Other :=
  match outcome with
  | .success value rest => next value rest
  | .failure => .failure
  | .thrown error => .thrown error
  | .exhausted => .exhausted

instance : Monad (Peg Error) where
  pure := succeed
  bind parser next := fun text => followedBy (parser text) next

/-- The first outcome, unless it is a failure. -/
def orElse (outcome : Outcome Error Value) (other : Outcome Error Value) : Outcome Error Value :=
  match outcome with
  | .failure => other
  | outcome => outcome

/-- Try each parser in turn until one does not fail. -/
def firstOf : List (Peg Error Value) → Peg Error Value
  | [] => fun _ => .failure
  | parser :: rest => fun text => orElse (parser text) (firstOf rest text)

/-- Read exactly these characters. -/
def exactly : List Char → Peg Error Unit
  | [], text => .success () text
  | char :: chars, head :: text => if char = head then exactly chars text else .failure
  | _ :: _, [] => .failure

/-- Read a literal. -/
def literal (text : String) : Peg Error Unit := exactly text.toList

/-- Read a literal and give it back. -/
def token (text : String) : Peg Error String := literal text >>= fun _ => succeed text

/-- Read one character of a class. -/
def oneOf (member : Char → Bool) : Peg Error Char
  | [] => .failure
  | char :: text => if member char then .success char text else .failure

/-- Read the longest run of characters of a class, which may be empty. -/
def run (member : Char → Bool) : Peg Error (List Char) := fun text =>
  .success (text.takeWhile member) (text.dropWhile member)

/-- Read the longest run of characters of a class, of one character at least. -/
def run1 (member : Char → Bool) : Peg Error (List Char) := do
  let char ← oneOf member
  let chars ← run member
  return char :: chars

/-- Read with a parser if it succeeds. -/
def optional (parser : Peg Error Value) : Peg Error (Option Value) := fun text =>
  match parser text with
  | .success value rest => .success (some value) rest
  | .failure => .success none text
  | .thrown error => .thrown error
  | .exhausted => .exhausted

/-- Read with a parser as often as it succeeds, so many times at most. -/
def upTo (parser : Peg Error Value) : Nat → Peg Error (List Value)
  | 0, text => .success [] text
  | times + 1, text =>
    match parser text with
    | .success value rest =>
      followedBy (upTo parser times rest) fun values => succeed (value :: values)
    | .failure => .success [] text
    | .thrown error => .thrown error
    | .exhausted => .exhausted

/-- Read with a parser that consumes something as often as it succeeds. -/
def star (parser : Peg Error Value) : Peg Error (List Value) := fun text =>
  upTo parser text.length text

/-- Read with a parser at least once. -/
def star1 (parser : Peg Error Value) : Peg Error (List Value) := do
  let value ← parser
  let values ← star parser
  return value :: values

/-- The action of a rule: a value, or an error that ends the parse. -/
def act (result : Except Error Value) : Peg Error Value := fun text =>
  match result with
  | .ok value => .success value text
  | .error error => .thrown error

/-! ### Running them -/

@[simp] theorem pure_apply (value : Value) (text : List Char) :
    (pure value : Peg Error Value) text = .success value text := rfl

@[simp] theorem bind_apply (parser : Peg Error Value) (next : Value → Peg Error Other)
    (text : List Char) : (parser >>= next) text = followedBy (parser text) next := rfl

@[simp] theorem exactly_nil (text : List Char) :
    (exactly [] : Peg Error Unit) text = .success () text := by
  cases text <;> rfl

@[simp] theorem exactly_cons_cons (char head : Char) (chars text : List Char) :
    (exactly (char :: chars) : Peg Error Unit) (head :: text) =
      if char = head then exactly chars text else .failure := rfl

@[simp] theorem exactly_cons_nil (char : Char) (chars : List Char) :
    (exactly (char :: chars) : Peg Error Unit) [] = .failure := rfl

theorem exactly_append (chars text : List Char) :
    (exactly chars : Peg Error Unit) (chars ++ text) = .success () text := by
  induction chars with
  | nil => simp
  | cons char chars ih => simp [ih]

@[simp] theorem firstOf_nil (text : List Char) :
    (firstOf [] : Peg Error Value) text = .failure := rfl

theorem firstOf_cons (parser : Peg Error Value) (rest : List (Peg Error Value))
    (text : List Char) :
    firstOf (parser :: rest) text = orElse (parser text) (firstOf rest text) := rfl

theorem firstOf_singleton (parser : Peg Error Value) : firstOf [parser] = parser := by
  funext text
  rw [firstOf_cons]
  cases parser text <;> rfl

/-! ### Reading a text and failing on it -/

/-- A parser reads a value off a text and leaves the rest. -/
def Reads (parser : Peg Error Value) (text : List Char) (value : Value) (rest : List Char) :
    Prop :=
  parser text = .success value rest

/-- A parser fails on a text, so that the next alternative is tried. -/
def Fails (parser : Peg Error Value) (text : List Char) : Prop := parser text = .failure

section Reading

variable {parser : Peg Error Value} {next : Value → Peg Error Other}
  {alternatives : List (Peg Error Value)} {text middle rest : List Char} {value : Value}

theorem Reads.bind {result} (first : Reads parser text value middle)
    (second : Reads (next value) middle result rest) :
    Reads (parser >>= next) text result rest := by
  rw [Reads, bind_apply, first]
  exact second

theorem Reads.bind_fails (first : Reads parser text value middle)
    (second : Fails (next value) middle) : Fails (parser >>= next) text := by
  rw [Fails, bind_apply, first]
  exact second

theorem Fails.bind (first : Fails parser text) : Fails (parser >>= next) text := by
  rw [Fails, bind_apply, first]
  rfl

theorem reads_pure : Reads (pure value : Peg Error Value) text value text := rfl

theorem reads_act : Reads (act (.ok value) : Peg Error Value) text value text := rfl

theorem Reads.firstOf (first : Reads parser text value rest) :
    Reads (firstOf (parser :: alternatives)) text value rest := by
  rw [Reads, firstOf_cons, first]
  rfl

theorem Fails.firstOf (first : Fails parser text)
    (later : Reads (Peg.firstOf alternatives) text value rest) :
    Reads (Peg.firstOf (parser :: alternatives)) text value rest := by
  rw [Reads, firstOf_cons, first]
  exact later

theorem fails_firstOf_nil : Fails (Peg.firstOf [] : Peg Error Value) text := rfl

theorem Fails.firstOf_fails (first : Fails parser text)
    (later : Fails (Peg.firstOf alternatives) text) :
    Fails (Peg.firstOf (parser :: alternatives)) text := by
  rw [Fails, firstOf_cons, first]
  exact later

theorem Reads.optional (read : Reads parser text value rest) :
    Reads (optional parser) text (some value) rest := by
  rw [Reads, Peg.optional, read]

theorem Fails.optional (failed : Fails parser text) :
    Reads (Peg.optional parser) text none text := by
  rw [Reads, Peg.optional, failed]

/-- A text begins with no character of a class. -/
def Avoids (text : List Char) (member : Char → Bool) : Prop :=
  ∀ char ∈ text.head?, member char = false

theorem avoids_nil (member : Char → Bool) : Avoids [] member :=
  fun _ absent => absurd absent (by simp)

variable {member : Char → Bool}

theorem avoids_cons {char} : Avoids (char :: text) member ↔ member char = false := by
  simp [Avoids]

theorem Avoids.imp {narrower} (avoids : Avoids text member)
    (within : ∀ char, narrower char = true → member char = true) : Avoids text narrower := by
  intro char first
  have outside := avoids char first
  by_contra inside
  rw [within char (by simpa using inside)] at outside
  cases outside

theorem Avoids.char {member} (avoids : Avoids text member) {char} (inside : member char = true) :
    Avoids text (· == char) :=
  avoids.imp fun _ same => (beq_iff_eq.mp same) ▸ inside

theorem avoids_dropWhile (member : Char → Bool) (text : List Char) :
    Avoids (text.dropWhile member) member := by
  intro char first
  have head := List.head?_dropWhile_not member text
  rw [Option.mem_def.mp first] at head
  simpa using head

theorem takeWhile_append_of_avoids (avoids : Avoids rest member) (chars : List Char) :
    (chars ++ rest).takeWhile member = chars.takeWhile member := by
  induction chars with
  | nil =>
    cases rest with
    | nil => rfl
    | cons char rest => simp [avoids_cons.mp avoids]
  | cons char chars ih =>
    rw [List.cons_append, List.takeWhile_cons, List.takeWhile_cons, ih]

theorem dropWhile_append_of_avoids (avoids : Avoids rest member) (chars : List Char) :
    (chars ++ rest).dropWhile member = chars.dropWhile member ++ rest := by
  induction chars with
  | nil =>
    cases rest with
    | nil => rfl
    | cons char rest => simp [avoids_cons.mp avoids]
  | cons char chars ih =>
    rw [List.cons_append, List.dropWhile_cons, List.dropWhile_cons, ih]
    split <;> rfl

theorem reads_literal (chars : String) :
    Reads (literal chars : Peg Error Unit) (chars.toList ++ rest) () rest :=
  exactly_append chars.toList rest

theorem fails_literal {chars} {char : Char} (first : chars.toList.head? = some char)
    (avoids : Avoids text (· == char)) : Fails (literal chars : Peg Error Unit) text := by
  obtain ⟨tail, split⟩ := List.head?_eq_some_iff.mp first
  rw [Fails, literal, split]
  cases text with
  | nil => rfl
  | cons head text =>
    have different : char ≠ head := fun same => by simp [avoids_cons, same] at avoids
    rw [exactly_cons_cons, if_neg different]

theorem fails_oneOf (avoids : Avoids text member) : Fails (oneOf member : Peg Error Char) text := by
  cases text with
  | nil => rfl
  | cons char text =>
    rw [Fails, oneOf, avoids_cons.mp avoids]
    rfl

theorem reads_oneOf {char : Char} (holds : member char = true) :
    Reads (oneOf member : Peg Error Char) (char :: rest) char rest := by
  rw [Reads, oneOf, if_pos holds]

theorem reads_run {chars} (each : ∀ char ∈ chars, member char = true)
    (avoids : Avoids rest member) :
    Reads (run member : Peg Error (List Char)) (chars ++ rest) chars rest := by
  rw [Reads, run, takeWhile_append_of_avoids avoids, dropWhile_append_of_avoids avoids,
    List.takeWhile_eq_self_iff.mpr each, List.dropWhile_eq_nil_iff.mpr each, List.nil_append]

theorem reads_run_nil (avoids : Avoids rest member) :
    Reads (run member : Peg Error (List Char)) rest [] rest :=
  List.nil_append rest ▸ reads_run (fun _ absent => absurd absent List.not_mem_nil) avoids

theorem reads_run1_takeWhile {char : Char} (holds : member char = true) :
    Reads (run1 member : Peg Error (List Char)) (char :: text) (char :: text.takeWhile member)
      (text.dropWhile member) :=
  (reads_oneOf holds).bind (Reads.bind rfl reads_pure)

theorem reads_run1 {char chars} (each : ∀ other ∈ char :: chars, member other = true)
    (avoids : Avoids rest member) :
    Reads (run1 member : Peg Error (List Char)) (char :: chars ++ rest) (char :: chars) rest :=
  (reads_oneOf (each char List.mem_cons_self)).bind
    ((reads_run (fun other inside => each other (List.mem_cons_of_mem _ inside)) avoids).bind
      reads_pure)

theorem fails_run1 (avoids : Avoids text member) :
    Fails (run1 member : Peg Error (List Char)) text :=
  (fails_oneOf avoids).bind

/-- A parser reads some values one after another, each off a shorter text, and then fails. -/
inductive ReadsEach (parser : Peg Error Value) : List Char → List Value → List Char → Prop
  | done (text : List Char) (failed : Fails parser text) : ReadsEach parser text [] text
  | next (text middle rest : List Char) (value : Value) (values : List Value)
      (read : Reads parser text value middle) (shorter : middle.length < text.length)
      (later : ReadsEach parser middle values rest) : ReadsEach parser text (value :: values) rest

theorem ReadsEach.upTo {values} (each : ReadsEach parser text values rest) {times}
    (enough : text.length ≤ times) : Reads (upTo parser times) text values rest := by
  induction each generalizing times with
  | done text failed =>
    cases times with
    | zero => rfl
    | succ times => rw [Reads, Peg.upTo, failed]
  | next text middle rest value values read shorter _ ih =>
    cases times with
    | zero => omega
    | succ times =>
      rw [Reads, Peg.upTo, read]
      exact Reads.bind (ih (by omega)) reads_pure

theorem ReadsEach.star {values} (each : ReadsEach parser text values rest) :
    Reads (star parser) text values rest :=
  each.upTo le_rfl

end Reading

/-! ### What a parser yields -/

/-- What is said of an outcome: fuel did not run out, the value is good, and no more than so
many characters are left. -/
def Bounded (length : Nat) (Good : Value → Prop) : Outcome Error Value → Prop
  | .success value rest => Good value ∧ rest.length ≤ length
  | .failure => True
  | .thrown _ => True
  | .exhausted => False

/-- On texts of so many characters at most, a parser yields good values only, gives back no
more than it was given and does not run out of fuel. -/
def Yields (room : Nat) (parser : Peg Error Value) (Good : Value → Prop) : Prop :=
  ∀ text, text.length ≤ room → Bounded text.length Good (parser text)

section Yielding

variable {parser : Peg Error Value} {next : Value → Peg Error Other} {room : Nat}
  {Good : Value → Prop} {Fine : Other → Prop}

theorem Bounded.mono {length longer} {outcome : Outcome Error Value}
    (bounded : Bounded length Good outcome) (fits : length ≤ longer) :
    Bounded longer Good outcome := by
  cases outcome with
  | success value rest => exact ⟨bounded.1, bounded.2.trans fits⟩
  | failure => trivial
  | thrown error => trivial
  | exhausted => exact bounded

theorem Bounded.followedBy {length outcome} (bounded : Bounded length Good outcome)
    (fits : length ≤ room) (each : ∀ value, Good value → Yields room (next value) Fine) :
    Bounded length Fine (followedBy outcome next) := by
  cases outcome with
  | success value rest =>
    exact (each value bounded.1 rest (bounded.2.trans fits)).mono bounded.2
  | failure => trivial
  | thrown error => trivial
  | exhausted => exact bounded

theorem Yields.bind (first : Yields room parser Good)
    (each : ∀ value, Good value → Yields room (next value) Fine) :
    Yields room (parser >>= next) Fine :=
  fun text fits => (first text fits).followedBy fits each

theorem Yields.imp {Weaker} (yields : Yields room parser Good)
    (weaken : ∀ value, Good value → Weaker value) : Yields room parser Weaker := by
  intro text fits
  have bounded := yields text fits
  cases outcome : parser text with
  | success value rest =>
    rw [outcome] at bounded
    exact ⟨weaken value bounded.1, bounded.2⟩
  | failure => trivial
  | thrown error => trivial
  | exhausted =>
    rw [outcome] at bounded
    exact bounded

theorem yields_pure {value} (good : Good value) : Yields room (pure value : Peg Error Value) Good :=
  fun _ _ => ⟨good, le_refl _⟩

theorem yields_act {result : Except Error Value} (good : ∀ value, result = .ok value → Good value) :
    Yields room (act result) Good := by
  intro text fits
  cases result with
  | ok value => exact ⟨good value rfl, le_refl _⟩
  | error error => trivial

theorem yields_firstOf {alternatives : List (Peg Error Value)}
    (each : ∀ parser ∈ alternatives, Yields room parser Good) :
    Yields room (firstOf alternatives) Good := by
  intro text fits
  induction alternatives with
  | nil => trivial
  | cons first later ih =>
    have bounded := each first List.mem_cons_self text fits
    have rest := ih fun parser member =>
      each parser (List.mem_cons_of_mem _ member)
    rw [firstOf_cons]
    cases outcome : first text with
    | failure => exact rest
    | success value left => rwa [outcome] at bounded
    | thrown error => trivial
    | exhausted => rwa [outcome] at bounded

theorem bounded_exactly (chars text : List Char) :
    Bounded (text.length - chars.length) (fun _ => True)
      (exactly chars text : Outcome Error Unit) := by
  induction chars generalizing text with
  | nil => simp [Bounded]
  | cons char chars ih =>
    cases text with
    | nil => trivial
    | cons head text =>
      rw [exactly_cons_cons]
      split
      · simpa only [List.length_cons, Nat.add_sub_add_right] using ih text
      · trivial

theorem yields_literal (chars : String) :
    Yields room (literal chars : Peg Error Unit) fun _ => True :=
  fun text _ => (bounded_exactly chars.toList text).mono (Nat.sub_le _ _)

theorem Yields.after_literal {chars : String} {following : Unit → Peg Error Other}
    (some : chars.toList ≠ []) (rest : ∀ less < room, Yields less (following ()) Fine) :
    Yields room (literal chars >>= following) Fine := by
  intro text fits
  have bounded : Bounded (text.length - chars.toList.length) (fun _ => True)
      (exactly chars.toList text : Outcome Error Unit) := bounded_exactly chars.toList text
  have positive := List.length_pos_iff.mpr some
  rw [bind_apply, literal]
  cases outcome : exactly chars.toList text with
  | success value left =>
    rw [outcome] at bounded
    cases text with
    | nil =>
      obtain ⟨head, tail, split⟩ := List.exists_cons_of_ne_nil some
      rw [split] at outcome
      cases outcome
    | cons head tail =>
      have shorter : left.length < (head :: tail).length := by
        have left := bounded.2
        rw [List.length_cons] at left ⊢
        omega
      exact (rest left.length (lt_of_lt_of_le shorter fits) left le_rfl).mono shorter.le
  | failure => trivial
  | thrown error => trivial
  | exhausted => rwa [outcome] at bounded

theorem yields_oneOf (member : Char → Bool) :
    Yields room (oneOf member : Peg Error Char) fun char => member char = true := by
  intro text fits
  cases text with
  | nil => trivial
  | cons char rest =>
    rw [oneOf]
    split
    · rename_i holds
      exact ⟨holds, Nat.le_succ _⟩
    · trivial

theorem yields_run (member : Char → Bool) :
    Yields room (run member : Peg Error (List Char)) fun chars =>
      ∀ char ∈ chars, member char = true :=
  fun _ _ => ⟨fun _ inside => List.mem_takeWhile_imp inside,
    (List.dropWhile_suffix member).length_le⟩

theorem yields_run1 (member : Char → Bool) :
    Yields room (run1 member : Peg Error (List Char)) fun chars =>
      chars ≠ [] ∧ ∀ char ∈ chars, member char = true := by
  refine (yields_oneOf member).bind fun char holds => (yields_run member).bind fun chars each => ?_
  exact yields_pure ⟨List.cons_ne_nil _ _, List.forall_mem_cons.mpr ⟨holds, each⟩⟩

theorem Yields.optional (yields : Yields room parser Good) :
    Yields room (optional parser) fun read => ∀ value ∈ read, Good value := by
  intro text fits
  have bounded := yields text fits
  rw [Peg.optional]
  cases outcome : parser text with
  | success value rest =>
    rw [outcome] at bounded
    exact ⟨fun other same => Option.some.inj same ▸ bounded.1, bounded.2⟩
  | failure => exact ⟨fun other absent => absurd absent (by simp), le_refl _⟩
  | thrown error => trivial
  | exhausted => rwa [outcome] at bounded

theorem Yields.upTo (yields : Yields room parser Good) (times : Nat) :
    Yields room (upTo parser times) fun values => ∀ value ∈ values, Good value := by
  induction times with
  | zero => exact yields_pure (fun value absent => absurd absent List.not_mem_nil)
  | succ times ih =>
    intro text fits
    have bounded := yields text fits
    rw [Peg.upTo]
    cases outcome : parser text with
    | success value rest =>
      rw [outcome] at bounded
      refine Bounded.mono ((ih rest (bounded.2.trans fits)).followedBy
        (bounded.2.trans fits) fun values each => ?_) bounded.2
      exact yields_pure (List.forall_mem_cons.mpr ⟨bounded.1, each⟩)
    | failure => exact ⟨fun value absent => absurd absent List.not_mem_nil, le_refl _⟩
    | thrown error => trivial
    | exhausted => rwa [outcome] at bounded

theorem Yields.star (yields : Yields room parser Good) :
    Yields room (star parser) fun values => ∀ value ∈ values, Good value :=
  fun text fits => yields.upTo text.length text fits

end Yielding

end Peg

end Senars.Library
