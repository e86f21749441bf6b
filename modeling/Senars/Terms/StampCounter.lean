/-
This file is about the counter stamps get their identifiers from: a signed cell of 32
bits, which minting an identifier takes one further and observing one takes past the
number it ends with. No identifier repeats while the cell does not wrap around.
-/

import Senars.Library.NumberText
import Senars.Library.Runs

namespace Senars.Terms

open Library

/-- The counter of a thread. What has been minted and observed so far is kept beside it. -/
structure StampCounter where
  threadId : ℕ
  counterView : BitVec 32 := 0
  minted : List String := []
  observed : List String := []
  deriving DecidableEq

inductive CounterEvent where
  | mint
  | observe (id : String)
  deriving DecidableEq

/-- What follows the last colon of a text, if there is one. -/
def afterLastColon (text : String) : Option String :=
  if ':' ∈ text.toList then
    some (String.ofList (text.toList.reverse.takeWhile (· ≠ ':')).reverse)
  else none

/-- The whole number that a number is, unless it is below zero. -/
def wholeOf : JsNumber → Option ℕ
  | .finite value => if value.den = 1 ∧ 0 ≤ value then some value.num.toNat else none
  | _ => none

/-- The number an identifier ends with; none in a foreign format. -/
def numberOfId (id : String) : Option ℕ :=
  (afterLastColon id).bind fun text => wholeOf (numberOf text)

/-- `n + 1`, which is rounded where it is large. -/
def successor (n : ℕ) : ℕ := (wholeOf (toDouble (n + 1 : ℕ))).getD 0

namespace StampCounter

/-- The identifier that is minted at a count. -/
def idAt (threadId : ℕ) (count : ℤ) : String := toString threadId ++ ":" ++ toString count

def nextStampId (counter : StampCounter) : String :=
  idAt counter.threadId counter.counterView.toInt

/-- Mint an identifier: the cell is one further, wrapping around. -/
def mint (counter : StampCounter) : StampCounter :=
  { counter with
    counterView := counter.counterView + 1
    minted := counter.minted ++ [counter.nextStampId] }

/-- The cell after an identifier has been observed: past the number of the identifier, which is cut
down to 32 bits. -/
def observeStampId (counter : StampCounter) (id : String) : BitVec 32 :=
  match numberOfId id with
  | none => counter.counterView
  | some n =>
    if counter.counterView.toInt ≤ n then BitVec.ofNat 32 (successor n)
    else counter.counterView

def observe (counter : StampCounter) (id : String) : StampCounter :=
  { counter with
    counterView := counter.observeStampId id
    observed := counter.observed ++ [id] }

def step : Machine StampCounter CounterEvent
  | counter, .mint => some counter.mint
  | counter, .observe id => some (counter.observe id)

/-- What happens mints no identifier that has been minted or observed before, and the counter does
not decrease. -/
def NeverRepeats (counter : StampCounter) : CounterEvent → Prop
  | .mint =>
    counter.nextStampId ∉ counter.minted ∧ counter.nextStampId ∉ counter.observed ∧
      counter.counterView.toInt ≤ counter.mint.counterView.toInt
  | .observe id => counter.counterView.toInt ≤ (counter.observe id).counterView.toInt

/-- What happens does not take the counter beyond 32 bits: it mints below the greatest number, and
what it observes is below the count, or the next number after it is, cut down to 32 bits, not
below the count nor negative. -/
def Fits (counter : StampCounter) : CounterEvent → Prop
  | .mint => counter.counterView ≠ BitVec.intMax 32
  | .observe id => ∀ n, numberOfId id = some n → counter.counterView.toInt ≤ n →
      counter.counterView.toInt ≤ (successor n % 2 ^ 32 : ℕ) ∧ successor n % 2 ^ 32 < 2 ^ 31

/-! ### Identifiers -/

theorem idAt_injective (threadId : ℕ) {first second : ℕ}
    (same : idAt threadId first = idAt threadId second) : first = second := by
  have chars := congrArg String.toList same
  simp only [idAt, String.toList_append, List.append_cancel_left_eq] at chars
  have digits : Nat.toDigits 10 first = Nat.toDigits 10 second := by
    rw [← Nat.toList_repr, ← Nat.toList_repr]
    exact chars
  have numbers := congrArg (fun digits => Nat.ofDigitChars 10 digits 0) digits
  simpa using numbers

theorem afterLastColon_append {before after} (plain : ':' ∉ after.toList) :
    afterLastColon (before ++ ":" ++ after) = some after := by
  have chars : (before ++ ":" ++ after).toList = before.toList ++ ':' :: after.toList := by
    simp
  unfold afterLastColon
  rw [chars, if_pos (by simp), List.reverse_append, List.reverse_cons, List.append_assoc,
    List.takeWhile_append_of_pos]
  · simp
  · intro char member
    rw [List.mem_reverse] at member
    exact decide_eq_true fun same => plain (same ▸ member)

theorem numberOfId_idAt {threadId count : ℕ} (small : count < 2 ^ 53) :
    numberOfId (idAt threadId count) = some count := by
  have plain : ':' ∉ (Nat.repr count).toList := by
    rw [Nat.toList_repr]
    intro member
    exact absurd (Nat.isDigit_of_mem_toDigits (by decide) (by decide) member) (by decide)
  have ends : afterLastColon (idAt threadId count) = some (Nat.repr count) :=
    afterLastColon_append plain
  unfold numberOfId
  rw [ends, Option.bind_some, numberOf_repr small]
  simp [wholeOf]

theorem successor_eq {n} (small : n + 1 < 2 ^ 53) : successor n = n + 1 := by
  unfold successor
  rw [toDouble_natCast small]
  have positive : (0 : ℚ) ≤ (n + 1 : ℕ) := Nat.cast_nonneg _
  simp only [wholeOf, Rat.den_natCast, Rat.num_natCast, positive, and_self, if_true,
    Int.toNat_natCast, Option.getD_some]

/-! ### The cell -/

/-- The counter is not below zero, and past all that has been minted or observed and that it could
mint. -/
structure Past (counter : StampCounter) : Prop where
  natural : 0 ≤ counter.counterView.toInt
  minted : ∀ id ∈ counter.minted, ∃ count : ℕ, id = idAt counter.threadId count ∧
    count < counter.counterView.toInt
  observed : ∀ count : ℕ, count < 2 ^ 31 → idAt counter.threadId count ∈ counter.observed →
    count < counter.counterView.toInt

theorem toInt_lt (cell : BitVec 32) : cell.toInt < 2 ^ 31 := by
  have bounds := BitVec.toInt_lt (x := cell)
  simpa using bounds

variable {cell : BitVec 32} {counter : StampCounter}

theorem ne_intMax_iff (natural : 0 ≤ cell.toInt) :
    cell ≠ BitVec.intMax 32 ↔ cell.toNat + 1 < 2 ^ 31 := by
  have greatest : (BitVec.intMax 32).toNat = 2 ^ 31 - 1 := by decide
  rw [BitVec.toInt_eq_toNat_cond] at natural
  rw [ne_eq, ← BitVec.toNat_inj]
  omega

theorem toInt_add_one (natural : 0 ≤ cell.toInt) (room : cell ≠ BitVec.intMax 32) :
    (cell + 1).toInt = cell.toInt + 1 := by
  have small := (ne_intMax_iff natural).mp room
  have one : (1 : BitVec 32).toNat = 1 := by decide
  rw [BitVec.toInt_eq_toNat_cond, BitVec.toInt_eq_toNat_cond, BitVec.toNat_add]
  omega

theorem le_toInt_add_one (natural : 0 ≤ cell.toInt) :
    cell ≠ BitVec.intMax 32 ↔ cell.toInt ≤ (cell + 1).toInt := by
  have one : (1 : BitVec 32).toNat = 1 := by decide
  rw [ne_intMax_iff natural]
  rw [BitVec.toInt_eq_toNat_cond] at natural
  rw [BitVec.toInt_eq_toNat_cond, BitVec.toInt_eq_toNat_cond, BitVec.toNat_add]
  omega

theorem toInt_ofNat_of_small {n} (small : n % 2 ^ 32 < 2 ^ 31) :
    (BitVec.ofNat 32 n).toInt = (n % 2 ^ 32 : ℕ) := by
  simp only [BitVec.toInt_eq_toNat_cond, BitVec.toNat_ofNat]
  omega

theorem le_toInt_ofNat {least n} (natural : 0 ≤ least) :
    least ≤ (BitVec.ofNat 32 n).toInt ↔
      least ≤ (n % 2 ^ 32 : ℕ) ∧ n % 2 ^ 32 < 2 ^ 31 := by
  simp only [BitVec.toInt_eq_toNat_cond, BitVec.toNat_ofNat]
  omega

theorem fits_observe_iff (id : String) (natural : 0 ≤ counter.counterView.toInt) :
    counter.Fits (.observe id) ↔
      counter.counterView.toInt ≤ (counter.observeStampId id).toInt := by
  cases read : numberOfId id with
  | none =>
    simp only [Fits, observeStampId, read]
    exact iff_of_true (fun n other => by cases other) le_rfl
  | some n =>
    simp only [Fits, observeStampId, read, Option.some.injEq, forall_eq']
    split
    · next reaches => rw [le_toInt_ofNat natural, imp_iff_right reaches]
    · next below => exact iff_of_true (fun reaches => absurd reaches below) le_rfl

theorem lt_of_observe {count : ℕ} (small : count < 2 ^ 31)
    (fits : counter.Fits (.observe (idAt counter.threadId count))) :
    count < (counter.observeStampId (idAt counter.threadId count)).toInt := by
  have read : numberOfId (idAt counter.threadId count) = some count :=
    numberOfId_idAt (lt_trans small (by decide : 2 ^ 31 < 2 ^ 53))
  unfold observeStampId
  simp only [read]
  split
  · next reaches =>
    obtain ⟨_, stays⟩ := fits count read reaches
    have next : successor count = count + 1 := successor_eq (by omega)
    rw [toInt_ofNat_of_small stays]
    omega
  · omega

theorem Past.repeats_step_iff (past : counter.Past) (event : CounterEvent) :
    counter.Fits event ↔ counter.NeverRepeats event := by
  cases event with
  | observe id => exact fits_observe_iff id past.natural
  | mint =>
    unfold Fits NeverRepeats
    rw [le_toInt_add_one past.natural]
    obtain ⟨count, at_⟩ := Int.eq_ofNat_of_zero_le past.natural
    have named : counter.nextStampId = idAt counter.threadId count := by
      rw [nextStampId, at_]
    have small := toInt_lt counter.counterView
    have unminted : counter.nextStampId ∉ counter.minted := by
      intro member
      obtain ⟨other, same, below⟩ := past.minted _ member
      cases idAt_injective _ (named.symm.trans same)
      omega
    have unobserved : counter.nextStampId ∉ counter.observed := by
      intro member
      rw [named] at member
      have below := past.observed count (by omega) member
      omega
    simp [unminted, unobserved, mint]

theorem Past.step {counter next event} (past : counter.Past)
    (taken : step counter event = some next) (fits : counter.Fits event) : next.Past := by
  cases event with
  | mint =>
    cases taken
    have further : counter.mint.counterView.toInt = counter.counterView.toInt + 1 :=
      toInt_add_one past.natural fits
    have natural := past.natural
    refine ⟨by omega, fun id member => ?_, fun count small member => ?_⟩
    · rcases List.mem_append.mp member with before | new
      · obtain ⟨count, named, below⟩ := past.minted id before
        exact ⟨count, named, by omega⟩
      · obtain ⟨count, at_⟩ := Int.eq_ofNat_of_zero_le past.natural
        cases List.mem_singleton.mp new
        exact ⟨count, by rw [nextStampId, at_]; rfl, by omega⟩
    · have below := past.observed count small member
      omega
  | observe id =>
    cases taken
    have grows : counter.counterView.toInt ≤ (counter.observe id).counterView.toInt :=
      (fits_observe_iff id past.natural).mp fits
    have natural := past.natural
    refine ⟨by omega, fun other member => ?_, fun count small member => ?_⟩
    · obtain ⟨count, named, below⟩ := past.minted other member
      exact ⟨count, named, by omega⟩
    · rcases List.mem_append.mp member with before | new
      · have below := past.observed count small before
        omega
      · have named : idAt counter.threadId count = id := List.mem_singleton.mp new
        subst named
        exact lt_of_observe small fits

theorem past_initial (threadId : ℕ) : ({ threadId } : StampCounter).Past := by
  refine ⟨le_of_eq (by decide : 0 = (0 : BitVec 32).toInt), ?_, ?_⟩
  · rintro id ⟨⟩
  · rintro count _ ⟨⟩

/-- No identifier repeats and the counter never decreases exactly where nothing that happens takes
the counter beyond 32 bits. -/
theorem neverRepeats_iff (threadId : ℕ) (events : List CounterEvent) :
    Run.Meets step NeverRepeats { threadId } events ↔ Run.Meets step Fits { threadId } events := by
  have agree : ∀ counter event next, counter.Past → step counter event = some next →
      (counter.Fits event ↔ counter.NeverRepeats event) :=
    fun _ event _ past _ => past.repeats_step_iff event
  have keeps : ∀ counter event next, counter.Past → step counter event = some next →
      counter.Fits event → next.Past := fun _ _ _ past taken fits => past.step taken fits
  exact (Run.meets_iff agree keeps (past_initial threadId)).symm

/-- Observing the greatest number a signed cell of 32 bits holds. -/
def observesGreatest : List CounterEvent := [.observe "0:2147483647"]

theorem observe_greatest_decreases :
    ¬ ∀ (threadId : ℕ) (events : List CounterEvent),
      Run.Meets step NeverRepeats { threadId } events := by
  intro always
  have decreases : ¬ (0 : BitVec 32).toInt ≤
      (({ threadId := 0 } : StampCounter).observeStampId "0:2147483647").toInt := by
    decide +kernel
  have meets : Run.Meets step NeverRepeats { threadId := 0 }
      ([] ++ .observe "0:2147483647" :: []) := always 0 observesGreatest
  exact decreases (meets.at_event (.nil _))

end StampCounter

end Senars.Terms
