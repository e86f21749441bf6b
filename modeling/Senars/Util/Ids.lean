/-
This file is where ids are made: a count of the ids minted so far, and the id of a prefix,
the count and a token. The token is cut from a minted id, which raises the count, or from
a number a caller's own random source gives, which does not.

An id is read back as its count and token, so two ids of one prefix are equal exactly
when they have both in common. Whatever raises the count makes the next id new; a caller's
own source has to give a token that was not given at the same count.
-/

import Senars.Library.NumberWriting

namespace Senars.Util

open Library

/-! ### The ledger -/

/-- A number a caller can pass. -/
structure Number where
  value : JsNumber
  isDouble : value = .nan ∨ IsDouble value

/-- `minted`, and how many ids the installed source has given. -/
structure Ledger where
  minted : JsNumber
  given : ℕ
  deriving DecidableEq

/-- `minted++`: a double has its next whole number only where the doubles are close enough. -/
def increment : JsNumber → JsNumber
  | .finite count => toDouble (count + 1)
  | count => count

section Source

variable (source : ℕ → Units) (toBase36 : JsNumber → Units)

/-- `makeId`. -/
def makeId (ledger : Ledger) : Units × Ledger :=
  (source ledger.given, ⟨increment ledger.minted, ledger.given + 1⟩)

/-- `primeIdCount`. -/
def primeIdCount (count : Number) (ledger : Ledger) : Ledger :=
  if JsNumber.less ledger.minted count.value then { ledger with minted := count.value }
  else ledger

/-- The parts of an id. -/
structure GeneratedId where
  idPrefix : Units
  minted : JsNumber
  token : Units
  deriving DecidableEq

/-- The text of an id. -/
def GeneratedId.text (id : GeneratedId) : Units :=
  id.idPrefix ++ 45 :: (textUnits (numberToString id.minted) ++ 45 :: id.token)

/-- The token of a number that a random source gives: `rng().toString(36).slice(2, 6)`. -/
def drawnToken (draw : JsNumber) : Units := ((toBase36 draw).drop 2).take 4

/-- `generateId`, with what the caller's own source gives if there is one. -/
def generateId (idPrefix : Units) (rng : Option JsNumber) (ledger : Ledger) :
    GeneratedId × Ledger :=
  match rng with
  | some draw => (⟨idPrefix, ledger.minted, drawnToken toBase36 draw⟩, ledger)
  | none =>
    let made := makeId source ledger
    -- the token is made before the count is read
    (⟨idPrefix, made.2.minted, made.1.drop (made.1.length - 4)⟩, made.2)

/-! ### Runs -/

inductive Call where
  | makeId
  | generateId (idPrefix : Units) (rng : Option JsNumber)
  | primeIdCount (count : Number)

/-- The ids `generateId` returns, in order. -/
def generatedIds (ledger : Ledger) : List Call → List GeneratedId
  | [] => []
  | .makeId :: rest => generatedIds (makeId source ledger).2 rest
  | .primeIdCount count :: rest => generatedIds (primeIdCount count ledger) rest
  | .generateId idPrefix rng :: rest =>
    let made := generateId source toBase36 idPrefix rng ledger
    made.1 :: generatedIds made.2 rest

/-- The ledger of a process that begins. -/
def Ledger.start : Ledger := ⟨0, 0⟩

/-- No two ids of one prefix are equal. -/
def Distinct (ids : List GeneratedId) : Prop :=
  ids.Pairwise fun earlier later => earlier.idPrefix = later.idPrefix → earlier.text ≠ later.text

/-- A token that no earlier id of the prefix has at this count. -/
def IsNewToken (earlier : List GeneratedId) (idPrefix : Units) (minted : JsNumber)
    (token : Units) : Prop :=
  ∀ id ∈ earlier, id.idPrefix = idPrefix → id.minted = minted → id.token ≠ token

/-- Each id is made with a count that goes up, or with a token that is new at its count. An own
source does not raise the count. -/
def MintsAnew (ledger : Ledger) (earlier : List GeneratedId) : List Call → Prop
  | [] => True
  | .makeId :: rest => MintsAnew (makeId source ledger).2 earlier rest
  | .primeIdCount count :: rest => MintsAnew (primeIdCount count ledger) earlier rest
  | .generateId idPrefix (some draw) :: rest =>
    IsNewToken earlier idPrefix ledger.minted (drawnToken toBase36 draw) ∧
      MintsAnew ledger
        (earlier ++ [(generateId source toBase36 idPrefix (some draw) ledger).1]) rest
  | .generateId idPrefix none :: rest =>
    (increment ledger.minted ≠ ledger.minted ∨
      IsNewToken earlier idPrefix (increment ledger.minted)
        ((source ledger.given).drop ((source ledger.given).length - 4))) ∧
      MintsAnew (makeId source ledger).2
        (earlier ++ [(generateId source toBase36 idPrefix none ledger).1]) rest

end Source

/-! ### An id is read back -/

/-- The unit of a character that is one byte. -/
def asciiUnit (char : Char) : CodeUnit := Fin.ofNat 0x10000 char.toNat

theorem textUnits_eq_map {text} (ascii : ∀ char ∈ text.toList, char.toNat < 0x80) :
    textUnits text = text.toList.map asciiUnit := by
  unfold textUnits codeUnits
  generalize text.toList = chars at ascii
  induction chars with
  | nil => rfl
  | cons char rest ih =>
    have own := ascii char List.mem_cons_self
    rw [List.flatMap_cons, List.map_append, List.map_cons,
      ih fun other member => ascii other (List.mem_cons_of_mem _ member)]
    rw [charUnits, if_pos (own.trans (by decide))]
    rfl

theorem toNat_lt_of_isNumberChar {char} (written : isNumberChar char = true) :
    char.toNat < 0x80 := by
  rcases (Bool.or_eq_true _ _).mp written with decimal | named
  · rcases (Bool.or_eq_true _ _).mp decimal with digit | mark
    · rw [Char.isDigit, Bool.and_eq_true, decide_eq_true_eq, decide_eq_true_eq] at digit
      have high : char.toNat ≤ 57 := digit.2
      omega
    · have marks : ['.', 'e', '+', '-'].all (fun char => char.toNat < 0x80) = true := by decide
      exact of_decide_eq_true
        (List.all_eq_true.mp marks char (List.contains_iff_mem.mp mark))
  · have letters : "Infinity".toList.all (fun char => char.toNat < 0x80) = true := by decide
    exact of_decide_eq_true (List.all_eq_true.mp letters char (List.contains_iff_mem.mp named))

theorem eq_of_asciiUnit {char other} (low : char.toNat < 0x80) (otherLow : other.toNat < 0x80)
    (same : asciiUnit char = asciiUnit other) : char = other := by
  have values : char.toNat % 0x10000 = other.toNat % 0x10000 := congrArg Fin.val same
  rw [Nat.mod_eq_of_lt (by omega), Nat.mod_eq_of_lt (by omega)] at values
  exact Char.toNat_inj.mp values

/-- A count: a double that is not negative. -/
structure IsCount (number : JsNumber) : Prop where
  isDouble : IsDouble number
  nonneg : number.isNegative = false

theorem IsCount.ne_nan {number} (count : IsCount number) : number ≠ .nan := by
  rintro rfl
  exact count.isDouble

variable {first second : JsNumber} {ledger : Ledger} {earlier : List GeneratedId}

theorem count_append_inj (isCount : IsCount first) (otherCount : IsCount second)
    {firstRest secondRest : Units} (same : textUnits (numberToString first) ++ 45 :: firstRest =
      textUnits (numberToString second) ++ 45 :: secondRest) :
    first = second ∧ firstRest = secondRest := by
  have ends : ∀ number, IsCount number →
      EndsAtMark (45 : CodeUnit) 101 (textUnits (numberToString number)) := by
    intro number count
    have low : ∀ char ∈ (numberToString number).toList, char.toNat < 0x80 := fun char member =>
      toNat_lt_of_isNumberChar ((numberToString_chars count.ne_nan).2 char member)
    rw [textUnits_eq_map low]
    exact (endsAtMark_numberToString count.ne_nan count.nonneg).map
      (fun char member => eq_of_asciiUnit (low char member) (by decide))
      (fun char member => eq_of_asciiUnit (low char member) (by decide))
  obtain ⟨texts, rests⟩ :=
    EndsAtMark.append_inj (by decide) (ends first isCount) (ends second otherCount) same
  have numbers := congrArg numberOf (textUnits_injective texts)
  rw [numberOf_numberToString isCount.isDouble, numberOf_numberToString otherCount.isDouble]
    at numbers
  exact ⟨numbers, rests⟩

theorem text_eq_iff {first second : GeneratedId} (samePrefix : first.idPrefix = second.idPrefix)
    (isCount : IsCount first.minted) (otherCount : IsCount second.minted) :
    first.text = second.text ↔ first.minted = second.minted ∧ first.token = second.token := by
  constructor
  · intro same
    unfold GeneratedId.text at same
    rw [samePrefix] at same
    exact count_append_inj isCount otherCount (List.cons.inj (List.append_cancel_left same)).2
  · rintro ⟨counts, tokens⟩
    rw [GeneratedId.text, GeneratedId.text, samePrefix, counts, tokens]

/-! ### The count only goes up -/

theorem nonneg_of_lessEq (nonneg : first.isNegative = false)
    (le : JsNumber.lessEq first second = true) : second.isNegative = false := by
  cases first with
  | nan => cases le
  | infinite negative =>
    cases nonneg
    cases second with
    | nan => cases le
    | infinite negative => cases negative <;> first | rfl | cases le
    | finite value => cases le
  | finite value =>
    cases second with
    | nan => cases le
    | infinite negative => cases negative <;> first | rfl | cases le
    | finite other =>
      have low : 0 ≤ value := not_lt.mp (of_decide_eq_false nonneg)
      have above : value ≤ other := by simpa [JsNumber.lessEq] using le
      exact decide_eq_false (not_lt.mpr (low.trans above))

theorem eq_of_lessEq_of_lessEq (le : JsNumber.lessEq first second = true)
    (ge : JsNumber.lessEq second first = true) : first = second := by
  cases first <;> cases second <;> simp_all [JsNumber.lessEq, JsNumber.less]
  · grind
  · exact le_antisymm le ge

theorem lessEq_of_less (lt : JsNumber.less first second = true) :
    JsNumber.lessEq first second = true := by
  cases first <;> cases second <;> simp_all [JsNumber.lessEq, JsNumber.less]
  exact lt.le

theorem IsCount.increment {count} (isCount : IsCount count) :
    IsCount (increment count) ∧ JsNumber.lessEq count (increment count) = true := by
  obtain ⟨isDouble, nonneg⟩ := isCount
  cases count with
  | nan => exact isDouble.elim
  | infinite negative =>
    cases nonneg
    exact ⟨⟨trivial, rfl⟩, rfl⟩
  | finite value =>
    have low : 0 ≤ value := not_lt.mp (of_decide_eq_false nonneg)
    have double : toDouble value = .finite value := by
      have own : toDouble |value| = .finite |value| := isDouble
      rwa [abs_of_nonneg low] at own
    have above := lessEq_toDouble double low (le_add_of_nonneg_right zero_le_one)
    exact ⟨⟨isDouble_toDouble (by positivity), nonneg_of_lessEq nonneg above⟩, above⟩

theorem primeIdCount_spec (count : Number) (isCount : IsCount ledger.minted) :
    IsCount (primeIdCount count ledger).minted ∧
      JsNumber.lessEq ledger.minted (primeIdCount count ledger).minted = true := by
  unfold primeIdCount
  split
  · next above =>
    have le := lessEq_of_less above
    exact ⟨⟨count.isDouble.resolve_left (JsNumber.lessEq_iff.mp le).2.1,
      nonneg_of_lessEq isCount.nonneg le⟩, le⟩
  · exact ⟨isCount, JsNumber.lessEq_refl isCount.ne_nan⟩

/-- The count is one, and no earlier id has a greater one. -/
structure Behind (ledger : Ledger) (earlier : List GeneratedId) : Prop where
  isCount : IsCount ledger.minted
  counts : ∀ id ∈ earlier, IsCount id.minted ∧ JsNumber.lessEq id.minted ledger.minted = true

theorem Behind.raise {next} (behind : Behind ledger earlier) (isCount : IsCount next.minted)
    (above : JsNumber.lessEq ledger.minted next.minted = true) : Behind next earlier :=
  ⟨isCount, fun id member =>
    ⟨(behind.counts id member).1, JsNumber.lessEq_trans (behind.counts id member).2 above⟩⟩

theorem Behind.concat {id} (behind : Behind ledger earlier) (own : id.minted = ledger.minted) :
    Behind ledger (earlier ++ [id]) := by
  refine ⟨behind.isCount, List.forall_mem_append.mpr ⟨behind.counts, ?_⟩⟩
  rw [List.forall_mem_singleton, own]
  exact ⟨behind.isCount, JsNumber.lessEq_refl behind.isCount.ne_nan⟩

/-! ### Distinct ids -/

theorem isNewToken_iff {ledger earlier} (behind : Behind ledger earlier) {id : GeneratedId}
    (own : id.minted = ledger.minted) :
    IsNewToken earlier id.idPrefix ledger.minted id.token ↔
      ∀ old ∈ earlier, old.idPrefix = id.idPrefix → old.text ≠ id.text := by
  refine forall₂_congr fun old member => forall_congr' fun samePrefix => ?_
  rw [ne_eq, ne_eq, text_eq_iff samePrefix (behind.counts old member).1 (own ▸ behind.isCount), own,
    not_and]

theorem distinct_cons_iff {rest id differs} :
    (∀ old ∈ earlier, ∀ later ∈ id :: rest, differs old later) ∧ (id :: rest).Pairwise differs ↔
      (∀ old ∈ earlier, differs old id) ∧
        (∀ old ∈ earlier ++ [id], ∀ later ∈ rest, differs old later) ∧ rest.Pairwise differs := by
  simp only [List.forall_mem_cons, List.forall_mem_append, List.pairwise_cons, forall_and]
  tauto

section Source

variable {source : ℕ → Units} {toBase36 : JsNumber → Units}

theorem differs_of_raised {ledger earlier} (behind : Behind ledger earlier)
    (raised : increment ledger.minted ≠ ledger.minted) {old} (member : old ∈ earlier) :
    old.minted ≠ increment ledger.minted := by
  intro same
  have le := (behind.counts old member).2
  rw [same] at le
  exact raised (eq_of_lessEq_of_lessEq le behind.isCount.increment.2)

theorem mintsAnew_iff (calls : List Call) {ledger earlier} (behind : Behind ledger earlier) :
    MintsAnew source toBase36 ledger earlier calls ↔
      (∀ old ∈ earlier, ∀ later ∈ generatedIds source toBase36 ledger calls,
        old.idPrefix = later.idPrefix → old.text ≠ later.text) ∧
        Distinct (generatedIds source toBase36 ledger calls) := by
  induction calls generalizing ledger earlier with
  | nil => simp [MintsAnew, generatedIds, Distinct]
  | cons call rest ih =>
    have raised : Behind (makeId source ledger).2 earlier :=
      behind.raise behind.isCount.increment.1 behind.isCount.increment.2
    cases call with
    | makeId => exact ih raised
    | primeIdCount count =>
      obtain ⟨isCount, above⟩ := primeIdCount_spec count behind.isCount
      exact ih (behind.raise isCount above)
    | generateId idPrefix rng =>
      rw [generatedIds, Distinct, distinct_cons_iff]
      cases rng with
      | some draw =>
        have isNew := @isNewToken_iff _ _ behind
          (generateId source toBase36 idPrefix (some draw) ledger).1 rfl
        rw [← isNew]
        exact and_congr Iff.rfl (ih (behind.concat rfl))
      | none =>
        refine and_congr ?_ (ih (raised.concat rfl))
        have isNew := @isNewToken_iff _ _ raised
          (generateId source toBase36 idPrefix none ledger).1 rfl
        rw [← isNew]
        constructor
        · rintro (up | newToken)
          · intro old member _ same
            exact absurd same (differs_of_raised behind up member)
          · exact newToken
        · exact Or.inr

end Source

end Senars.Util
