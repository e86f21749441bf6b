/-
This file is the join between the recorded derivations and an answer: the first record
whose conclusion has the key of the answer is verified, and is attached if it passes.

A record that passes may stand behind one that does not, and one key may be that of two
terms, so what is attached depends on the first record of the key alone. The join finds a
verified derivation of the term exactly where that record is one, or where there is none.
-/

import Senars.Derivations.Lineage
import Senars.Grammar.Narsese
import Senars.Library.NumberText
import Senars.Terms.TermKey

namespace Senars.Query

open Library Senars.Terms Senars.Derivations

/-! ### Reading a term -/

section Parsing

variable (collator : Collator) (parseFloat : String → JsNumber)

/-- `TermParser.parse`: a text is trimmed and read as a term or as a task, whose term it then is.
A term the factory refused is no term. -/
def parseTerm (input : String) : Except String Term :=
  let validInput := String.ofList (trimmed input.toList)
  if validInput = "" then .error "Input must be a non-empty string"
  else
    match Grammar.parse collator parseFloat validInput with
    | .success (.term (some term)) _ => .ok term
    | .success (.task ⟨some term, _, _, _⟩) _ => .ok term
    | _ => .error "TermParser parsing failed"

end Parsing

/-! ### Selecting a derivation -/

structure VerifiedDerivation where
  record : DerivationRecord
  verification : VerificationResult

/-- The recorded conclusion is the last step's. -/
def conclusionOf (record : DerivationRecord) : Option String :=
  record.steps.getLast?.map (·.conclusion)

/-- What a selected record is verified with. -/
def strictOptions : VerifyOptions :=
  { strict := some true, epsilon := some (.finite (1 / 1000000)) }

section Selection

variable (collator : Collator) (parseFloat : String → JsNumber) (schema : SchemaLibrary)
  (format : NumberFormat) (now : Nat)

/-- The loop over the records: it returns at the first whose conclusion has the key. -/
def selectFrom (target : String) :
    List DerivationRecord → Except String (Option VerifiedDerivation)
  | [] => .ok none
  | record :: records =>
    match (conclusionOf record).filter (· ≠ "") with
    | none => selectFrom target records
    | some conclusion => do
      let term ← parseTerm collator parseFloat conclusion
      if termKey term ≠ target then selectFrom target records
      else do
        let verification ← verifyRecord schema format now record strictOptions
        .ok (if verification.ok then some ⟨record, verification⟩ else none)

def selectVerifiedDerivation (records : List DerivationRecord) (conclusionNarsese : String) :
    Except String (Option VerifiedDerivation) := do
  let target ← parseTerm collator parseFloat conclusionNarsese
  selectFrom collator parseFloat schema format now (termKey target) records

/-! ### What is selected -/

/-- The record concludes a term with this property. -/
def Concludes (property : Term → Prop) (record : DerivationRecord) : Prop :=
  ∃ conclusion ∈ conclusionOf record, ∃ term,
    parseTerm collator parseFloat conclusion = .ok term ∧ property term

/-- The record passes strict verification. -/
def Passes (record : DerivationRecord) : Prop :=
  ∃ verification, verifyRecord schema format now record strictOptions = .ok verification ∧
    verification.ok = true

/-- A derivation is returned exactly where a record concludes the term and passes, and the record
that is returned does. -/
structure Finds (records : List DerivationRecord) (target : Term)
    (selected : Except String (Option VerifiedDerivation)) : Prop where
  finds_iff : (∃ found, selected = .ok (some found)) ↔
    ∃ record ∈ records, Concludes collator parseFloat (· = target) record ∧
      Passes schema format now record
  found : ∀ found, selected = .ok (some found) → found.record ∈ records ∧
    Concludes collator parseFloat (· = target) found.record ∧
      Passes schema format now found.record

variable {collator parseFloat schema format now} {target : String} {record : DerivationRecord}
  {records : List DerivationRecord}

/-- A conclusion that is there and is not empty can be read. -/
def Legible (collator : Collator) (parseFloat : String → JsNumber) (record : DerivationRecord) :
    Prop :=
  ∀ conclusion ∈ conclusionOf record, conclusion ≠ "" →
    ∃ term, parseTerm collator parseFloat conclusion = .ok term

theorem parseTerm_empty : ¬ ∃ term, parseTerm collator parseFloat "" = .ok term := by
  rintro ⟨term, ⟨⟩⟩

/-- What the verdict on a record comes to. -/
def attached (record : DerivationRecord) (verified : Except String VerificationResult) :
    Except String (Option VerifiedDerivation) :=
  verified.map fun verification =>
    if verification.ok then some ⟨record, verification⟩ else none

theorem attached_eq_some {found : VerifiedDerivation}
    (attaches : attached record (verifyRecord schema format now record strictOptions) =
      .ok (some found)) :
    found.record = record ∧ Passes schema format now record := by
  unfold Passes
  cases verified : verifyRecord schema format now record strictOptions with
  | error message =>
    rw [verified] at attaches
    exact absurd attaches nofun
  | ok verification =>
    rw [verified] at attaches
    have attaches : (if verification.ok then some ⟨record, verification⟩ else none) = some found :=
      Except.ok.inj attaches
    by_cases ok : verification.ok = true
    · rw [if_pos ok] at attaches
      exact ⟨(congrArg (·.record) (Option.some.inj attaches)).symm, verification, rfl, ok⟩
    · rw [if_neg ok] at attaches
      exact absurd attaches nofun

theorem exists_attached (passes : Passes schema format now record) :
    ∃ found, attached record (verifyRecord schema format now record strictOptions) =
      .ok (some found) := by
  obtain ⟨verification, verified, ok⟩ := passes
  refine ⟨⟨record, verification⟩, ?_⟩
  rw [verified]
  exact congrArg Except.ok (if_pos ok)

theorem attached_of_rejected
    (rejected : (verifyRecord schema format now record strictOptions).map (·.ok) = .ok false) :
    attached record (verifyRecord schema format now record strictOptions) = .ok none := by
  cases verified : verifyRecord schema format now record strictOptions with
  | error message =>
    rw [verified] at rejected
    exact absurd rejected nofun
  | ok verification =>
    rw [verified] at rejected
    have fails : verification.ok = false := Except.ok.inj rejected
    show Except.ok (if verification.ok then _ else _) = _
    rw [fails]
    rfl

theorem selectFrom_cons {conclusion : String} {term : Term}
    (there : conclusionOf record = some conclusion)
    (parses : parseTerm collator parseFloat conclusion = .ok term) :
    selectFrom collator parseFloat schema format now target (record :: records) =
      if termKey term = target then
        attached record (verifyRecord schema format now record strictOptions)
      else selectFrom collator parseFloat schema format now target records := by
  have nonempty : conclusion ≠ "" := fun empty => parseTerm_empty ⟨term, empty ▸ parses⟩
  rw [selectFrom, there, Option.filter_some, if_pos (decide_eq_true nonempty)]
  dsimp only
  rw [parses]
  show (if termKey term ≠ target then _ else _) = _
  by_cases same : termKey term = target
  · rw [if_neg (not_not_intro same), if_pos same]
    cases verifyRecord schema format now record strictOptions <;> rfl
  · rw [if_pos same, if_neg same]

theorem selectFrom_cons_of_not (legible : Legible collator parseFloat record)
    (other : ¬ Concludes collator parseFloat (termKey · = target) record) :
    selectFrom collator parseFloat schema format now target (record :: records) =
      selectFrom collator parseFloat schema format now target records := by
  cases there : conclusionOf record with
  | none =>
    rw [selectFrom, there]
    rfl
  | some conclusion =>
    by_cases empty : conclusion = ""
    · rw [selectFrom, there, empty]
      rfl
    · obtain ⟨term, parses⟩ := legible conclusion there empty
      rw [selectFrom_cons there parses, if_neg]
      exact fun same => other ⟨conclusion, there, term, parses, same⟩

theorem selectFrom_cons_of (concludes : Concludes collator parseFloat (termKey · = target) record) :
    selectFrom collator parseFloat schema format now target (record :: records) =
      attached record (verifyRecord schema format now record strictOptions) := by
  obtain ⟨conclusion, there, term, parses, same⟩ := concludes
  rw [selectFrom_cons there parses, if_pos same]

theorem selectVerifiedDerivation_of_parses {conclusionNarsese : String} {target : Term}
    (parses : parseTerm collator parseFloat conclusionNarsese = .ok target) :
    selectVerifiedDerivation collator parseFloat schema format now records conclusionNarsese =
      selectFrom collator parseFloat schema format now (termKey target) records := by
  rw [selectVerifiedDerivation, parses]
  rfl

theorem selectFrom_append {before : List DerivationRecord}
    (legible : ∀ earlier ∈ before, Legible collator parseFloat earlier)
    (others : ∀ earlier ∈ before, ¬ Concludes collator parseFloat (termKey · = target) earlier) :
    selectFrom collator parseFloat schema format now target (before ++ records) =
      selectFrom collator parseFloat schema format now target records := by
  induction before with
  | nil => rfl
  | cons earlier before induction =>
    rw [List.forall_mem_cons] at legible others
    rw [List.cons_append, selectFrom_cons_of_not legible.1 others.1, induction legible.2 others.2]

theorem exists_first (holds : DerivationRecord → Prop) (records : List DerivationRecord) :
    (∀ record ∈ records, ¬ holds record) ∨
      ∃ before first after, records = before ++ first :: after ∧
        (∀ earlier ∈ before, ¬ holds earlier) ∧ holds first := by
  induction records with
  | nil => exact .inl (List.forall_mem_nil _)
  | cons record records induction =>
    by_cases concludes : holds record
    · exact .inr ⟨[], record, records, rfl, List.forall_mem_nil _, concludes⟩
    · obtain none | ⟨before, first, after, rfl, others, isFirst⟩ := induction
      · exact .inl (List.forall_mem_cons.mpr ⟨concludes, none⟩)
      · exact .inr ⟨record :: before, first, after, rfl,
          List.forall_mem_cons.mpr ⟨concludes, others⟩, isFirst⟩

/-! ### When a verifiable derivation is found -/

/-- The first record of the key is a derivation of the term where it passes, and where it does
not, no later one is. -/
def FirstDecides (collator : Collator) (parseFloat : String → JsNumber) (schema : SchemaLibrary)
    (format : NumberFormat) (now : Nat) (records : List DerivationRecord) (target : Term) : Prop :=
  ∀ before first after, records = before ++ first :: after →
    (∀ earlier ∈ before, ¬ Concludes collator parseFloat (termKey · = termKey target) earlier) →
    Concludes collator parseFloat (termKey · = termKey target) first →
      (Passes schema format now first → Concludes collator parseFloat (· = target) first) ∧
      (¬ Passes schema format now first → ∀ later ∈ after,
        Concludes collator parseFloat (· = target) later → ¬ Passes schema format now later)

theorem Concludes.key {target : Term}
    (concludes : Concludes collator parseFloat (· = target) record) :
    Concludes collator parseFloat (termKey · = termKey target) record := by
  obtain ⟨conclusion, there, term, parses, rfl⟩ := concludes
  exact ⟨conclusion, there, term, parses, rfl⟩

/-- A verifiable derivation of the term is found exactly where the first record of its key is
one, or there is none. -/
theorem selectVerifiedDerivation_finds_iff (collator : Collator) (parseFloat : String → JsNumber)
    (schema : SchemaLibrary) (format : NumberFormat) (now : Nat) (records : List DerivationRecord)
    (conclusionNarsese : String) (target : Term)
    (legible : ∀ record ∈ records, Legible collator parseFloat record)
    (parses : parseTerm collator parseFloat conclusionNarsese = .ok target) :
    Finds collator parseFloat schema format now records target
        (selectVerifiedDerivation collator parseFloat schema format now records
          conclusionNarsese) ↔
      FirstDecides collator parseFloat schema format now records target := by
  rw [selectVerifiedDerivation_of_parses parses]
  refine ⟨fun finds before first after cut others isFirst => ?_, fun decides => ?_⟩
  · have selected : selectFrom collator parseFloat schema format now (termKey target) records =
        attached first (verifyRecord schema format now first strictOptions) := by
      rw [cut, selectFrom_append _ others, selectFrom_cons_of isFirst]
      exact fun earlier isIn => legible earlier (cut ▸ List.mem_append_left _ isIn)
    rw [selected] at finds
    refine ⟨fun passes => ?_, fun fails later isIn concludes passes => ?_⟩
    · obtain ⟨found, attaches⟩ := exists_attached passes
      exact (attached_eq_some attaches).1 ▸ (finds.found found attaches).2.1
    · have among : later ∈ records := cut ▸ List.mem_append_right _ (List.mem_cons_of_mem _ isIn)
      obtain ⟨found, attaches⟩ := finds.finds_iff.mpr ⟨later, among, concludes, passes⟩
      exact fails (attached_eq_some attaches).2
  · obtain noFirst | ⟨before, first, after, rfl, others, isFirst⟩ :=
      exists_first (Concludes collator parseFloat (termKey · = termKey target)) records
    · have nothing : selectFrom collator parseFloat schema format now (termKey target) records =
          .ok none := by
        rw [← List.append_nil records, selectFrom_append legible noFirst]
        rfl
      rw [nothing]
      refine ⟨⟨fun ⟨_, found⟩ => absurd found nofun, fun ⟨record, isIn, concludes, _⟩ => ?_⟩,
        fun _ found => absurd found nofun⟩
      exact absurd concludes.key (noFirst record isIn)
    · have selected : selectFrom collator parseFloat schema format now (termKey target)
          (before ++ first :: after) =
            attached first (verifyRecord schema format now first strictOptions) := by
        rw [selectFrom_append _ others, selectFrom_cons_of isFirst]
        exact fun earlier isIn => legible earlier (List.mem_append_left _ isIn)
      have firstIn : first ∈ before ++ first :: after :=
        List.mem_append_right _ List.mem_cons_self
      obtain ⟨concludes, noOther⟩ := decides before first after rfl others isFirst
      rw [selected]
      refine ⟨⟨fun ⟨found, attaches⟩ => ?_, fun ⟨record, isIn, isTarget, passes⟩ => ?_⟩,
        fun found attaches => ?_⟩
      · have passes := (attached_eq_some attaches).2
        exact ⟨first, firstIn, concludes passes, passes⟩
      · by_contra nothing
        have fails : ¬ Passes schema format now first := fun passes =>
          nothing (exists_attached passes)
        obtain earlier | rfl | later := by simpa using isIn
        · exact others record earlier isTarget.key
        · exact fails passes
        · exact noOther fails record later isTarget passes
      · obtain ⟨rfl, passes⟩ := attached_eq_some attaches
        exact ⟨firstIn, concludes passes, passes⟩

end Selection

/-! ### A record that does not pass, in front of one that does -/

/-- A record of one deduction, with these parents, that a robin is an animal. -/
def robinDeduced (evidenceLineage : List String) : DerivationRecord :=
  { oneStep evidenceLineage with
    steps := (oneStep evidenceLineage).steps.map fun step => { step with ruleId := "deduction" } }

def robinIsAnimal : Term := .compound .inheritance [.atom "robin", .atom "animal"]

theorem robinIsAnimal_parses :
    parseTerm codePointCollator numberOf "<robin --> animal>" = .ok robinIsAnimal := by
  decide +kernel

theorem legible_robinDeduced (evidenceLineage : List String) :
    Legible codePointCollator numberOf (robinDeduced evidenceLineage) := by
  intro conclusion there _
  obtain rfl : "<robin --> animal>" = conclusion := Option.some.inj there
  exact ⟨_, robinIsAnimal_parses⟩

theorem concludes_robinDeduced (evidenceLineage : List String) :
    Concludes codePointCollator numberOf (· = robinIsAnimal) (robinDeduced evidenceLineage) :=
  ⟨"<robin --> animal>", rfl, robinIsAnimal, robinIsAnimal_parses, rfl⟩

theorem robinDeduced_passes : Passes uuidSchema plainFormat 0 (robinDeduced []) := by
  have verified : (verifyRecord uuidSchema plainFormat 0 (robinDeduced []) strictOptions).map
      (·.ok) = .ok true := by decide +kernel
  exact exists_result_of_ok verified

/-- The record without parents is found. -/
theorem selectVerifiedDerivation_finds_iff_robin :
    Finds codePointCollator numberOf uuidSchema plainFormat 0 [robinDeduced []] robinIsAnimal
      (selectVerifiedDerivation codePointCollator numberOf uuidSchema plainFormat 0
        [robinDeduced []] "<robin --> animal>") := by
  refine (selectVerifiedDerivation_finds_iff _ _ _ _ _ _ _ _ ?_ robinIsAnimal_parses).mpr ?_
  · exact fun record isIn => List.mem_singleton.mp isIn ▸ legible_robinDeduced []
  · intro before first after cut _ _
    obtain ⟨rfl, rfl, rfl⟩ : before = [] ∧ robinDeduced [] = first ∧ after = [] := by
      cases before with
      | nil => simpa [eq_comm] using cut
      | cons earlier before => simp at cut
    exact ⟨fun _ => concludes_robinDeduced [],
      fun fails => absurd robinDeduced_passes fails⟩

/-- Behind a record whose parent is no step, it is not. -/
theorem robin_not_found :
    selectVerifiedDerivation codePointCollator numberOf uuidSchema plainFormat 0
        [robinDeduced ["nowhere"], robinDeduced []] "<robin --> animal>" = .ok none ∧
      Concludes codePointCollator numberOf (· = robinIsAnimal) (robinDeduced []) ∧
      Passes uuidSchema plainFormat 0 (robinDeduced []) := by
  refine ⟨?_, concludes_robinDeduced [], robinDeduced_passes⟩
  have rejected : (verifyRecord uuidSchema plainFormat 0 (robinDeduced ["nowhere"])
      strictOptions).map (·.ok) = .ok false := by decide +kernel
  have isFirst : Concludes codePointCollator numberOf (termKey · = termKey robinIsAnimal)
      (robinDeduced ["nowhere"]) := (concludes_robinDeduced ["nowhere"]).key
  rw [selectVerifiedDerivation_of_parses robinIsAnimal_parses, selectFrom_cons_of isFirst]
  exact attached_of_rejected rejected

end Senars.Query
