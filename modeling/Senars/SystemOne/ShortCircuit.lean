/-
This file says when stopping early leaves the decision as it is.

The answers a decider reads are those of the queries up to the end of the chunk that
short-circuits, so it reads at least those up to the first query that triggers and at
most all of them. The decision is the least of their bands, and a chunk can end right
after the trigger: the size of the chunks does not matter exactly where no query after
the trigger gets a band below all those before. A trigger blocks, and abstaining is
below blocking.
-/

import Mathlib.Order.Basic
import Senars.SystemOne.Decide

namespace Senars.SystemOne

open Library Library.JsNumber

/-! ### Chunks -/

section Chunks

variable {Item : Type}

theorem flatten_chunkEvery {step} (positive : 0 < step) (fuel : Nat) (items : List Item)
    (enough : items.length ≤ fuel) : (chunkEvery step fuel items).flatten = items := by
  induction fuel generalizing items with
  | zero =>
    obtain rfl : items = [] := List.length_eq_zero_iff.mp (Nat.le_zero.mp enough)
    rfl
  | succ fuel induction =>
    cases items with
    | nil => rfl
    | cons item items =>
      have shorter : ((item :: items).drop step).length ≤ fuel := by
        rw [List.length_drop]
        omega
      rw [chunkEvery, List.flatten_cons, induction _ shorter, List.take_append_drop]
      exact List.cons_ne_nil _ _

theorem chunkEvery_one (items : List Item) :
    chunkEvery 1 items.length items = items.map ([·]) := by
  induction items with
  | nil => rfl
  | cons item items induction =>
    rw [List.length_cons, chunkEvery, List.drop_one, List.tail_cons, induction]
    · rfl
    · exact List.cons_ne_nil _ _

theorem step_of_number {size} (isNumber : size ≠ .nan) :
    JsNumber.max 1 (floor size) = .infinite false ∨
      ∃ step : ℚ, 1 ≤ step ∧ JsNumber.max 1 (floor size) = .finite step := by
  cases size with
  | nan => exact absurd rfl isNumber
  | infinite negative =>
    cases negative with
    | false => exact .inl rfl
    | true => exact .inr ⟨1, le_rfl, rfl⟩
  | finite value => exact .inr ⟨1 ⊔ (value.floor : ℚ), le_sup_left, max_finite 1 _⟩

theorem flatten_chunk {size} (isNumber : size ≠ .nan) (items : List Item) :
    (chunk items size).flatten = items := by
  obtain unending | ⟨step, atLeast, ends⟩ := step_of_number isNumber
  · rw [chunk, unending]
    cases items with
    | nil => rfl
    | cons item items => exact List.append_nil _
  · rw [chunk, ends]
    have positive : 0 < step.num := Rat.num_pos.mpr (zero_lt_one.trans_le atLeast)
    exact flatten_chunkEvery (by omega) _ _ le_rfl

theorem chunk_one (items : List Item) : chunk items 1 = items.map ([·]) := chunkEvery_one items

theorem chunk_unending {items : List Item} (nonempty : items ≠ []) :
    chunk items (.infinite false) = [items] := by
  cases items with
  | nil => exact absurd rfl nonempty
  | cons item items => rfl

end Chunks

/-! ### The most restrictive band -/

theorem bandOrdinal_injective {first second} (same : bandOrdinal first = bandOrdinal second) :
    first = second := by
  cases first <;> cases second <;> first | rfl | exact absurd same (by decide)

theorem bandOrdinal_le_act (band : BandDecision) : bandOrdinal band ≤ 2 := by
  cases band <;> decide

variable {bands : List BandDecision}

theorem le_foldl_restrict {bound start} :
    bound ≤ bandOrdinal (bands.foldl restrict start) ↔
      bound ≤ bandOrdinal start ∧ ∀ band ∈ bands, bound ≤ bandOrdinal band := by
  induction bands generalizing start with
  | nil => simp
  | cons band bands induction =>
    have both : bound ≤ bandOrdinal (restrict start band) ↔
        bound ≤ bandOrdinal start ∧ bound ≤ bandOrdinal band := by
      unfold restrict
      split <;> omega
    rw [List.foldl_cons, induction, both, List.forall_mem_cons, and_assoc]

theorem foldl_restrict_eq_start {start} :
    bands.foldl restrict start = start ↔ ∀ band ∈ bands, bandOrdinal start ≤ bandOrdinal band := by
  refine ⟨fun same => ?_, fun noLower => bandOrdinal_injective (le_antisymm ?_ ?_)⟩
  · exact (le_foldl_restrict.mp (le_of_eq (congrArg bandOrdinal same.symm))).2
  · exact (le_foldl_restrict.mp le_rfl).1
  · exact le_foldl_restrict.mpr ⟨le_rfl, noLower⟩

theorem foldl_restrict_le (nonempty : bands ≠ []) (band : BandDecision) :
    bandOrdinal (bands.foldl restrict .act) ≤ bandOrdinal band ↔
      ∃ earlier ∈ bands, bandOrdinal earlier ≤ bandOrdinal band := by
  rw [← not_iff_not, not_le, ← Int.add_one_le_iff, le_foldl_restrict]
  push Not
  refine ⟨fun above => above.2, fun above => ⟨?_, above⟩⟩
  obtain ⟨first, isIn⟩ := List.exists_mem_of_ne_nil bands nonempty
  exact (Int.add_one_le_iff.mpr (above first isIn)).trans (bandOrdinal_le_act first)

/-! ### Judging each query by itself -/

section Answering

variable {Details : Type} (bands : ConfidenceBands)
  (answer : DecideQuery Details → JudgmentProposition)

/-- A judge that answers each query independently of its batch. -/
def answering (slice : List (DecideQuery Details)) : Except String (List JudgmentProposition) :=
  .ok (slice.map answer)

/-- The query makes its chunk the last. -/
def triggers (query : DecideQuery Details) : Bool :=
  isSafetyFloor (some query.query) && (!(answer query).abstained && reachesAct (answer query))

/-- The band the query's verdict has once it is judged. -/
def answeredBand (query : DecideQuery Details) : BandDecision :=
  (headVerdict bands query (some (answer query))).band

theorem shortCircuits_answering (slice : List (DecideQuery Details)) :
    shortCircuits slice (slice.map answer) = .ok (slice.any (triggers answer)) := by
  induction slice with
  | nil => rfl
  | cons query slice induction =>
    rw [List.map_cons, shortCircuits, List.any_cons, triggers]
    cases isSafetyFloor (some query.query) with
    | false => exact induction
    | true =>
      show (if (!(answer query).abstained && reachesAct (answer query)) = true then Except.ok true
        else shortCircuits slice (slice.map answer)) = _
      cases !(answer query).abstained && reachesAct (answer query) with
      | false => exact induction
      | true => rfl

theorem judgeChunks_cons (slice : List (DecideQuery Details))
    (chunks : List (List (DecideQuery Details))) :
    judgeChunks (answering answer) (slice :: chunks) =
      if slice.any (triggers answer) then .ok (slice.map answer)
      else (judgeChunks (answering answer) chunks).map (slice.map answer ++ ·) := by
  show (do
    if ← shortCircuits slice (slice.map answer) then Except.ok (slice.map answer)
    else do
      let propositions ← judgeChunks (answering answer) chunks
      Except.ok (slice.map answer ++ propositions)) = _
  rw [shortCircuits_answering]
  cases slice.any (triggers answer) with
  | true => rfl
  | false => cases judgeChunks (answering answer) chunks <;> rfl

theorem judgeChunks_answering (chunks : List (List (DecideQuery Details))) :
    ∃ judged rest, chunks.flatten = judged ++ rest ∧
      judgeChunks (answering answer) chunks = .ok (judged.map answer) ∧
      (rest = [] ∨ ∃ query ∈ judged, triggers answer query = true) := by
  induction chunks with
  | nil => exact ⟨[], [], rfl, rfl, .inl rfl⟩
  | cons slice chunks induction =>
    obtain ⟨judged, rest, cut, runs, stopped⟩ := induction
    rw [judgeChunks_cons, runs, List.flatten_cons]
    by_cases triggered : slice.any (triggers answer) = true
    · exact ⟨slice, chunks.flatten, rfl, if_pos triggered, .inr (List.any_eq_true.mp triggered)⟩
    · refine ⟨slice ++ judged, rest, ?_, ?_, ?_⟩
      · rw [cut, List.append_assoc]
      · rw [if_neg triggered, List.map_append]
        rfl
      · exact stopped.imp id fun ⟨query, isIn, triggers⟩ =>
          ⟨query, List.mem_append_right _ isIn, triggers⟩

theorem judgeChunks_singles {before after trigger}
    (quiet : ∀ query ∈ before, triggers answer query = false)
    (triggered : triggers answer trigger = true) :
    judgeChunks (answering answer) ((before ++ trigger :: after).map ([·])) =
      .ok ((before ++ [trigger]).map answer) := by
  induction before with
  | nil =>
    rw [List.nil_append, List.map_cons, judgeChunks_cons, if_pos]
    · rfl
    · rw [List.any_cons, triggered, Bool.true_or]
  | cons query before induction =>
    have first := quiet query List.mem_cons_self
    have others := induction fun query isIn => quiet query (List.mem_cons_of_mem _ isIn)
    rw [List.cons_append, List.map_cons, judgeChunks_cons, others, if_neg]
    · rfl
    · rw [List.any_cons, first]
      exact Bool.false_ne_true

/-! ### The decided band -/

theorem evaluated_of_judged (judged rest : List (DecideQuery Details)) :
    ((judged ++ rest).mapIdx fun index query =>
        headVerdict bands query (judged.map answer)[index]?).filter (!·.skipped) =
      judged.map fun query => headVerdict bands query (some (answer query)) := by
  have counted : (judged.mapIdx fun index query =>
      headVerdict bands query (judged.map answer)[index]?) =
        judged.map fun query => headVerdict bands query (some (answer query)) := by
    refine List.ext_getElem (by simp) fun index inside _ => ?_
    have below : index < judged.length := by simpa using inside
    rw [List.getElem_mapIdx, List.getElem_map, List.getElem?_map,
      List.getElem?_eq_getElem below, Option.map_some]
  have skipped : ∀ verdict ∈ rest.mapIdx (fun index query =>
      headVerdict bands query (judged.map answer)[index + judged.length]?),
        verdict.skipped = true := by
    intro verdict isIn
    obtain ⟨index, inside, rfl⟩ := List.mem_mapIdx.mp isIn
    have missing : (judged.map answer)[index + judged.length]? = none := by
      rw [List.getElem?_eq_none_iff, List.length_map]
      omega
    rw [missing]
    rfl
  rw [List.mapIdx_append, List.filter_append, counted, List.filter_eq_self.mpr,
    List.filter_eq_nil_iff.mpr, List.append_nil]
  · intro verdict isIn
    rw [skipped verdict isIn]
    exact Bool.false_ne_true
  · intro verdict isIn
    obtain ⟨query, _, rfl⟩ := List.mem_map.mp isIn
    rfl

variable (router : Option ConfidenceBands) (queries : List (DecideQuery Details))
  (contrastive : Option JsNumber)

/-- The band decided with chunks of this size. -/
def decidedBand (maxBatchSize : Option JsNumber) : Except String BandDecision :=
  (Decider.decide ⟨answering answer, router, maxBatchSize⟩ queries contrastive).map (·.band)

/-- The band of a list of judged queries. -/
def bandOf (judged : List (DecideQuery Details)) : BandDecision :=
  (judged.map (answeredBand bands answer)).foldl restrict .act

variable {answer router queries contrastive}

theorem decidedBand_of_judged {maxBatchSize judged rest} (cut : queries = judged ++ rest)
    (runs : judgeChunks (answering answer)
      (chunk queries (JsNumber.max 1 (maxBatchSize.getD 64))) = .ok (judged.map answer)) :
    decidedBand answer router queries contrastive maxBatchSize =
      .ok (bandOf (router.getD defaultConfidenceBands) answer judged) := by
  have counted := evaluated_of_judged (router.getD defaultConfidenceBands) answer judged rest
  rw [← cut] at counted
  unfold decidedBand Decider.decide
  simp only [runs]
  show Except.ok _ = Except.ok _
  rw [counted, List.map_map]
  rfl

theorem exists_judged {maxBatchSize} (isNumber : maxBatchSize ≠ some .nan) :
    ∃ judged rest, queries = judged ++ rest ∧
      (rest = [] ∨ ∃ query ∈ judged, triggers answer query = true) ∧
      decidedBand answer router queries contrastive maxBatchSize =
        .ok (bandOf (router.getD defaultConfidenceBands) answer judged) := by
  have given : maxBatchSize.getD 64 ≠ .nan := by
    cases maxBatchSize with
    | none => decide
    | some size => exact fun same => isNumber (congrArg some same)
  have size : JsNumber.max 1 (maxBatchSize.getD 64) ≠ .nan := by
    have one : (1 : JsNumber) ≠ .nan := by decide
    rw [JsNumber.max, if_neg (not_or.mpr ⟨one, given⟩)]
    split_ifs
    · exact given
    · exact one
  obtain ⟨judged, rest, cut, runs, stopped⟩ :=
    judgeChunks_answering answer (chunk queries (JsNumber.max 1 (maxBatchSize.getD 64)))
  rw [flatten_chunk size] at cut
  exact ⟨judged, rest, cut, stopped, decidedBand_of_judged cut runs⟩

theorem decidedBand_one {before after trigger}
    (quiet : ∀ query ∈ before, triggers answer query = false)
    (triggered : triggers answer trigger = true) :
    decidedBand answer router (before ++ trigger :: after) contrastive (some 1) =
      .ok (bandOf (router.getD defaultConfidenceBands) answer (before ++ [trigger])) := by
  refine decidedBand_of_judged (List.append_cons before trigger after) ?_
  have one : JsNumber.max 1 ((some 1 : Option JsNumber).getD 64) = 1 := by decide +kernel
  rw [one, chunk_one]
  exact judgeChunks_singles answer quiet triggered

theorem decidedBand_unending :
    decidedBand answer router queries contrastive (some (.infinite false)) =
      .ok (bandOf (router.getD defaultConfidenceBands) answer queries) := by
  refine decidedBand_of_judged (List.append_nil queries).symm ?_
  have unending : JsNumber.max 1 ((some (.infinite false) : Option JsNumber).getD 64) =
      .infinite false := by decide +kernel
  rw [unending]
  cases queries with
  | nil => rfl
  | cons query queries =>
    rw [chunk_unending (List.cons_ne_nil query queries), judgeChunks_cons]
    split
    · rfl
    · show Except.ok (_ ++ []) = _
      rw [List.append_nil]

/-! ### When the chunks do not matter -/

theorem bandOf_append (bands : ConfidenceBands) (judged more : List (DecideQuery Details)) :
    bandOf bands answer (judged ++ more) = bandOf bands answer judged ↔
      ∀ later ∈ more,
        bandOrdinal (bandOf bands answer judged) ≤
          bandOrdinal (answeredBand bands answer later) := by
  have folded : bandOf bands answer (judged ++ more) =
      (more.map (answeredBand bands answer)).foldl restrict (bandOf bands answer judged) := by
    rw [bandOf, List.map_append, List.foldl_append]
    rfl
  rw [folded, foldl_restrict_eq_start, List.forall_mem_map]

/-- No query after the first that triggers gets a band below all bands up to the trigger's. -/
def NothingOverlooked (bands : ConfidenceBands) (answer : DecideQuery Details → JudgmentProposition)
    (queries : List (DecideQuery Details)) : Prop :=
  ∀ before trigger after, queries = before ++ trigger :: after →
    (∀ query ∈ before, triggers answer query = false) → triggers answer trigger = true →
    ∀ later ∈ after, ∃ earlier ∈ before ++ [trigger],
      bandOrdinal (answeredBand bands answer earlier) ≤
        bandOrdinal (answeredBand bands answer later)

theorem nothingOverlooked_iff (bands : ConfidenceBands) :
    NothingOverlooked bands answer queries ↔
      ∀ before trigger after, queries = before ++ trigger :: after →
        (∀ query ∈ before, triggers answer query = false) → triggers answer trigger = true →
        bandOf bands answer queries = bandOf bands answer (before ++ [trigger]) := by
  refine forall_congr' fun before => forall_congr' fun trigger => forall_congr' fun after =>
    forall_congr' fun cut => forall_congr' fun _ => forall_congr' fun _ => ?_
  rw [cut, List.append_cons before trigger after, bandOf_append]
  refine forall₂_congr fun later _ => ?_
  rw [bandOf, foldl_restrict_le (by simp)]
  simp only [List.mem_map, exists_exists_and_eq_and]

variable {query : DecideQuery Details}

/-- Any two chunk sizes give one band exactly where nothing is overlooked. A size that is not a
number judges nothing, and the decision is to act. -/
theorem decidedBand_same_iff (answer : DecideQuery Details → JudgmentProposition)
    (router : Option ConfidenceBands) (queries : List (DecideQuery Details))
    (contrastive : Option JsNumber) :
    ((∀ first second : Option JsNumber, first ≠ some .nan → second ≠ some .nan →
        ∃ band, decidedBand answer router queries contrastive first = .ok band ∧
          decidedBand answer router queries contrastive second = .ok band) ↔
      NothingOverlooked (router.getD defaultConfidenceBands) answer queries) ∧
    decidedBand answer router queries contrastive (some .nan) = .ok .act := by
  refine ⟨?_, ?_⟩
  · rw [nothingOverlooked_iff]
    refine ⟨fun same before trigger after cut quiet triggered => ?_, fun agrees => ?_⟩
    · obtain ⟨band, ofOne, ofAll⟩ := same (some 1) (some (.infinite false)) nofun nofun
      rw [decidedBand_unending] at ofAll
      rw [cut, decidedBand_one quiet triggered, ← ofAll] at ofOne
      exact (Except.ok.inj ofOne).symm
    · -- what is judged lies between the queries up to the trigger and all of them
      have ofAny : ∀ size, size ≠ some .nan →
          decidedBand answer router queries contrastive size =
            .ok (bandOf (router.getD defaultConfidenceBands) answer queries) := by
        intro size isNumber
        obtain ⟨judged, rest, cut, stopped, decided⟩ := exists_judged isNumber
        rw [decided]
        obtain rfl | ⟨_, someIn, someTriggers⟩ := stopped
        · rw [cut, List.append_nil]
        · obtain ⟨trigger, found⟩ :=
            Option.isSome_iff_exists.mp (List.find?_isSome.mpr ⟨_, someIn, someTriggers⟩)
          obtain ⟨triggered, before, more, rfl, quiet⟩ := List.find?_eq_some_iff_append.mp found
          rw [List.append_assoc, List.cons_append] at cut
          have first := agrees before trigger (more ++ rest) cut
            (fun query isIn => (Bool.not_eq_true' _).mp (quiet query isIn)) triggered
          rw [first]
          rw [cut, List.append_cons, bandOf_append] at first
          rw [List.append_cons, (bandOf_append _ _ more).mpr]
          exact fun later isIn => first later (List.mem_append_left _ isIn)
      exact fun first second firstNumber secondNumber =>
        ⟨_, ofAny first firstNumber, ofAny second secondNumber⟩
  · have noBatch : decidedBand answer router queries contrastive (some .nan) =
        .ok (bandOf (router.getD defaultConfidenceBands) answer []) := by
      refine decidedBand_of_judged (List.nil_append queries).symm ?_
      cases queries <;> rfl
    exact noBatch

end Answering

/-! ### A request that the chunks decide -/

/-- An injection query that scores above the top band, and a query on which the head abstains. -/
def injectionThenAbstaining : List (DecideQuery String) :=
  [⟨.evaluate .injection (some .high), "injection"⟩, ⟨.evaluate .relevance none, "relevance"⟩]

def injectionThenAbstainingAnswer (query : DecideQuery String) : JudgmentProposition where
  queryId := query.details
  backendId := "head"
  judgment := .evaluate
  score := some (.finite (9 / 10))
  tier := .tier1
  abstained := decide (query.details = "relevance")
  cost := some noCost

/-- In chunks of one the decision is to block, and in the default chunks to abstain. -/
theorem injection_blocks_or_abstains :
    decidedBand injectionThenAbstainingAnswer none injectionThenAbstaining none (some 1) =
        .ok .block ∧
      decidedBand injectionThenAbstainingAnswer none injectionThenAbstaining none none =
        .ok .abstain := by
  decide +kernel

end Senars.SystemOne
