/-
This file is the approval service: requests that wait in a registry, the answers that
take them out of it, and the gates that wait for an answer under a deadline.

One turn of the event loop is a script, which asks and answers, or the deadline of one
gate. After either, the gates whose requests have been answered go on. The state also
records what was asked and what every answer returned, which no step reads.
-/

import Senars.Library.OrderedMap
import Senars.Library.Runs

namespace Senars.Async

open Library

inductive CapabilityRisk where
  | low
  | medium
  | high
  deriving DecidableEq

def CapabilityRisk.text : CapabilityRisk → String
  | .low => "low"
  | .medium => "medium"
  | .high => "high"

structure ApprovalRequest (Id : Type) where
  id : Id
  request : String
  action : String
  risk : CapabilityRisk
  deriving DecidableEq

structure ApprovalResult where
  approved : Bool
  reason : Option String
  deriving DecidableEq

/-- `Verdict<'approved', 'feedback'>` -/
structure GateVerdict where
  approved : Bool
  feedback : Option String
  deriving DecidableEq

/-- The arguments of one call of `resolveApproval`. -/
structure Answer (Id : Type) where
  id : Id
  approved : Bool
  reason : Option String
  deriving DecidableEq

section Answers

variable {Id : Type}

def Answer.result (answer : Answer Id) : ApprovalResult := ⟨answer.approved, answer.reason⟩

/-- The verdict of a gate whose request got the result. -/
def ApprovalResult.verdict (result : ApprovalResult) : GateVerdict :=
  ⟨result.approved, result.reason⟩

def Answer.verdict (answer : Answer Id) : GateVerdict := answer.result.verdict

/-- The answer of a gate that does not ask. -/
def headlessAnswer (id : Id) : Answer Id := ⟨id, false, some "Auto-rejected: headless mode"⟩

/-- The answer of a gate that stops waiting. -/
def timeoutAnswer (id : Id) : Answer Id := ⟨id, false, some "Approval error: Approval timeout"⟩

/-- The ids that are made, none of them twice. -/
structure IdSource (Id : Type) where
  make : ℕ → Id
  fresh : make.Injective

/-- Ids made by counting. -/
def counting : IdSource ℕ := ⟨id, Function.injective_id⟩

/-- What a gate is asked, whether the environment says `CI` or `SENARS_HEADLESS`, and the answers
that the observer of the registry gives before the request is returned. -/
structure Ask (Id : Type) where
  action : String
  payload : String
  risk : CapabilityRisk
  ci : Bool
  senarsHeadless : Bool
  observed : List (Answer Id)

def Ask.headless (ask : Ask Id) : Bool := ask.ci || ask.senarsHeadless

def Ask.text (ask : Ask Id) : String :=
  ask.action ++ "\n\nPayload: " ++ ask.payload ++ "\nRisk: " ++ ask.risk.text

def Ask.toRequest (ask : Ask Id) (id : Id) : ApprovalRequest Id :=
  ⟨id, ask.text, ask.action, ask.risk⟩

end Answers

/-! ### The service -/

/-- The registry, the results of the requests' promises, the gates that wait with a timer, the
verdicts they gave, and a record of what was asked and answered. -/
structure Approvals (Id : Type) where
  pending : OrderedMap Id (ApprovalRequest Id)
  results : Id → Option ApprovalResult
  waiting : Id → Bool
  verdicts : Id → List GateVerdict
  asked : List (Id × Ask Id)
  answers : List (Answer Id × Bool)

namespace Approvals

variable {Id : Type} [DecidableEq Id]

def start : Approvals Id where
  pending := .empty
  results _ := none
  waiting _ := false
  verdicts _ := []
  asked := []
  answers := []

/-- A promise keeps the first result it gets. -/
def resolve (approvals : Approvals Id) (id : Id) (result : ApprovalResult) : Approvals Id :=
  { approvals with
    results := Function.update approvals.results id
      (some ((approvals.results id).getD result)) }

/-- `#take` -/
def take (approvals : Approvals Id) (id : Id) :
    Option (ApprovalRequest Id) × Approvals Id :=
  (approvals.pending.get id, { approvals with pending := approvals.pending.delete id })

def resolveApproval (approvals : Approvals Id) (answer : Answer Id) : Bool × Approvals Id :=
  match approvals.take answer.id with
  | (none, rest) => (false, rest)
  | (some request, rest) => (true, rest.resolve request.id answer.result)

/-- An answer, and a record of what it returned. -/
def answer (approvals : Approvals Id) (answer : Answer Id) : Approvals Id :=
  let (returned, rest) := approvals.resolveApproval answer
  { rest with answers := rest.answers ++ [(answer, returned)] }

def createRequest (approvals : Approvals Id) (id : Id) (ask : Ask Id) : Approvals Id :=
  ask.observed.foldl answer
    { approvals with
      pending := approvals.pending.set id (ask.toRequest id)
      asked := approvals.asked ++ [(id, ask)] }

/-- A gate gives its verdict and disposes its timer. -/
def conclude (approvals : Approvals Id) (id : Id) (verdict : GateVerdict) : Approvals Id :=
  { approvals with
    waiting := Function.update approvals.waiting id false
    verdicts := Function.update approvals.verdicts id (approvals.verdicts id ++ [verdict]) }

/-- A gate answers its own request, and gives that answer as its verdict. -/
def refuse (approvals : Approvals Id) (given : Answer Id) : Approvals Id :=
  (approvals.answer given).conclude given.id given.verdict

/-- The part of `requestApproval` before it waits. -/
def requestApproval (ids : IdSource Id) (approvals : Approvals Id) (ask : Ask Id) :
    Approvals Id :=
  let id := ids.make approvals.asked.length
  let created := approvals.createRequest id ask
  if ask.headless then created.refuse (headlessAnswer id)
  else { created with waiting := Function.update created.waiting id true }

/-- Waiting gates whose requests got a result give it as their verdict, and dispose their
timers. -/
def goOn (approvals : Approvals Id) : Approvals Id :=
  { approvals with
    waiting := fun id => approvals.waiting id && (approvals.results id).isNone
    verdicts := fun id =>
      if approvals.waiting id then
        approvals.verdicts id ++ ((approvals.results id).map ApprovalResult.verdict).toList
      else approvals.verdicts id }

/-- The part of `requestApproval` after the deadline. -/
def timeOut (approvals : Approvals Id) (id : Id) : Approvals Id :=
  approvals.refuse (timeoutAnswer id)

inductive Act (Id : Type) where
  | request (ask : Ask Id)
  | answer (answer : Answer Id)

def act (ids : IdSource Id) (approvals : Approvals Id) : Act Id → Approvals Id
  | .request ask => approvals.requestApproval ids ask
  | .answer given => approvals.answer given

inductive Turn (Id : Type) where
  | script (acts : List (Act Id))
  | timeout (id : Id)

/-- A turn. A deadline passes only while its timer is armed. -/
def turn (ids : IdSource Id) : Machine (Approvals Id) (Turn Id)
  | approvals, .script acts => some (acts.foldl (act ids) approvals).goOn
  | approvals, .timeout id =>
    if approvals.waiting id then some (approvals.timeOut id).goOn else none

end Approvals

/-! ### How one request stands -/

/-- What the service holds of one id, and the answers to it that returned true. -/
structure Standing (Id : Type) where
  pending : Option (ApprovalRequest Id)
  result : Option ApprovalResult
  waiting : Bool
  verdicts : List GateVerdict
  accepted : List (Answer Id)

namespace Standing

variable {Id : Type} (standing : Standing Id)

/-- An id that was not asked about. -/
def unasked : Standing Id := ⟨none, none, false, [], []⟩

def answered (answer : Answer Id) : Standing Id :=
  match standing.pending with
  | none => standing
  | some _ =>
    { standing with
      pending := none
      result := some (standing.result.getD answer.result)
      accepted := standing.accepted ++ [answer] }

def concluded (verdict : GateVerdict) : Standing Id :=
  { standing with waiting := false, verdicts := standing.verdicts ++ [verdict] }

/-- A gate that does not ask refuses, and another waits. -/
def gated (ask : Ask Id) (id : Id) : Standing Id :=
  if ask.headless then
    (standing.answered (headlessAnswer id)).concluded (headlessAnswer id).verdict
  else { standing with waiting := true }

def wentOn : Standing Id :=
  { standing with
    waiting := standing.waiting && standing.result.isNone
    verdicts := if standing.waiting then
      standing.verdicts ++ (standing.result.map ApprovalResult.verdict).toList
      else standing.verdicts }

end Standing

namespace Approvals

section Standing

variable {Id : Type} [DecidableEq Id] (approvals : Approvals Id) (id : Id)

/-- The answers to an id that returned true. -/
def acceptedIn (answers : List (Answer Id × Bool)) : List (Answer Id) :=
  (answers.filter fun entry => entry.2 && decide (entry.1.id = id)).map (·.1)

def standing : Standing Id where
  pending := approvals.pending.get id
  result := approvals.results id
  waiting := approvals.waiting id
  verdicts := approvals.verdicts id
  accepted := acceptedIn id approvals.answers

/-- The requests of the registry are under their ids. -/
def Keyed : Prop := ∀ id request, approvals.pending.get id = some request → request.id = id

end Standing

section Steps

variable {Id : Type} [DecidableEq Id] {approvals : Approvals Id} {id : Id} {given : Answer Id}

theorem acceptedIn_concat (answers : List (Answer Id × Bool)) (given : Answer Id)
    (returned : Bool) : acceptedIn id (answers ++ [(given, returned)]) =
      acceptedIn id answers ++ if returned ∧ given.id = id then [given] else [] := by
  rw [acceptedIn, List.filter_append, List.map_append]
  congr 1
  by_cases holds : returned ∧ given.id = id
  · simp [holds]
  · rw [if_neg holds, List.filter_eq_nil_iff.mpr, List.map_nil]
    simpa using holds

theorem answer_of_absent (absent : approvals.pending.get given.id = none) :
    approvals.answer given =
      { approvals with
        pending := approvals.pending.delete given.id
        answers := approvals.answers ++ [(given, false)] } := by
  simp only [answer, resolveApproval, take, absent]

theorem answer_of_pending {request} (present : approvals.pending.get given.id = some request) :
    approvals.answer given =
      { approvals with
        pending := approvals.pending.delete given.id
        results := Function.update approvals.results request.id
          (some ((approvals.results request.id).getD given.result))
        answers := approvals.answers ++ [(given, true)] } := by
  simp only [answer, resolveApproval, take, present, resolve]

theorem Keyed.answer (keyed : approvals.Keyed) (given : Answer Id) :
    (approvals.answer given).Keyed := by
  intro id request found
  have kept : (approvals.pending.delete given.id).get id = some request := by
    cases present : approvals.pending.get given.id with
    | none => rwa [answer_of_absent present] at found
    | some _ => rwa [answer_of_pending present] at found
  rw [OrderedMap.get_delete] at kept
  split at kept
  · cases kept
  · exact keyed id request kept

theorem standing_answer (keyed : approvals.Keyed) (given : Answer Id) :
    (approvals.answer given).standing id =
      if given.id = id then (approvals.standing id).answered given else approvals.standing id := by
  cases present : approvals.pending.get given.id with
  | none =>
    have same : (approvals.answer given).standing id = approvals.standing id := by
      rw [answer_of_absent present]
      have kept : (approvals.pending.delete given.id).get id = approvals.pending.get id := by
        rw [OrderedMap.get_delete]
        split_ifs with own
        · rw [own, present]
        · rfl
      simp only [standing, kept, acceptedIn_concat, Bool.false_eq_true, false_and, if_false,
        List.append_nil]
    rw [same]
    split_ifs with own
    · rw [← own, Standing.answered]
      simp only [standing, present]
    · rfl
  | some request =>
    rw [answer_of_pending present, keyed _ _ present]
    split_ifs with own
    · subst own
      simp only [standing, Standing.answered, present, OrderedMap.get_delete, if_true,
        Function.update_self, acceptedIn_concat, and_self]
    · have other : ¬ id = given.id := fun same => own same.symm
      simp only [standing, OrderedMap.get_delete, if_neg other, Function.update_of_ne other,
        acceptedIn_concat, own, and_false, if_false, List.append_nil]

theorem standing_conclude (verdict : GateVerdict) (other : Id) :
    (approvals.conclude other verdict).standing id =
      if id = other then (approvals.standing id).concluded verdict else approvals.standing id := by
  split_ifs with own
  · rw [own]
    simp [conclude, standing, Standing.concluded]
  · simp [conclude, standing, own]

theorem standing_refuse (keyed : approvals.Keyed) (given : Answer Id) :
    (approvals.refuse given).standing id =
      if id = given.id then ((approvals.standing id).answered given).concluded given.verdict
      else approvals.standing id := by
  rw [refuse, standing_conclude, standing_answer keyed]
  split_ifs with own other other
  · rfl
  · exact absurd own.symm other
  · exact absurd other.symm own
  · rfl

theorem standing_goOn : approvals.goOn.standing id = (approvals.standing id).wentOn := rfl

theorem asked_answer (approvals : Approvals Id) (given : Answer Id) :
    (approvals.answer given).asked = approvals.asked := by
  cases present : approvals.pending.get given.id with
  | none => rw [answer_of_absent present]
  | some _ => rw [answer_of_pending present]

theorem asked_answers (approvals : Approvals Id) (observed : List (Answer Id)) :
    (observed.foldl answer approvals).asked = approvals.asked := by
  induction observed generalizing approvals with
  | nil => rfl
  | cons given observed induction => exact (induction _).trans (asked_answer approvals given)

theorem Keyed.answers (keyed : approvals.Keyed) (observed : List (Answer Id)) :
    (observed.foldl Approvals.answer approvals).Keyed := by
  induction observed generalizing approvals with
  | nil => exact keyed
  | cons given observed induction => exact induction (keyed.answer given)

theorem standing_answers (keyed : approvals.Keyed) (observed : List (Answer Id)) :
    (observed.foldl answer approvals).standing id =
      (observed.filter (·.id = id)).foldl Standing.answered (approvals.standing id) := by
  induction observed generalizing approvals with
  | nil => rfl
  | cons given observed induction =>
    rw [List.foldl_cons, induction (keyed.answer given), standing_answer keyed]
    by_cases own : given.id = id
    · rw [if_pos own, List.filter_cons_of_pos (by simpa using own), List.foldl_cons]
    · rw [if_neg own, List.filter_cons_of_neg (by simpa using own)]

theorem keyed_createRequest (keyed : approvals.Keyed) (id : Id) (ask : Ask Id) :
    (approvals.createRequest id ask).Keyed := by
  refine Keyed.answers (fun other request found => ?_) ask.observed
  rw [OrderedMap.get_set] at found
  split_ifs at found with own
  · exact (Option.some.inj found) ▸ own.symm
  · exact keyed other request found

theorem standing_createRequest (keyed : approvals.Keyed) (ask : Ask Id) (other : Id) :
    (approvals.createRequest id ask).standing other =
      (ask.observed.filter (·.id = other)).foldl Standing.answered
        (if other = id then
          { approvals.standing other with pending := some (ask.toRequest id) }
        else approvals.standing other) := by
  refine (standing_answers (fun other request found => ?_) ask.observed).trans ?_
  · rw [OrderedMap.get_set] at found
    split_ifs at found with own
    · exact (Option.some.inj found) ▸ own.symm
    · exact keyed other request found
  · congr 1
    split_ifs with own
    · simp only [standing, OrderedMap.get_set, if_pos own]
    · simp only [standing, OrderedMap.get_set, if_neg own]

theorem standing_requestApproval (keyed : approvals.Keyed) (ids : IdSource Id) (ask : Ask Id)
    (id : Id) :
    (approvals.requestApproval ids ask).standing id =
      if id = ids.make approvals.asked.length then
        ((approvals.createRequest (ids.make approvals.asked.length) ask).standing id).gated ask
          (ids.make approvals.asked.length)
      else (approvals.createRequest (ids.make approvals.asked.length) ask).standing id := by
  have created := keyed_createRequest keyed (ids.make approvals.asked.length) ask
  rw [requestApproval, Standing.gated]
  by_cases headless : ask.headless = true
  · rw [if_pos headless, if_pos headless, standing_refuse created]
    rfl
  · rw [if_neg headless]
    split_ifs with own
    · simp only [standing, own, Function.update_self]
    · simp only [standing, Function.update_of_ne own]

theorem asked_requestApproval (ids : IdSource Id) (ask : Ask Id) :
    (approvals.requestApproval ids ask).asked =
      approvals.asked ++ [(ids.make approvals.asked.length, ask)] := by
  have created : (approvals.createRequest (ids.make approvals.asked.length) ask).asked =
      approvals.asked ++ [(ids.make approvals.asked.length, ask)] := asked_answers _ ask.observed
  rw [requestApproval]
  split_ifs
  · exact (asked_answer _ _).trans created
  · exact created

theorem keyed_requestApproval (keyed : approvals.Keyed) (ids : IdSource Id) (ask : Ask Id) :
    (approvals.requestApproval ids ask).Keyed := by
  have created := keyed_createRequest keyed (ids.make approvals.asked.length) ask
  rw [requestApproval]
  split_ifs
  · exact created.answer _
  · exact created

end Steps

end Approvals

/-! ### What a request can come to -/

section Stands

variable {Id : Type} {standing : Standing Id} {id : Id} {ask : Ask Id} {given : Answer Id}

/-- The verdict is the answer's, or that of a gate that does not ask and whose request was answered
by its observer. -/
def Agrees (id : Id) (ask : Ask Id) (given : Answer Id) (verdict : GateVerdict) : Prop :=
  verdict = given.verdict ∨
    ask.headless = true ∧ (∃ observed ∈ ask.observed, observed.id = id) ∧
      verdict = (headlessAnswer id).verdict

/-- A request waits, was answered in this turn, or is settled. -/
inductive Stands (id : Id) (ask : Ask Id) : Standing Id → Prop
  | waits : Stands id ask ⟨some (ask.toRequest id), none, true, [], []⟩
  | answered (given : Answer Id) : Stands id ask ⟨none, some given.result, true, [], [given]⟩
  | settled (given : Answer Id) (verdict : GateVerdict) (agrees : Agrees id ask given verdict) :
    Stands id ask ⟨none, some given.result, false, [verdict], [given]⟩

theorem Stands.answer (stands : Stands id ask standing) (given : Answer Id) :
    Stands id ask (standing.answered given) := by
  cases stands with
  | waits => exact .answered given
  | answered given => exact .answered given
  | settled given verdict agrees => exact .settled given verdict agrees

theorem Stands.answers (stands : Stands id ask standing) (observed : List (Answer Id)) :
    Stands id ask (observed.foldl Standing.answered standing) := by
  induction observed generalizing standing with
  | nil => exact stands
  | cons given observed induction => exact induction (stands.answer given)

theorem Stands.wentOn (stands : Stands id ask standing) : Stands id ask standing.wentOn := by
  cases stands with
  | waits => exact .waits
  | answered given => exact .settled given _ (.inl rfl)
  | settled given verdict agrees => exact .settled given verdict agrees

theorem Stands.timedOut (stands : Stands id ask standing) (unanswered : standing.result = none) :
    (standing.answered (timeoutAnswer id)).concluded (timeoutAnswer id).verdict =
      ⟨none, some (timeoutAnswer id).result, false, [(timeoutAnswer id).verdict],
        [timeoutAnswer id]⟩ := by
  cases stands with
  | waits => rfl
  | answered given => cases unanswered
  | settled given verdict agrees => cases unanswered

theorem answered_of_closed (closed : standing.pending = none) (observed : List (Answer Id)) :
    observed.foldl Standing.answered standing = standing := by
  induction observed with
  | nil => rfl
  | cons given observed induction =>
    have same : standing.answered given = standing := by rw [Standing.answered, closed]
    rw [List.foldl_cons, same, induction]

theorem stands_gated [DecidableEq Id] (id : Id) (ask : Ask Id) :
    Stands id ask (((ask.observed.filter (·.id = id)).foldl Standing.answered
      ⟨some (ask.toRequest id), none, false, [], []⟩).gated ask id) := by
  unfold Standing.gated
  cases observed : ask.observed.filter (·.id = id) with
  | nil =>
    split_ifs
    · exact .settled (headlessAnswer id) _ (.inl rfl)
    · exact .waits
  | cons given others =>
    have closed : (given :: others).foldl Standing.answered
        ⟨some (ask.toRequest id), none, false, [], []⟩ =
          ⟨none, some given.result, false, [], [given]⟩ := answered_of_closed rfl others
    obtain ⟨isIn, own⟩ := List.mem_filter.mp (observed ▸ List.mem_cons_self)
    rw [closed]
    split_ifs with headless
    · exact .settled given _ (.inr ⟨headless, ⟨given, isIn, of_decide_eq_true own⟩, rfl⟩)
    · exact .answered given

end Stands

/-! ### What every turn keeps -/

namespace Approvals

section Consistent

variable {Id : Type} [DecidableEq Id] {ids : IdSource Id} {approvals next : Approvals Id}

/-- Every id that was made has a request that stands as one can, and others have none. -/
structure Consistent (ids : IdSource Id) (approvals : Approvals Id) : Prop where
  keyed : approvals.Keyed
  made : approvals.asked.map (·.1) = (List.range approvals.asked.length).map ids.make
  unasked : ∀ id ∉ approvals.asked.map (·.1), approvals.standing id = .unasked
  stands : ∀ entry ∈ approvals.asked, Stands entry.1 entry.2 (approvals.standing entry.1)

/-- No gate waits for a result that is there. -/
def Rested (approvals : Approvals Id) : Prop :=
  ∀ id, approvals.waiting id = true → approvals.results id = none

theorem consistent_start : (start : Approvals Id).Consistent ids where
  keyed _ _ found := nomatch found
  made := rfl
  unasked _ _ := rfl
  stands _ isIn := nomatch isIn

theorem Consistent.of_standing (consistent : approvals.Consistent ids) (keyed : next.Keyed)
    (asked : next.asked = approvals.asked)
    (unasked : ∀ id ∉ approvals.asked.map (·.1), next.standing id = .unasked)
    (stands : ∀ entry ∈ approvals.asked, Stands entry.1 entry.2 (next.standing entry.1)) :
    next.Consistent ids := by
  refine ⟨keyed, ?_, ?_, ?_⟩
  · rw [asked, consistent.made]
  · rwa [asked]
  · rwa [asked]

theorem Consistent.answer (consistent : approvals.Consistent ids) (given : Answer Id) :
    (approvals.answer given).Consistent ids := by
  refine consistent.of_standing (consistent.keyed.answer given) (asked_answer approvals given)
    (fun id absent => ?_) fun entry isIn => ?_
  · rw [standing_answer consistent.keyed, consistent.unasked id absent]
    split_ifs <;> rfl
  · rw [standing_answer consistent.keyed]
    split_ifs
    · exact (consistent.stands entry isIn).answer given
    · exact consistent.stands entry isIn

theorem Consistent.goOn (consistent : approvals.Consistent ids) :
    approvals.goOn.Consistent ids := by
  refine consistent.of_standing consistent.keyed rfl (fun id absent => ?_) fun entry isIn => ?_
  · rw [standing_goOn, consistent.unasked id absent]
    rfl
  · rw [standing_goOn]
    exact (consistent.stands entry isIn).wentOn

omit [DecidableEq Id] in
theorem rested_goOn (approvals : Approvals Id) : approvals.goOn.Rested := by
  intro id waits
  exact Option.isNone_iff_eq_none.mp (Bool.and_eq_true_iff.mp waits).2

theorem Consistent.make_notMem (consistent : approvals.Consistent ids) :
    ids.make approvals.asked.length ∉ approvals.asked.map (·.1) := by
  rw [consistent.made]
  intro isIn
  obtain ⟨number, below, same⟩ := List.mem_map.mp isIn
  rw [ids.fresh same] at below
  exact absurd (List.mem_range.mp below) (lt_irrefl _)

theorem Consistent.nodup (consistent : approvals.Consistent ids) :
    (approvals.asked.map (·.1)).Nodup := by
  rw [consistent.made]
  exact List.nodup_range.map ids.fresh

theorem Consistent.requestApproval (consistent : approvals.Consistent ids) (ask : Ask Id) :
    (approvals.requestApproval ids ask).Consistent ids := by
  have new := consistent.unasked _ consistent.make_notMem
  have standing (id : Id) := standing_requestApproval consistent.keyed ids ask id
  simp only [standing_createRequest consistent.keyed] at standing
  have others {id : Id} (isIn : id ∈ approvals.asked.map (·.1)) :
      id ≠ ids.make approvals.asked.length := fun same => consistent.make_notMem (same ▸ isIn)
  refine ⟨keyed_requestApproval consistent.keyed ids ask, ?_, fun id absent => ?_,
    fun entry isIn => ?_⟩
  · rw [asked_requestApproval, List.map_append, List.length_append, consistent.made,
      List.length_singleton, List.range_succ, List.map_append]
    rfl
  · rw [asked_requestApproval, List.map_append, List.mem_append, not_or] at absent
    have different : id ≠ ids.make approvals.asked.length := fun same =>
      absent.2 (List.mem_singleton.mpr same)
    rw [standing, if_neg different, if_neg different, consistent.unasked id absent.1]
    exact answered_of_closed rfl _
  · rw [asked_requestApproval] at isIn
    obtain isIn | isNew := List.mem_append.mp isIn
    · have different := others (List.mem_map_of_mem isIn)
      rw [standing, if_neg different, if_neg different]
      exact (consistent.stands entry isIn).answers _
    · rw [List.mem_singleton.mp isNew, standing, if_pos rfl, if_pos rfl, new]
      exact stands_gated _ ask

theorem Consistent.act (consistent : approvals.Consistent ids) (act : Act Id) :
    (approvals.act ids act).Consistent ids := by
  cases act with
  | request ask => exact consistent.requestApproval ask
  | answer given => exact consistent.answer given

theorem Consistent.acts (consistent : approvals.Consistent ids) (acts : List (Act Id)) :
    (acts.foldl (Approvals.act ids) approvals).Consistent ids := by
  induction acts generalizing approvals with
  | nil => exact consistent
  | cons act acts induction => exact induction (consistent.act act)

theorem Consistent.mem_of_waiting (consistent : approvals.Consistent ids) {id}
    (waits : approvals.waiting id = true) : ∃ ask, (id, ask) ∈ approvals.asked := by
  by_contra absent
  have unasked := consistent.unasked id fun isIn => by
    obtain ⟨entry, entryIn, rfl⟩ := List.mem_map.mp isIn
    exact absent ⟨entry.2, entryIn⟩
  have idle : approvals.waiting id = false := congrArg Standing.waiting unasked
  rw [idle] at waits
  cases waits

theorem Consistent.timeOut (consistent : approvals.Consistent ids) (rested : approvals.Rested)
    {id} (waits : approvals.waiting id = true) : (approvals.timeOut id).Consistent ids := by
  refine consistent.of_standing ?_ ?_ (fun other absent => ?_) fun entry isIn => ?_
  · exact consistent.keyed.answer _
  · exact asked_answer approvals _
  · obtain ⟨ask, askIn⟩ := consistent.mem_of_waiting waits
    have different : ¬ other = (timeoutAnswer id).id := fun same =>
      absent (same ▸ List.mem_map_of_mem askIn)
    rw [Approvals.timeOut, standing_refuse consistent.keyed, if_neg different,
      consistent.unasked other absent]
  · rw [Approvals.timeOut, standing_refuse consistent.keyed]
    split_ifs with own
    · obtain rfl : entry.1 = id := own
      rw [(consistent.stands entry isIn).timedOut (rested _ waits)]
      exact .settled _ _ (.inl rfl)
    · exact consistent.stands entry isIn

theorem turn_keeps (turnIs : Turn Id) (taken : turn ids approvals turnIs = some next)
    (consistent : approvals.Consistent ids) (rested : approvals.Rested) :
    next.Consistent ids ∧ next.Rested := by
  cases turnIs with
  | script acts =>
    cases taken
    exact ⟨(consistent.acts acts).goOn, rested_goOn _⟩
  | timeout id =>
    by_cases waits : approvals.waiting id = true
    · rw [turn, if_pos waits] at taken
      cases taken
      exact ⟨(consistent.timeOut rested waits).goOn, rested_goOn _⟩
    · rw [turn, if_neg waits] at taken
      cases taken

theorem standing_of_run {turns : List (Turn Id)} (run : Run (turn ids) start turns approvals) :
    approvals.Consistent ids ∧ approvals.Rested := by
  let invariant (state : Approvals Id) : Prop := state.Consistent ids ∧ state.Rested
  have step : ∀ state turnIs next, invariant state → turn ids state turnIs = some next →
      invariant next := fun _ turnIs _ kept taken => turn_keeps turnIs taken kept.1 kept.2
  have starts : invariant start :=
    ⟨consistent_start, fun _ waits => absurd waits Bool.false_ne_true⟩
  have kept : invariant approvals := run.keeps step starts
  exact kept

end Consistent

/-! ### The verdicts -/

section Verdicts

variable {Id : Type} [DecidableEq Id] {ids : IdSource Id} {approvals : Approvals Id}

/-- A request that is not settled: it is in the registry, and no answer to it returned true. -/
structure Unsettled (approvals : Approvals Id) (id : Id) (ask : Ask Id) : Prop where
  pending : approvals.pending.get id = some (ask.toRequest id)
  accepted : acceptedIn id approvals.answers = []
  verdicts : approvals.verdicts id = []

/-- A settled request: it is not in the registry, one answer to it returned true and its gate gave
one verdict. -/
structure Settled (approvals : Approvals Id) (id : Id) (given : Answer Id) (verdict : GateVerdict) :
    Prop where
  pending : approvals.pending.get id = none
  accepted : acceptedIn id approvals.answers = [given]
  verdicts : approvals.verdicts id = [verdict]

/-- Requests have different ids, and each is settled or not, with a verdict that agrees. Other ids
are not in the registry, and all answers to them return false. -/
structure Agreed (approvals : Approvals Id) : Prop where
  nodup : (approvals.asked.map (·.1)).Nodup
  unasked : ∀ id ∉ approvals.asked.map (·.1),
    approvals.pending.get id = none ∧ acceptedIn id approvals.answers = []
  asked : ∀ entry ∈ approvals.asked, approvals.Unsettled entry.1 entry.2 ∨
    ∃ given verdict, approvals.Settled entry.1 given verdict ∧
      Agrees entry.1 entry.2 given verdict

theorem Consistent.agreed (consistent : approvals.Consistent ids) (rested : approvals.Rested) :
    approvals.Agreed where
  nodup := consistent.nodup
  unasked id absent :=
    have unasked := consistent.unasked id absent
    ⟨congrArg Standing.pending unasked, congrArg Standing.accepted unasked⟩
  asked entry isIn := by
    have stands := consistent.stands entry isIn
    generalize held : approvals.standing entry.1 = standing at stands
    have pending := congrArg Standing.pending held
    have accepted := congrArg Standing.accepted held
    have verdicts := congrArg Standing.verdicts held
    cases stands with
    | waits => exact .inl ⟨pending, accepted, verdicts⟩
    | answered given =>
      have none := rested entry.1 (congrArg Standing.waiting held)
      exact absurd ((congrArg Standing.result held).symm.trans none) nofun
    | settled given verdict agrees =>
      exact .inr ⟨given, verdict, ⟨pending, accepted, verdicts⟩, agrees⟩

theorem Consistent.times_out (consistent : approvals.Consistent ids) (rested : approvals.Rested)
    {entry} (isIn : entry ∈ approvals.asked) (unsettled : approvals.Unsettled entry.1 entry.2) :
    ∃ next, turn ids approvals (.timeout entry.1) = some next ∧
      next.Settled entry.1 (timeoutAnswer entry.1) (timeoutAnswer entry.1).verdict := by
  have stands := consistent.stands entry isIn
  have waits : approvals.waiting entry.1 = true := by
    generalize held : approvals.standing entry.1 = standing at stands
    cases stands with
    | waits => exact congrArg Standing.waiting held
    | answered given => exact congrArg Standing.waiting held
    | settled given verdict agrees =>
      exact absurd ((congrArg Standing.verdicts held).symm.trans unsettled.verdicts) nofun
  have held : (approvals.timeOut entry.1).goOn.standing entry.1 =
      ⟨none, some (timeoutAnswer entry.1).result, false, [(timeoutAnswer entry.1).verdict],
        [timeoutAnswer entry.1]⟩ := by
    have own : entry.1 = (timeoutAnswer entry.1).id := rfl
    rw [standing_goOn, Approvals.timeOut, standing_refuse consistent.keyed, if_pos own,
      stands.timedOut (rested _ waits)]
    rfl
  exact ⟨_, if_pos waits, congrArg Standing.pending held, congrArg Standing.accepted held,
    congrArg Standing.verdicts held⟩

/-- After any turns, every request has one answer that returned true and one verdict, which agree,
or waits in the registry with its deadline ahead. -/
theorem approvals_agree {turns : List (Turn Id)} (run : Run (turn ids) start turns approvals) :
    approvals.Agreed ∧
      ∀ entry ∈ approvals.asked, approvals.Unsettled entry.1 entry.2 →
        ∃ next, turn ids approvals (.timeout entry.1) = some next ∧
          next.Settled entry.1 (timeoutAnswer entry.1) (timeoutAnswer entry.1).verdict :=
  have ⟨consistent, rested⟩ := standing_of_run run
  ⟨consistent.agreed rested, fun _ isIn unsettled => consistent.times_out rested isIn unsettled⟩

/-- A gate times out, and an answer comes late. -/
theorem approvals_agree_late :
    ∃ approvals : Approvals ℕ,
      Run (turn counting) start
        [.script [.request ⟨"apply_fix", "diff", .high, false, false, []⟩], .timeout 0,
          .script [.answer ⟨0, true, none⟩]] approvals ∧ approvals.Agreed := by
  have run := run_of_execute (rfl : execute (turn counting) start
    [.script [.request ⟨"apply_fix", "diff", .high, false, false, []⟩], .timeout 0,
      .script [.answer ⟨0, true, none⟩]] = some _)
  exact ⟨_, run, (approvals_agree run).1⟩

/-- A gate that does not ask refuses what its observer granted. -/
theorem headless_overrules :
    ∃ approvals : Approvals ℕ,
      Run (turn counting) start
        [.script [.request ⟨"apply_fix", "diff", .high, false, true, [⟨0, true, none⟩]⟩]]
        approvals ∧
      approvals.Settled 0 ⟨0, true, none⟩ ⟨false, some "Auto-rejected: headless mode"⟩ ∧
      Answer.verdict (⟨0, true, none⟩ : Answer ℕ) ≠
        ⟨false, some "Auto-rejected: headless mode"⟩ := by
  have run := run_of_execute (rfl : execute (turn counting) start
    [.script [.request ⟨"apply_fix", "diff", .high, false, true, [⟨0, true, none⟩]⟩]] = some _)
  exact ⟨_, run, ⟨by decide, by decide, by decide⟩, by decide⟩

end Verdicts

end Approvals

end Senars.Async
