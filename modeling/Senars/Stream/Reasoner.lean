/-
This file is the stream reasoner: the requests that are queued, the flushes that
take them, and the provisional beliefs that are held for both.

A flush is two steps, since it waits for its backend: others may dispatch, flush or
drain in between. The number of requests waiting for an answer is not bounded by the
queue, and a flush whose backend throws leaves its beliefs behind. So the beliefs
are those of the requests that are queued or in flight exactly where no flush throws
and a request is taken only while there is room for its belief.

The provisional beliefs are kept in the bounded map of the recency cache. It is
only peeked at, so its order is the order the requests came in.
-/

import Mathlib.Data.List.Perm.Basic
import Senars.Algebra.Truth
import Senars.Library.Capped
import Senars.Library.Runs
import Senars.Unify.LruCache
import Std.Data.String.ToNat

namespace Senars.Stream

open Library Library.JsNumber Senars.Algebra Unify

structure LMRequest where
  id : String
  prompt : String
  derives : Bool
  deriving DecidableEq

inductive IndependenceStatus where
  | independent | dependent | unknown
  deriving DecidableEq

structure ProvisionalBelief where
  id : String
  truth : Truth
  requestId : String
  settled : Bool
  independence : Option IndependenceStatus := none

structure StreamReasonerOptions where
  maxBatch : Nat := 8
  provisionalConfidence : ℚ := 3 / 10
  highPressure : JsNumber := .finite (85 / 100)
  maxPending : Nat := 256
  maxDerived : Nat := 256
  confidence_nonneg : 0 ≤ provisionalConfidence
  confidence_le_max : provisionalConfidence ≤ maxConfidence

/-- The queue, the batches of the flushes that wait, the provisional beliefs, the derivations
that are settled, and the counters. -/
structure StreamReasoner (Task : Type) where
  options : StreamReasonerOptions
  queue : List LMRequest := []
  flushes : List (List LMRequest) := []
  provisionals : LruCache ProvisionalBelief
  derivedTasks : List Task := []
  seq : Nat := 0
  dropped : Nat := 0
  timedOut : Nat := 0

variable {Task : Type}

namespace StreamReasoner

def new (options : StreamReasonerOptions) : StreamReasoner Task where
  options
  provisionals := LruCache.new options.maxPending

def requestId (seq : Nat) : String := "lm-" ++ seq.repr

/-- The belief that stands for a request. -/
def provisionalOf (options : StreamReasonerOptions) (id : String) (prior : Option Truth) :
    ProvisionalBelief where
  id := "prov-" ++ id
  truth :=
    { f := (prior.map (·.f)).getD (1 / 2)
      c := options.provisionalConfidence
      f_nonneg := by cases prior with
        | none => norm_num
        | some truth => exact truth.f_nonneg
      f_le_one := by cases prior with
        | none => norm_num
        | some truth => exact truth.f_le_one
      c_nonneg := options.confidence_nonneg
      c_le_max := options.confidence_le_max }
  requestId := id
  settled := false

/-- Queue a request, where the queue is not full. -/
def dispatch (reasoner : StreamReasoner Task) (prompt : String) (prior : Option Truth)
    (derives : Bool) : Option ProvisionalBelief × StreamReasoner Task :=
  let seq := reasoner.seq + 1
  let id := requestId seq
  if reasoner.options.maxPending ≤ reasoner.queue.length then
    (none, { reasoner with seq, dropped := reasoner.dropped + 1 })
  else
    let provisional := provisionalOf reasoner.options id prior
    (some provisional,
      { reasoner with
        seq
        queue := reasoner.queue ++ [{ id, prompt, derives }]
        provisionals := reasoner.provisionals.set id provisional })

def occupancy (used capacity : Nat) : JsNumber :=
  if 0 < capacity then clamp01 (.finite used / .finite capacity) else 1

def pressure (reasoner : StreamReasoner Task) : JsNumber :=
  occupancy (max reasoner.queue.length reasoner.provisionals.entries.size)
    reasoner.options.maxPending

/-- Begin to flush: take a batch, unless the pressure is high, nothing is queued or the budget
gate refuses, which puts the batch back. -/
def flush (reasoner : StreamReasoner Task) (pressure : JsNumber) (granted : Bool) :
    StreamReasoner Task :=
  if lessEq reasoner.options.highPressure pressure then reasoner
  else
    let batch := reasoner.queue.take reasoner.options.maxBatch
    let queue := reasoner.queue.drop reasoner.options.maxBatch
    if batch = [] then { reasoner with queue }
    else if !granted then
      { reasoner with queue := trimCapped (batch ++ queue) reasoner.options.maxPending }
    else { reasoner with queue, flushes := reasoner.flushes ++ [batch] }

/-- Retire the requests of a batch, with the beliefs that settle by what was answered. -/
def retire (answered : OrderedMap String Truth) :
    LruCache ProvisionalBelief → List LMRequest →
      List ProvisionalBelief × LruCache ProvisionalBelief
  | provisionals, [] => ([], provisionals)
  | provisionals, request :: rest =>
    let provisional := provisionals.peek request.id
    let (settled, provisionals) := retire answered (provisionals.delete request.id) rest
    match answered.get request.id, provisional with
    | some truth, some belief =>
      if belief.independence = some .unknown then (settled, provisionals)
      else
        ({ belief with truth := Truth.revision belief.truth truth, settled := true } :: settled,
          provisionals)
    | _, _ => (settled, provisionals)

/-- What ends a flush: the backend and the derivations are done, the deadline, or an exception. -/
inductive FlushOutcome where
  | done (answered : OrderedMap String Truth)
  | timedOut
  | threw

/-- The end of a flush of a batch: the beliefs it returns, unless it throws. -/
def finish (reasoner : StreamReasoner Task) (batch : List LMRequest) :
    FlushOutcome → Option (List ProvisionalBelief) × StreamReasoner Task
  | .done answered =>
    let (settled, provisionals) := retire answered reasoner.provisionals batch
    (some settled, { reasoner with provisionals })
  | .timedOut =>
    (some [],
      { reasoner with
        timedOut := reasoner.timedOut + batch.length
        provisionals := batch.foldl (fun held request => held.delete request.id)
          reasoner.provisionals })
  | .threw => (none, reasoner)

/-- A derivation of a batch is done, of one that waits or of one that was given up. -/
def settleDerived (reasoner : StreamReasoner Task) (tasks : List Task) : StreamReasoner Task :=
  { reasoner with
    derivedTasks := trimCapped (reasoner.derivedTasks ++ tasks) reasoner.options.maxDerived }

def takeDerived (reasoner : StreamReasoner Task) : List Task × StreamReasoner Task :=
  (reasoner.derivedTasks, { reasoner with derivedTasks := [] })

theorem derivedTasks_dispatch (reasoner : StreamReasoner Task) (prompt : String)
    (prior : Option Truth) (derives : Bool) :
    (reasoner.dispatch prompt prior derives).2.derivedTasks = reasoner.derivedTasks := by
  unfold dispatch
  split <;> rfl

theorem derivedTasks_flush (reasoner : StreamReasoner Task) (pressure : JsNumber)
    (granted : Bool) : (reasoner.flush pressure granted).derivedTasks = reasoner.derivedTasks := by
  unfold flush
  dsimp only
  split
  · rfl
  · split
    · rfl
    · split <;> rfl

theorem derivedTasks_finish (reasoner : StreamReasoner Task) (batch : List LMRequest)
    (outcome : FlushOutcome) :
    (reasoner.finish batch outcome).2.derivedTasks = reasoner.derivedTasks := by
  cases outcome <;> rfl

/-! ### Runs -/

inductive Event (Task : Type) where
  | dispatch (prompt : String) (prior : Option Truth) (derives : Bool)
  | flush (pressure : JsNumber) (granted : Bool)
  | finish (index : Nat) (outcome : FlushOutcome)
  | settleDerived (tasks : List Task)
  | takeDerived

/-- The reasoner after an event. A flush that ends is one that waits. -/
def step (reasoner : StreamReasoner Task) : Event Task → Option (StreamReasoner Task)
  | .dispatch prompt prior derives => some (reasoner.dispatch prompt prior derives).2
  | .flush pressure granted => some (reasoner.flush pressure granted)
  | .finish index outcome =>
    reasoner.flushes[index]?.map fun batch =>
      ({ reasoner with flushes := reasoner.flushes.eraseIdx index }.finish batch outcome).2
  | .settleDerived tasks => some (reasoner.settleDerived tasks)
  | .takeDerived => some reasoner.takeDerived.2

/-- The requests that are queued or in flight. -/
def live (reasoner : StreamReasoner Task) : List LMRequest :=
  reasoner.queue ++ reasoner.flushes.flatten

def liveIds (reasoner : StreamReasoner Task) : List String := reasoner.live.map (·.id)

/-- The provisional beliefs are those of the requests that are queued or in flight. -/
structure Accounted (reasoner : StreamReasoner Task) : Prop where
  held : ∀ id, (reasoner.provisionals.peek id).isSome ↔ id ∈ reasoner.liveIds
  own : ∀ id belief, reasoner.provisionals.peek id = some belief → belief.requestId = id

/-- What holds of the requests themselves: each has a number of its own, no flush is empty, and
the queue is within its bound. -/
structure Numbered (reasoner : StreamReasoner Task) : Prop where
  nodup : reasoner.liveIds.Nodup
  issued : ∀ id ∈ reasoner.liveIds, ∃ seq ≤ reasoner.seq, id = requestId seq
  nonempty : ∀ batch ∈ reasoner.flushes, batch ≠ []
  bounded : reasoner.queue.length ≤ reasoner.options.maxPending
  maxSize : reasoner.provisionals.maxSize = max 1 reasoner.options.maxPending

/-- An event that keeps the account: a request comes while fewer than the bound are queued or in
flight, or is refused, and no flush throws. -/
def KeepsAccount (reasoner : StreamReasoner Task) : Event Task → Prop
  | .dispatch _ _ _ =>
    reasoner.live.length < reasoner.options.maxPending ∨
      reasoner.options.maxPending ≤ reasoner.queue.length
  | .finish _ .threw => False
  | _ => True

/-! ### The account -/

theorem requestId_injective {first second} (same : requestId first = requestId second) :
    first = second :=
  Nat.repr_injective (String.append_right_inj _ |>.mp same)

variable {reasoner next : StreamReasoner Task} {batch : List LMRequest} {event : Event Task}

theorem size_provisionals (accounted : reasoner.Accounted) (numbered : reasoner.Numbered) :
    reasoner.provisionals.entries.size = reasoner.live.length := by
  have same : (reasoner.provisionals.entries.entries.map Prod.fst).Perm reasoner.liveIds := by
    refine (List.perm_ext_iff_of_nodup reasoner.provisionals.entries.nodup numbered.nodup).mpr ?_
    intro id
    rw [← accounted.held id, List.mem_map]
    constructor
    · rintro ⟨entry, member, rfl⟩
      exact Option.isSome_iff_exists.mpr
        ⟨entry.2, (OrderedMap.get_eq_some_iff _ _ _).mpr member⟩
    · intro held
      obtain ⟨belief, found⟩ := Option.isSome_iff_exists.mp held
      exact ⟨(id, belief), (OrderedMap.get_eq_some_iff _ _ _).mp found, rfl⟩
  have lengths := same.length_eq
  rwa [List.length_map, liveIds, List.length_map] at lengths

theorem retire_snd (answered : OrderedMap String Truth) (batch : List LMRequest)
    (provisionals : LruCache ProvisionalBelief) :
    (retire answered provisionals batch).2 =
      batch.foldl (fun held request => held.delete request.id) provisionals := by
  induction batch generalizing provisionals with
  | nil => rfl
  | cons request rest ih =>
    rw [List.foldl_cons, ← ih, retire]
    dsimp only
    split
    · split <;> rfl
    · rfl

theorem peek_foldl_delete (batch : List LMRequest) (provisionals : LruCache ProvisionalBelief)
    (id : String) :
    (batch.foldl (fun held request => held.delete request.id) provisionals).peek id =
      if id ∈ batch.map (·.id) then none else provisionals.peek id := by
  induction batch generalizing provisionals with
  | nil => simp
  | cons request rest ih =>
    rw [List.foldl_cons, ih, LruCache.peek_delete]
    by_cases here : id = request.id
    · simp [here]
    · simp [here]

theorem liveIds_eraseIdx {index} (waits : reasoner.flushes[index]? = some batch) :
    reasoner.liveIds.Perm
      (batch.map (·.id) ++
        ({ reasoner with flushes := reasoner.flushes.eraseIdx index } :
          StreamReasoner Task).liveIds) := by
  obtain ⟨bound, found⟩ := List.getElem?_eq_some_iff.mp waits
  have taken : reasoner.flushes.flatten.Perm
      (batch ++ (reasoner.flushes.eraseIdx index).flatten) := by
    have split := (List.getElem_cons_eraseIdx_perm bound).symm.flatten
    rwa [found] at split
  have all : reasoner.live.Perm
      (batch ++ (reasoner.queue ++ (reasoner.flushes.eraseIdx index).flatten)) := by
    refine (taken.append_left reasoner.queue).trans ?_
    rw [← List.append_assoc, ← List.append_assoc]
    exact List.perm_append_comm.append_right _
  have ids := all.map (·.id)
  rwa [List.map_append] at ids

theorem accounted_congr {other : StreamReasoner Task} (accounted : reasoner.Accounted)
    (same : other.provisionals = reasoner.provisionals)
    (live : ∀ id, id ∈ other.liveIds ↔ id ∈ reasoner.liveIds) : other.Accounted where
  held id := by
    rw [same, live]
    exact accounted.held id
  own id belief := by
    rw [same]
    exact accounted.own id belief

theorem numbered_of_perm {other : StreamReasoner Task} (numbered : reasoner.Numbered)
    (live : other.liveIds.Perm reasoner.liveIds) (seq : other.seq = reasoner.seq)
    (options : other.options = reasoner.options)
    (maxSize : other.provisionals.maxSize = reasoner.provisionals.maxSize)
    (bounded : other.queue.length ≤ reasoner.queue.length)
    (nonempty : ∀ batch ∈ other.flushes, batch ≠ []) : other.Numbered where
  nodup := live.nodup_iff.mpr numbered.nodup
  issued id member := seq ▸ numbered.issued id (live.mem_iff.mp member)
  nonempty := nonempty
  bounded := options ▸ Nat.le_trans bounded numbered.bounded
  maxSize := by rw [maxSize, options, numbered.maxSize]

theorem flush_cases (reasoner : StreamReasoner Task) (numbered : reasoner.Numbered)
    (pressure : JsNumber) (granted : Bool) :
    reasoner.flush pressure granted = reasoner ∨
      ∃ batch rest, batch ≠ [] ∧ reasoner.queue = batch ++ rest ∧
        reasoner.flush pressure granted =
          { reasoner with queue := rest, flushes := reasoner.flushes ++ [batch] } := by
  have whole : reasoner.queue.take reasoner.options.maxBatch ++
      reasoner.queue.drop reasoner.options.maxBatch = reasoner.queue := List.take_append_drop _ _
  unfold flush
  split
  · exact Or.inl rfl
  · dsimp only
    split
    · rename_i nothing
      rw [nothing, List.nil_append] at whole
      rw [whole]
      exact Or.inl rfl
    · rename_i some
      split
      · rw [whole, trimCapped_eq_self numbered.bounded]
        exact Or.inl rfl
      · exact Or.inr ⟨_, _, some, whole.symm, rfl⟩

theorem liveIds_flush {rest} (queue : reasoner.queue = batch ++ rest) :
    ({ reasoner with queue := rest, flushes := reasoner.flushes ++ [batch] } :
        StreamReasoner Task).liveIds.Perm reasoner.liveIds := by
  refine List.Perm.map _ ?_
  show (rest ++ (reasoner.flushes ++ [batch]).flatten).Perm (reasoner.queue ++ _)
  rw [queue, List.flatten_append, List.flatten_singleton, ← List.append_assoc]
  refine List.perm_append_comm.trans ?_
  rw [← List.append_assoc]

section

variable {reasoner next : StreamReasoner Task}

theorem dispatch_refused (full : reasoner.options.maxPending ≤ reasoner.queue.length)
    (prompt : String) (prior : Option Truth) (derives : Bool) :
    (reasoner.dispatch prompt prior derives).2 =
      { reasoner with seq := reasoner.seq + 1, dropped := reasoner.dropped + 1 } := by
  rw [dispatch, if_pos full]

theorem dispatch_taken (room : reasoner.queue.length < reasoner.options.maxPending)
    (prompt : String) (prior : Option Truth) (derives : Bool) :
    reasoner.dispatch prompt prior derives =
      (some (provisionalOf reasoner.options (requestId (reasoner.seq + 1)) prior),
        { reasoner with
          seq := reasoner.seq + 1
          queue := reasoner.queue ++ [⟨requestId (reasoner.seq + 1), prompt, derives⟩]
          provisionals := reasoner.provisionals.set (requestId (reasoner.seq + 1))
            (provisionalOf reasoner.options (requestId (reasoner.seq + 1)) prior) }) := by
  rw [dispatch, if_neg (Nat.not_le.mpr room)]

theorem fresh_requestId (numbered : reasoner.Numbered) :
    requestId (reasoner.seq + 1) ∉ reasoner.liveIds := by
  intro member
  obtain ⟨seq, issued, same⟩ := numbered.issued _ member
  have equal := requestId_injective same
  omega

theorem liveIds_dispatch (room : reasoner.queue.length < reasoner.options.maxPending)
    (prompt : String) (prior : Option Truth) (derives : Bool) :
    (reasoner.dispatch prompt prior derives).2.liveIds.Perm
      (requestId (reasoner.seq + 1) :: reasoner.liveIds) := by
  rw [dispatch_taken room]
  show List.Perm (List.map (·.id) ((reasoner.queue ++ [_]) ++ reasoner.flushes.flatten)) _
  rw [List.append_assoc]
  exact List.Perm.map LMRequest.id List.perm_middle

theorem maxSize_set (provisionals : LruCache ProvisionalBelief) (id : String)
    (belief : ProvisionalBelief) : (provisionals.set id belief).maxSize = provisionals.maxSize := by
  unfold LruCache.set
  split <;> rfl

theorem maxSize_foldl_delete (batch : List LMRequest) (provisionals : LruCache ProvisionalBelief) :
    (batch.foldl (fun held request => held.delete request.id) provisionals).maxSize =
      provisionals.maxSize := by
  induction batch generalizing provisionals with
  | nil => rfl
  | cons request rest ih =>
    exact ih (provisionals.delete request.id)

/-- The beliefs after the end of a flush. -/
def afterFinish (provisionals : LruCache ProvisionalBelief) (batch : List LMRequest) :
    FlushOutcome → LruCache ProvisionalBelief
  | .threw => provisionals
  | _ => batch.foldl (fun held request => held.delete request.id) provisionals

theorem finish_snd (reasoner : StreamReasoner Task) (batch : List LMRequest)
    (outcome : FlushOutcome) :
    ∃ timedOut, (reasoner.finish batch outcome).2 =
      { reasoner with
        provisionals := afterFinish reasoner.provisionals batch outcome
        timedOut } := by
  cases outcome with
  | done answered =>
    refine ⟨reasoner.timedOut, ?_⟩
    show { reasoner with provisionals := (retire answered reasoner.provisionals batch).2 } = _
    rw [retire_snd]
    rfl
  | timedOut => exact ⟨_, rfl⟩
  | threw => exact ⟨reasoner.timedOut, rfl⟩

theorem maxSize_afterFinish (provisionals : LruCache ProvisionalBelief) (batch : List LMRequest)
    (outcome : FlushOutcome) :
    (afterFinish provisionals batch outcome).maxSize = provisionals.maxSize := by
  cases outcome with
  | done answered => exact maxSize_foldl_delete batch provisionals
  | timedOut => exact maxSize_foldl_delete batch provisionals
  | threw => rfl

end

theorem numbered_step (numbered : reasoner.Numbered) (taken : reasoner.step event = some next) :
    next.Numbered := by
  cases event with
  | dispatch prompt prior derives =>
    cases taken
    rcases Nat.lt_or_ge reasoner.queue.length reasoner.options.maxPending with room | full
    · have live := liveIds_dispatch room prompt prior derives
      have parts := dispatch_taken room prompt prior derives
      refine
        { nodup := live.nodup_iff.mpr (List.nodup_cons.mpr ⟨fresh_requestId numbered,
            numbered.nodup⟩)
          issued := ?_, nonempty := ?_, bounded := ?_, maxSize := ?_ }
      · intro id member
        rw [parts]
        rcases List.mem_cons.mp (live.mem_iff.mp member) with rfl | old
        · exact ⟨_, le_rfl, rfl⟩
        · obtain ⟨seq, issued, same⟩ := numbered.issued id old
          exact ⟨seq, Nat.le_succ_of_le issued, same⟩
      · rw [parts]
        exact numbered.nonempty
      · rw [parts]
        rw [List.length_append]
        exact room
      · rw [parts]
        exact (maxSize_set _ _ _).trans numbered.maxSize
    · rw [dispatch_refused full]
      exact
        { numbered with
          issued := fun id member => (numbered.issued id member).imp
            fun _ facts => ⟨Nat.le_succ_of_le facts.1, facts.2⟩ }
  | flush pressure granted =>
    cases taken
    rcases reasoner.flush_cases numbered pressure granted with
      same | ⟨batch, rest, some, queue, begun⟩
    · rw [same]
      exact numbered
    · rw [begun]
      refine numbered_of_perm numbered (liveIds_flush queue) rfl rfl rfl ?_ ?_
      · rw [queue, List.length_append]
        exact Nat.le_add_left _ _
      · intro other member
        rcases List.mem_append.mp member with early | last
        · exact numbered.nonempty other early
        · exact (List.mem_singleton.mp last) ▸ some
  | finish index outcome =>
    obtain ⟨batch, waits, rfl⟩ := Option.map_eq_some_iff.mp taken
    have live := liveIds_eraseIdx waits
    obtain ⟨timedOut, same⟩ :=
      finish_snd { reasoner with flushes := reasoner.flushes.eraseIdx index } batch outcome
    rw [same]
    exact
      { nodup := (List.nodup_append.mp (live.nodup_iff.mp numbered.nodup)).2.1
        issued := fun id member =>
          numbered.issued id (live.mem_iff.mpr (List.mem_append_right _ member))
        nonempty := fun other member =>
          numbered.nonempty other (List.mem_of_mem_eraseIdx member)
        bounded := numbered.bounded
        maxSize := (maxSize_afterFinish _ _ _).trans numbered.maxSize }
  | settleDerived tasks =>
    cases taken
    exact { numbered with }
  | takeDerived =>
    cases taken
    exact { numbered with }

section

variable (numbered : reasoner.Numbered) (accounted : reasoner.Accounted)

include numbered accounted

theorem accounted_dispatch (room : reasoner.queue.length < reasoner.options.maxPending)
    (prompt : String) (prior : Option Truth) (derives : Bool) :
    (reasoner.dispatch prompt prior derives).2.Accounted ↔
      reasoner.live.length < reasoner.options.maxPending := by
  have live := liveIds_dispatch room prompt prior derives
  have held : (reasoner.dispatch prompt prior derives).2.provisionals =
      reasoner.provisionals.set (requestId (reasoner.seq + 1))
        (provisionalOf reasoner.options (requestId (reasoner.seq + 1)) prior) := by
    rw [dispatch_taken room]
  have size := size_provisionals accounted numbered
  have bound : reasoner.provisionals.maxSize = reasoner.options.maxPending := by
    rw [numbered.maxSize]
    omega
  constructor
  · intro after
    by_contra full
    have new : reasoner.provisionals.peek (requestId (reasoner.seq + 1)) = none :=
      Option.not_isSome_iff_eq_none.mp fun some =>
        fresh_requestId numbered ((accounted.held _).mp some)
    obtain ⟨victim, was, gone⟩ := LruCache.exists_dropped_of_set (by omega) (by omega) new
      (provisionalOf reasoner.options (requestId (reasoner.seq + 1)) prior)
    have stays := (after.held victim).mpr
      (live.mem_iff.mpr (List.mem_cons_of_mem _ ((accounted.held victim).mp was)))
    rw [held, gone] at stays
    cases stays
  · intro spare
    have fits : reasoner.provisionals.entries.size < reasoner.provisionals.maxSize := by omega
    have peeks := LruCache.peek_set_of_room fits (requestId (reasoner.seq + 1))
    constructor
    · intro id
      rw [held, peeks, live.mem_iff, List.mem_cons, ← accounted.held id]
      by_cases same : id = requestId (reasoner.seq + 1)
      · simp [same]
      · simp [same]
    · intro id belief found
      rw [held, peeks] at found
      split at found
      · rename_i same
        cases found
        exact same.symm
      · exact accounted.own id belief found

theorem accounted_finish {index} (waits : reasoner.flushes[index]? = some batch)
    (outcome : FlushOutcome) :
    ({ reasoner with flushes := reasoner.flushes.eraseIdx index }.finish batch outcome).2.Accounted
      ↔ reasoner.KeepsAccount (.finish index outcome) := by
  have live := liveIds_eraseIdx waits
  have nodup := live.nodup_iff.mp numbered.nodup
  have apart : ∀ id ∈ batch.map (·.id), id ∉ ({ reasoner with
      flushes := reasoner.flushes.eraseIdx index } : StreamReasoner Task).liveIds :=
    fun id inBatch outside => (List.nodup_append.mp nodup).2.2 id inBatch id outside rfl
  obtain ⟨timedOut, same⟩ :=
    finish_snd { reasoner with flushes := reasoner.flushes.eraseIdx index } batch outcome
  rw [same]
  have retired (deletes : afterFinish reasoner.provisionals batch outcome =
      batch.foldl (fun held request => held.delete request.id) reasoner.provisionals) :
      ({ reasoner with
        flushes := reasoner.flushes.eraseIdx index
        provisionals := afterFinish reasoner.provisionals batch outcome
        timedOut } : StreamReasoner Task).Accounted := by
    rw [deletes]
    constructor
    · intro id
      rw [peek_foldl_delete]
      split
      · rename_i inBatch
        exact iff_of_false (by simp) (apart id inBatch)
      · rename_i outside
        rw [accounted.held id, live.mem_iff, List.mem_append]
        exact or_iff_right outside
    · intro id belief found
      rw [peek_foldl_delete] at found
      split at found
      · cases found
      · exact accounted.own id belief found
  cases outcome with
  | done answered => exact iff_of_true (retired rfl) trivial
  | timedOut => exact iff_of_true (retired rfl) trivial
  | threw =>
    refine iff_of_false ?_ id
    intro after
    -- what the batch leaves behind is held and not live
    obtain ⟨request, rest, rfl⟩ := List.exists_cons_of_ne_nil
      (numbered.nonempty batch (List.mem_of_getElem? waits))
    have inBatch : request.id ∈ (request :: rest).map (·.id) := List.mem_cons_self
    have left := (accounted.held request.id).mpr
      (live.mem_iff.mpr (List.mem_append_left _ inBatch))
    exact apart _ inBatch ((after.held request.id).mp left)

theorem accounted_step (taken : reasoner.step event = some next) :
    next.Accounted ↔ reasoner.KeepsAccount event := by
  cases event with
  | dispatch prompt prior derives =>
    cases taken
    rcases Nat.lt_or_ge reasoner.queue.length reasoner.options.maxPending with room | full
    · rw [accounted_dispatch numbered accounted room]
      exact (or_iff_left (Nat.not_le.mpr room)).symm
    · rw [dispatch_refused full]
      exact iff_of_true (accounted_congr accounted rfl fun _ => Iff.rfl) (Or.inr full)
  | flush pressure granted =>
    cases taken
    refine iff_of_true ?_ trivial
    rcases reasoner.flush_cases numbered pressure granted with
      same | ⟨batch, rest, _, queue, begun⟩
    · rw [same]
      exact accounted
    · rw [begun]
      exact accounted_congr accounted rfl fun id => (liveIds_flush queue).mem_iff
  | finish index outcome =>
    obtain ⟨batch, waits, rfl⟩ := Option.map_eq_some_iff.mp taken
    exact accounted_finish numbered accounted waits outcome
  | settleDerived tasks =>
    cases taken
    exact iff_of_true (accounted_congr accounted rfl fun _ => Iff.rfl) trivial
  | takeDerived =>
    cases taken
    exact iff_of_true (accounted_congr accounted rfl fun _ => Iff.rfl) trivial

end

/-! ### Runs -/

theorem numbered_new (options : StreamReasonerOptions) :
    (new options : StreamReasoner Task).Numbered where
  nodup := List.nodup_nil
  issued _ member := absurd member List.not_mem_nil
  nonempty _ member := absurd member List.not_mem_nil
  bounded := Nat.zero_le _
  maxSize := rfl

theorem accounted_new (options : StreamReasonerOptions) :
    (new options : StreamReasoner Task).Accounted where
  held id := iff_of_false (by simp [new, LruCache.new, LruCache.peek]) List.not_mem_nil
  own id belief found := by cases found

/-- What holds of every state of a run whose beliefs are accounted for. -/
structure Sound (reasoner : StreamReasoner Task) : Prop where
  numbered : reasoner.Numbered
  accounted : reasoner.Accounted

/-- The state after an event is accounted for. -/
def StaysAccounted (reasoner : StreamReasoner Task) (event : Event Task) : Prop :=
  ∀ next, reasoner.step event = some next → next.Accounted

theorem staysAccounted_iff (sound : reasoner.Sound) (taken : reasoner.step event = some next) :
    reasoner.StaysAccounted event ↔ reasoner.KeepsAccount event := by
  rw [← accounted_step sound.numbered sound.accounted taken]
  constructor
  · intro stays
    exact stays next taken
  · intro accounted other same
    cases taken.symm.trans same
    exact accounted

theorem Sound.step {reasoner next : StreamReasoner Task} {event} (sound : reasoner.Sound)
    (taken : reasoner.step event = some next) (keeps : reasoner.KeepsAccount event) :
    next.Sound where
  numbered := numbered_step sound.numbered taken
  accounted := (accounted_step sound.numbered sound.accounted taken).mpr keeps

/-! ### When nothing waits -/

/-- Nothing is queued or in flight. -/
def Idle (reasoner : StreamReasoner Task) : Prop :=
  reasoner.queue = [] ∧ reasoner.flushes = []

/-- A request that comes is taken, and the next flush that the pressure and the budget let
through takes it alone. -/
def MakesProgress (reasoner : StreamReasoner Task) : Prop :=
  ∀ prompt prior derives pressure, lessEq reasoner.options.highPressure pressure = false →
    ∃ belief between request, reasoner.dispatch prompt prior derives = (some belief, between) ∧
      request.id = belief.requestId ∧ (between.flush pressure true).queue = [] ∧
      (between.flush pressure true).flushes = [[request]]

theorem pressure_of_idle (sound : reasoner.Sound) (idle : reasoner.Idle)
    (some : 0 < reasoner.options.maxPending) : reasoner.pressure = 0 := by
  have nothing : reasoner.provisionals.entries.size = 0 := by
    rw [size_provisionals sound.accounted sound.numbered, live, idle.1, idle.2]
    rfl
  have capacity : (reasoner.options.maxPending : ℚ) ≠ 0 := by exact_mod_cast some.ne'
  have ratio :
      (((max ([] : List LMRequest).length 0 : ℕ) : ℚ)) / reasoner.options.maxPending = 0 := by
    simp
  rw [pressure, occupancy, if_pos some, nothing, idle.1, finite_div capacity, ratio, clamp01,
    ofNat_eq, ofNat_eq, min_finite, max_finite]
  norm_num

theorem makesProgress_of_idle (idle : reasoner.Idle) (some : 0 < reasoner.options.maxPending)
    (batch : 0 < reasoner.options.maxBatch) : reasoner.MakesProgress := by
  intro prompt prior derives pressure low
  have room : reasoner.queue.length < reasoner.options.maxPending := by
    rw [idle.1]
    exact some
  refine ⟨_, _, ⟨requestId (reasoner.seq + 1), prompt, derives⟩,
    dispatch_taken room prompt prior derives, rfl, ?_⟩
  have taken : ∀ request : LMRequest,
      (reasoner.queue ++ [request]).take reasoner.options.maxBatch = [request] := by
    intro request
    rw [idle.1]
    exact List.take_of_length_le batch
  have rest : ∀ request : LMRequest,
      (reasoner.queue ++ [request]).drop reasoner.options.maxBatch = [] := by
    intro request
    rw [idle.1]
    exact List.drop_of_length_le batch
  unfold flush
  rw [if_neg (Bool.eq_false_iff.mp low), taken, rest, idle.2]
  exact ⟨rfl, rfl⟩

section

variable {options : StreamReasonerOptions} {last : StreamReasoner Task}
  {events : List (Event Task)}

/-- Over every run the provisional beliefs are those of the requests that are queued or in flight,
exactly where no flush throws and no request is taken while the bound is queued or in flight. There,
once nothing waits, the pressure is zero and the next request makes progress. -/
theorem accounted_iff (run : Run step (new options) events last) :
    (Run.Meets step StaysAccounted (new options : StreamReasoner Task) events ↔
        Run.Meets step KeepsAccount (new options) events) ∧
      (Run.Meets step KeepsAccount (new options) events →
        last.Accounted ∧
          (last.Idle → 0 < last.options.maxPending →
            last.pressure = 0 ∧ (0 < last.options.maxBatch → last.MakesProgress))) := by
  have fresh : (new options : StreamReasoner Task).Sound :=
    ⟨numbered_new options, accounted_new options⟩
  constructor
  · refine Run.meets_iff (fun _ _ _ sound taken => staysAccounted_iff sound taken) ?_ fresh
    intro state event next sound taken stays
    exact sound.step taken ((staysAccounted_iff sound taken).mp stays)
  · intro meets
    have sound : last.Sound :=
      run.keeps_of_meets (fun _ _ _ sound keeps taken => sound.step taken keeps) meets fresh
    exact ⟨sound.accounted, fun idle some =>
      ⟨pressure_of_idle sound idle some, makesProgress_of_idle idle some⟩⟩

end

/-! ### A flush that throws -/

def defaultOptions : StreamReasonerOptions where
  confidence_nonneg := by norm_num
  confidence_le_max := by norm_num [maxConfidence]

/-- A request is flushed, and the backend throws. -/
def thrownFlush : List (Event Unit) :=
  [.dispatch "prompt" none false, .flush 0 true, .finish 0 .threw]

theorem thrownFlush_leaves : ((execute step (new defaultOptions) thrownFlush).map
    fun reasoner => (reasoner.provisionals.entries.size, reasoner.live.length)) = some (1, 0) := by
  decide +kernel

/-- A request is flushed, and the deadline passes. -/
def timedOutFlush : List (Event Unit) :=
  [.dispatch "prompt" none false, .flush 0 true, .finish 0 .timedOut]

theorem accounted_iff_timedOutFlush :
    ∃ last, Run step (new defaultOptions) timedOutFlush last ∧
      (Run.Meets step StaysAccounted (new defaultOptions) timedOutFlush ↔
          Run.Meets step KeepsAccount (new defaultOptions) timedOutFlush) ∧
        (Run.Meets step KeepsAccount (new defaultOptions) timedOutFlush →
          last.Accounted ∧
            (last.Idle → 0 < last.options.maxPending →
              last.pressure = 0 ∧ (0 < last.options.maxBatch → last.MakesProgress))) := by
  have runs : (execute step (new defaultOptions) timedOutFlush).isSome := by
    decide +kernel
  obtain ⟨last, taken⟩ := Option.isSome_iff_exists.mp runs
  have run := run_of_execute taken
  exact ⟨last, run, accounted_iff run⟩

/-- A flush that throws leaves a belief that stands for no request. -/
theorem thrown_flush_unaccounted :
    ¬ ∀ (options : StreamReasonerOptions) (events : List (Event Unit)) (last : StreamReasoner Unit),
      Run step (new options) events last → last.Accounted := by
  intro always
  obtain ⟨last, taken, left⟩ := Option.map_eq_some_iff.mp thrownFlush_leaves
  have run := run_of_execute taken
  have numbered : last.Numbered :=
    run.keeps (fun _ _ _ before step => numbered_step before step) (numbered_new defaultOptions)
  have size := size_provisionals (always defaultOptions thrownFlush last run) numbered
  obtain ⟨held, waiting⟩ := Prod.mk.inj left
  rw [held, waiting] at size
  cases size

end StreamReasoner

end Senars.Stream
