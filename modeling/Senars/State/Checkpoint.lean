/-
This file is the rewind of the kernel: a ring of checkpoints, each the graph and the
boundary at a cycle, and what takes the kernel back to one of them.

A rewind leaves what it undoes in the ring, and the search keeps the first of the
checkpoints of a cycle. So it finds the newest checkpoint that was not undone exactly
where no other one lies between it and the target.
-/

import Mathlib.Algebra.Order.Floor.Ring
import Mathlib.Data.Rat.Floor
import Senars.Library.Capped
import Senars.Library.Lists
import Senars.Library.Runs

namespace Senars.State

open Library

/-! ### Checkpoints -/

def CHECKPOINT_RING_CAP : ℕ := 64

def DEFAULT_CHECKPOINT_INTERVAL : ℤ := 10

def REWIND_BASE_GAPS : List String :=
  ["RNG state is not restored: the stream is a caller-injected RandomSource, not a value the " ++
      "kernel owns",
    "the gate-event, rule-fire and derivation rings are not rewound",
    "the durable event log is append-only; a rewind does not truncate it",
    "drive intensities and learned rule-table revisions are not part of the checkpoint"]

structure ConsistencyBoundary (TaskRecord : Type) where
  cycleCount : ℕ
  pendingTasks : List TaskRecord
  idHighWater : ℕ

/-- A captured state of the kernel. Its serial tells it from all others. -/
structure KernelCheckpoint (SerializedMemory TaskRecord : Type) where
  serial : ℕ
  cycle : ℕ
  memory : SerializedMemory
  boundary : ConsistencyBoundary TaskRecord

structure RewindReport where
  start : ℕ
  target : ℕ
  restored : ℕ
  checkpointed : Bool
  concepts : ℕ
  gaps : List String

/-- The operations of the kernel that a checkpoint goes through. -/
structure KernelRewindPorts (Kernel SerializedMemory TaskRecord : Type) where
  snapshot : Kernel → SerializedMemory
  restore : Kernel → SerializedMemory → Kernel
  getCycleCount : Kernel → ℕ
  setCycleCount : Kernel → ℕ → Kernel
  pendingTasks : Kernel → List TaskRecord
  clearPending : Kernel → Kernel
  restorePending : Kernel → List TaskRecord → Kernel
  idHighWater : Kernel → ℕ
  primeIdHighWater : Kernel → ℕ → Kernel
  totalConcepts : SerializedMemory → ℕ

variable {Kernel SerializedMemory TaskRecord : Type}

/-! ### The ring -/

/-- The checkpoint that is found at or before a cycle. -/
def atOrBefore (ring : List (KernelCheckpoint SerializedMemory TaskRecord)) (cycle : ℕ) :
    Option (KernelCheckpoint SerializedMemory TaskRecord) :=
  ring.foldl (fun best checkpoint =>
    if checkpoint.cycle ≤ cycle ∧ best.all (·.cycle < checkpoint.cycle) then some checkpoint
    else best) none

/-- The ring of checkpoints, and the one a pass of consolidation can be undone to. -/
structure KernelRewind (SerializedMemory TaskRecord : Type) where
  ring : List (KernelCheckpoint SerializedMemory TaskRecord) := []
  consolidation : Option (KernelCheckpoint SerializedMemory TaskRecord) := none

namespace KernelRewind

variable (ports : KernelRewindPorts Kernel SerializedMemory TaskRecord) (interval : ℤ)

/-- What is captured of a kernel at a cycle. -/
def checkpoint (kernel : Kernel) (serial cycle : ℕ) :
    KernelCheckpoint SerializedMemory TaskRecord where
  serial
  cycle
  memory := ports.snapshot kernel
  boundary :=
    { cycleCount := cycle, pendingTasks := ports.pendingTasks kernel
      idHighWater := ports.idHighWater kernel }

def snapshot (rewinder : KernelRewind SerializedMemory TaskRecord) (kernel : Kernel)
    (serial cycle : ℕ) : KernelRewind SerializedMemory TaskRecord :=
  { rewinder with
    ring := pushCapped rewinder.ring (checkpoint ports kernel serial cycle) CHECKPOINT_RING_CAP }

/-- A checkpoint is due when the interval has gone by. -/
def captureDue (cycle : ℕ) : Bool := !(interval ≤ 0 || (cycle : ℤ) % interval != 0)

def maybeCapture (rewinder : KernelRewind SerializedMemory TaskRecord) (kernel : Kernel)
    (serial cycle : ℕ) : KernelRewind SerializedMemory TaskRecord :=
  if captureDue interval cycle then rewinder.snapshot ports kernel serial cycle else rewinder

def captureConsolidation (rewinder : KernelRewind SerializedMemory TaskRecord) (kernel : Kernel)
    (serial cycle : ℕ) : KernelRewind SerializedMemory TaskRecord :=
  { rewinder.snapshot ports kernel serial cycle with
    consolidation := some (checkpoint ports kernel serial cycle) }

/-- Restore a checkpoint's graph and boundary. -/
def restore (kernel : Kernel) (checkpoint : KernelCheckpoint SerializedMemory TaskRecord)
    (target : ℕ) : Kernel × RewindReport :=
  let start := ports.getCycleCount kernel
  let kernel := ports.restore kernel checkpoint.memory
  let kernel := ports.clearPending kernel
  let kernel := ports.restorePending kernel checkpoint.boundary.pendingTasks
  let kernel := ports.setCycleCount kernel checkpoint.cycle
  let kernel := ports.primeIdHighWater kernel checkpoint.boundary.idHighWater
  (kernel,
    { start, target, restored := checkpoint.cycle, checkpointed := true
      concepts := ports.totalConcepts checkpoint.memory, gaps := REWIND_BASE_GAPS })

/-- Restore the checkpoint before the last pass of consolidation. -/
def recover (rewinder : KernelRewind SerializedMemory TaskRecord) (kernel : Kernel) :
    Kernel × Option RewindReport :=
  match rewinder.consolidation with
  | some checkpoint =>
    let (kernel, report) := restore ports kernel checkpoint checkpoint.cycle
    (kernel, some report)
  | none => (kernel, none)

/-- The cycle a rewind aims at. -/
def target (start : ℕ) (cycles : ℚ) : ℕ := (max 0 ((start : ℤ) - max 0 ⌊cycles⌋)).toNat

/-- The checkpoint a rewind restores. -/
def found (rewinder : KernelRewind SerializedMemory TaskRecord) (kernel : Kernel) (cycles : ℚ) :
    Option (KernelCheckpoint SerializedMemory TaskRecord) :=
  atOrBefore rewinder.ring (target (ports.getCycleCount kernel) cycles)

/-- Restore the checkpoint that is found at or before the target. -/
def rewind (rewinder : KernelRewind SerializedMemory TaskRecord) (kernel : Kernel) (cycles : ℚ) :
    Kernel × RewindReport :=
  let start := ports.getCycleCount kernel
  let target := target start cycles
  match rewinder.found ports kernel cycles with
  | none =>
    (kernel,
      { start, target, restored := start, checkpointed := false, concepts := 0
        gaps := REWIND_BASE_GAPS ++ ["no checkpoint at or before the target cycle"] })
  | some checkpoint =>
    let (kernel, report) := restore ports kernel checkpoint target
    (kernel,
      if checkpoint.cycle ≠ target then
        { report with
          gaps := report.gaps ++
            ["nearest checkpoint at cycle " ++ toString checkpoint.cycle ++
              "; the interval to the target was not journaled"] }
      else report)

variable {ports} {rewinder : KernelRewind SerializedMemory TaskRecord} {kernel : Kernel}
  {cycles : ℚ}

theorem rewind_of_found {checkpoint}
    (reached : rewinder.found ports kernel cycles = some checkpoint) :
    (rewinder.rewind ports kernel cycles).2.checkpointed = true ∧
      (rewinder.rewind ports kernel cycles).2.restored = checkpoint.cycle := by
  unfold rewind
  rw [reached]
  dsimp only
  split <;> exact ⟨rfl, rfl⟩

theorem rewind_of_not_found (missed : rewinder.found ports kernel cycles = none) :
    (rewinder.rewind ports kernel cycles).2.checkpointed = false := by
  unfold rewind
  rw [missed]

end KernelRewind

/-! ### Timelines -/

/-- The kernel and its rewind, with all that was captured and the serials of what was undone. -/
structure KernelTimeline (Kernel SerializedMemory TaskRecord : Type) where
  kernel : Kernel
  rewinder : KernelRewind SerializedMemory TaskRecord := {}
  captured : List (KernelCheckpoint SerializedMemory TaskRecord) := []
  undone : List ℕ := []

inductive RewindEvent (Kernel : Type) where
  /-- A cycle ends and leaves the kernel. -/
  | cycleEnd (kernel : Kernel)
  | captureConsolidation (cycle : ℕ)
  | recover
  | rewind (cycles : ℚ)

namespace KernelTimeline

/-- Keep account of what is captured. -/
def capture (timeline : KernelTimeline Kernel SerializedMemory TaskRecord)
    (checkpoint : KernelCheckpoint SerializedMemory TaskRecord) :
    KernelTimeline Kernel SerializedMemory TaskRecord :=
  { timeline with captured := timeline.captured ++ [checkpoint] }

/-- Going back to a cycle undoes what was captured after it. -/
def undo (timeline : KernelTimeline Kernel SerializedMemory TaskRecord) (cycle : ℕ) :
    KernelTimeline Kernel SerializedMemory TaskRecord :=
  { timeline with
    undone := timeline.undone ++
      (timeline.captured.filter fun checkpoint => cycle < checkpoint.cycle).map (·.serial) }

section

variable (ports : KernelRewindPorts Kernel SerializedMemory TaskRecord) (interval : ℤ)
  (recoveryUndoes : Bool)

/-- The timeline after an event. A recovery may be taken as a rewind or not. -/
def after (timeline : KernelTimeline Kernel SerializedMemory TaskRecord) :
    RewindEvent Kernel → KernelTimeline Kernel SerializedMemory TaskRecord
  | .cycleEnd kernel =>
    let serial := timeline.captured.length
    let cycle := ports.getCycleCount kernel
    let next :=
      { timeline with
        kernel
        rewinder := timeline.rewinder.maybeCapture ports interval kernel serial cycle }
    if KernelRewind.captureDue interval cycle then
      next.capture (KernelRewind.checkpoint ports kernel serial cycle)
    else next
  | .captureConsolidation cycle =>
    let serial := timeline.captured.length
    let next :=
      { timeline with
        rewinder := timeline.rewinder.captureConsolidation ports timeline.kernel serial cycle }
    next.capture (KernelRewind.checkpoint ports timeline.kernel serial cycle)
  | .recover =>
    let (kernel, report) := timeline.rewinder.recover ports timeline.kernel
    match report with
    | some report =>
      if recoveryUndoes then { timeline with kernel }.undo report.restored
      else { timeline with kernel }
    | none => { timeline with kernel }
  | .rewind cycles =>
    let (kernel, report) := timeline.rewinder.rewind ports timeline.kernel cycles
    if report.checkpointed then { timeline with kernel }.undo report.restored
    else { timeline with kernel }

/-- One event, where the ring holds more than what is captured by then. -/
def rewindStep :
    Machine (KernelTimeline Kernel SerializedMemory TaskRecord) (RewindEvent Kernel) :=
  fun timeline event =>
    let next := timeline.after ports interval recoveryUndoes event
    if next.captured.length < CHECKPOINT_RING_CAP then some next else none

/-- The checkpoint that was captured last among those at or before a cycle that were not undone. -/
def newestCurrent (timeline : KernelTimeline Kernel SerializedMemory TaskRecord) (cycle : ℕ) :
    Option (KernelCheckpoint SerializedMemory TaskRecord) :=
  (timeline.captured.filter fun checkpoint =>
    checkpoint.serial ∉ timeline.undone ∧ checkpoint.cycle ≤ cycle).argmax (·.serial)

/-- A rewind restores the newest checkpoint of the current timeline. -/
def RestoresCurrent (timeline : KernelTimeline Kernel SerializedMemory TaskRecord) :
    RewindEvent Kernel → Prop
  | .rewind cycles =>
    timeline.rewinder.found ports timeline.kernel cycles =
      timeline.newestCurrent (KernelRewind.target (ports.getCycleCount timeline.kernel) cycles)
  | _ => True

/-- From the cycle of the newest checkpoint of the current timeline to the target there is no
other one in the ring. -/
def Unrivalled (timeline : KernelTimeline Kernel SerializedMemory TaskRecord) :
    RewindEvent Kernel → Prop
  | .rewind cycles =>
    let target := KernelRewind.target (ports.getCycleCount timeline.kernel) cycles
    ∀ newest ∈ timeline.newestCurrent target, ∀ other ∈ timeline.rewinder.ring,
      newest.cycle ≤ other.cycle → other.cycle ≤ target → other.serial = newest.serial
  | _ => True

end

/-- What holds of a timeline in which the ring was never full. -/
structure Sound (timeline : KernelTimeline Kernel SerializedMemory TaskRecord) : Prop where
  ring : timeline.rewinder.ring = timeline.captured
  few : timeline.captured.length < CHECKPOINT_RING_CAP
  serials : timeline.captured.map (·.serial) = List.range timeline.captured.length
  undone : ∀ serial ∈ timeline.undone, serial < timeline.captured.length
  consolidation : ∀ checkpoint ∈ timeline.rewinder.consolidation, checkpoint ∈ timeline.captured
  /-- Whatever was undone, something before it was not. -/
  current : ∀ checkpoint ∈ timeline.captured, ∃ other ∈ timeline.captured,
    other.serial ∉ timeline.undone ∧ other.cycle ≤ checkpoint.cycle
  /-- What was not undone though captured before stands at an earlier cycle. -/
  earlier : ∀ gone ∈ timeline.captured, gone.serial ∈ timeline.undone →
    ∀ kept ∈ timeline.captured, kept.serial ∉ timeline.undone → kept.serial < gone.serial →
      kept.cycle < gone.cycle

end KernelTimeline

/-! ### What is found -/

theorem atOrBefore_eq_argmax (ring : List (KernelCheckpoint SerializedMemory TaskRecord))
    (cycle : ℕ) :
    atOrBefore ring cycle = (ring.filter (·.cycle ≤ cycle)).argmax (·.cycle) := by
  unfold atOrBefore
  induction ring using List.reverseRecOn with
  | nil => rfl
  | append_singleton ring last ih =>
    rw [List.foldl_append, ih, List.filter_append]
    show (if last.cycle ≤ cycle ∧ _ then some last else _) = _
    by_cases reached : last.cycle ≤ cycle
    · have kept : [last].filter (·.cycle ≤ cycle) = [last] := by simp [reached]
      rw [kept, List.argmax_concat]
      cases (ring.filter (·.cycle ≤ cycle)).argmax (·.cycle) with
      | none => simp [reached]
      | some best => simp [reached]
    · have dropped : [last].filter (·.cycle ≤ cycle) = [] := by simp [reached]
      rw [dropped, List.append_nil, if_neg fun both => reached both.1]

namespace KernelTimeline

variable {timeline : KernelTimeline Kernel SerializedMemory TaskRecord} {cycle : ℕ}

theorem Sound.serial_lt (sound : timeline.Sound) :
    timeline.captured.Pairwise (·.serial < ·.serial) := by
  have sorted : (List.range timeline.captured.length).Pairwise (· < ·) := List.pairwise_lt_range
  rw [← sound.serials, List.pairwise_map] at sorted
  exact sorted

theorem Sound.eq_of_serial (sound : timeline.Sound) {one other} (isOne : one ∈ timeline.captured)
    (isOther : other ∈ timeline.captured) (same : one.serial = other.serial) : one = other := by
  have distinct : (timeline.captured.map (·.serial)).Nodup := by
    rw [sound.serials]
    exact List.nodup_range
  exact List.inj_on_of_nodup_map distinct isOne isOther same

theorem mem_newestCurrent {newest} (isNewest : newest ∈ timeline.newestCurrent cycle) :
    newest ∈ timeline.captured ∧ newest.serial ∉ timeline.undone ∧ newest.cycle ≤ cycle := by
  have among := List.mem_filter.mp (List.argmax_mem isNewest)
  exact ⟨among.1, of_decide_eq_true among.2⟩

theorem serial_le_newestCurrent {newest other} (isNewest : newest ∈ timeline.newestCurrent cycle)
    (isCaptured : other ∈ timeline.captured) (current : other.serial ∉ timeline.undone)
    (reached : other.cycle ≤ cycle) : other.serial ≤ newest.serial :=
  List.le_of_mem_argmax (List.mem_filter.mpr ⟨isCaptured, decide_eq_true ⟨current, reached⟩⟩)
    isNewest

theorem Sound.found_iff (sound : timeline.Sound) :
    atOrBefore timeline.rewinder.ring cycle = timeline.newestCurrent cycle ↔
      ∀ newest ∈ timeline.newestCurrent cycle, ∀ other ∈ timeline.rewinder.ring,
        newest.cycle ≤ other.cycle → other.cycle ≤ cycle → other.serial = newest.serial := by
  rw [atOrBefore_eq_argmax, sound.ring]
  constructor
  · intro same newest isNewest other isCaptured above reached
    have found := isNewest
    rw [← same] at found
    have among : other ∈ timeline.captured.filter (·.cycle ≤ cycle) :=
      List.mem_filter.mpr ⟨isCaptured, decide_eq_true reached⟩
    have first : newest.serial ≤ other.serial :=
      first_of_mem_argmax (sound.serial_lt.filter _) found among above
    have greatest : other.cycle ≤ newest.cycle := List.le_of_mem_argmax among found
    obtain ⟨newestCaptured, newestCurrent, _⟩ := mem_newestCurrent isNewest
    by_cases current : other.serial ∈ timeline.undone
    · by_contra distinct
      have later := sound.earlier other isCaptured current newest newestCaptured newestCurrent
        (lt_of_le_of_ne first (Ne.symm distinct))
      exact absurd greatest (not_le.mpr later)
    · exact le_antisymm (serial_le_newestCurrent isNewest isCaptured current reached) first
  · intro alone
    cases isNewest : timeline.newestCurrent cycle with
    | none =>
      -- were there anything to find, something would be left of the current timeline
      rw [List.argmax_eq_none, List.filter_eq_nil_iff]
      intro checkpoint isCaptured reached
      obtain ⟨other, otherCaptured, current, below⟩ := sound.current checkpoint isCaptured
      have none := List.filter_eq_nil_iff.mp (List.argmax_eq_none.mp isNewest) other otherCaptured
      exact none (decide_eq_true ⟨current, below.trans (of_decide_eq_true reached)⟩)
    | some newest =>
      obtain ⟨newestCaptured, _, newestReached⟩ := mem_newestCurrent isNewest
      have among : newest ∈ timeline.captured.filter (·.cycle ≤ cycle) :=
        List.mem_filter.mpr ⟨newestCaptured, decide_eq_true newestReached⟩
      cases found : (timeline.captured.filter (·.cycle ≤ cycle)).argmax (·.cycle) with
      | none => exact absurd (List.argmax_eq_none.mp found ▸ among) List.not_mem_nil
      | some best =>
        obtain ⟨bestCaptured, bestReached⟩ := List.mem_filter.mp (List.argmax_mem found)
        have same := alone newest isNewest best bestCaptured (List.le_of_mem_argmax among found)
          (of_decide_eq_true bestReached)
        rw [sound.eq_of_serial bestCaptured newestCaptured same]

/-! ### What events keep -/

theorem Sound.kernel (sound : timeline.Sound) (kernel : Kernel) :
    Sound { timeline with kernel } :=
  ⟨sound.ring, sound.few, sound.serials, sound.undone, sound.consolidation, sound.current,
    sound.earlier⟩

theorem Sound.capture {checkpoint rewinder} (sound : timeline.Sound)
    (serial : checkpoint.serial = timeline.captured.length)
    (few : (timeline.captured ++ [checkpoint]).length < CHECKPOINT_RING_CAP)
    (pushed : rewinder.ring = pushCapped timeline.rewinder.ring checkpoint CHECKPOINT_RING_CAP)
    (consolidation : rewinder.consolidation = timeline.rewinder.consolidation ∨
      rewinder.consolidation = some checkpoint) :
    Sound ({ timeline with rewinder }.capture checkpoint) := by
  have current : checkpoint.serial ∉ timeline.undone := fun undone =>
    absurd (sound.undone _ undone) (by omega)
  refine ⟨?_, few, ?_, ?_, ?_, ?_, ?_⟩
  · show rewinder.ring = timeline.captured ++ [checkpoint]
    rw [pushed, sound.ring]
    exact if_neg (by omega)
  · show (timeline.captured ++ [checkpoint]).map _ = List.range (timeline.captured ++ _).length
    rw [List.map_append, sound.serials, List.length_append, List.length_singleton,
      List.range_succ, List.map_singleton, serial]
  · intro undone isUndone
    have before := sound.undone undone isUndone
    show undone < (timeline.captured ++ [checkpoint]).length
    rw [List.length_append]
    omega
  · intro recovery isRecovery
    rcases consolidation with same | new
    · exact List.mem_append_left _ (sound.consolidation recovery (same ▸ isRecovery))
    · cases new.symm.trans isRecovery
      exact List.mem_append_right _ (List.mem_singleton_self _)
  · intro captured isCaptured
    rcases List.mem_append.mp isCaptured with before | new
    · obtain ⟨other, isOther, kept, below⟩ := sound.current captured before
      exact ⟨other, List.mem_append_left _ isOther, kept, below⟩
    · rw [List.mem_singleton.mp new]
      exact ⟨checkpoint, List.mem_append_right _ (List.mem_singleton_self _), current, le_rfl⟩
  · intro gone isGone undone kept isKept notUndone later
    have goneBefore := sound.undone _ undone
    rcases List.mem_append.mp isGone with goneCaptured | new
    · rcases List.mem_append.mp isKept with keptCaptured | new
      · exact sound.earlier gone goneCaptured undone kept keptCaptured notUndone later
      · rw [List.mem_singleton.mp new] at later
        omega
    · rw [List.mem_singleton.mp new] at goneBefore
      omega

theorem mem_undo {serial} : serial ∈ (timeline.undo cycle).undone ↔
    serial ∈ timeline.undone ∨
      ∃ checkpoint ∈ timeline.captured, cycle < checkpoint.cycle ∧ checkpoint.serial = serial := by
  unfold undo
  rw [List.mem_append, List.mem_map]
  simp only [List.mem_filter, decide_eq_true_eq, and_assoc]

theorem Sound.undo {restored} (sound : timeline.Sound) (isRestored : restored ∈ timeline.captured) :
    Sound (timeline.undo restored.cycle) := by
  have spared : ∀ {checkpoint}, checkpoint ∈ timeline.captured →
      checkpoint.serial ∉ timeline.undone → checkpoint.cycle ≤ restored.cycle →
      checkpoint.serial ∉ (timeline.undo restored.cycle).undone := by
    intro checkpoint isCaptured current below undone
    rcases mem_undo.mp undone with before | ⟨other, isOther, above, same⟩
    · exact current before
    · rw [sound.eq_of_serial isOther isCaptured same] at above
      exact absurd below (not_le.mpr above)
  refine ⟨sound.ring, sound.few, sound.serials, ?_, sound.consolidation, ?_, ?_⟩
  · intro serial undone
    rcases mem_undo.mp undone with before | ⟨other, isOther, _, rfl⟩
    · exact sound.undone serial before
    · have listed : other.serial ∈ timeline.captured.map (·.serial) :=
        List.mem_map.mpr ⟨other, isOther, rfl⟩
      rw [sound.serials] at listed
      exact List.mem_range.mp listed
  · intro checkpoint isCaptured
    obtain ⟨base, isBase, baseCurrent, baseBelow⟩ := sound.current restored isRestored
    obtain ⟨other, isOther, otherCurrent, otherBelow⟩ := sound.current checkpoint isCaptured
    by_cases below : other.cycle ≤ restored.cycle
    · exact ⟨other, isOther, spared isOther otherCurrent below, otherBelow⟩
    · exact ⟨base, isBase, spared isBase baseCurrent baseBelow, by omega⟩
  · intro gone isGone undone kept isKept notUndone later
    have keptCurrent : kept.serial ∉ timeline.undone :=
      fun before => notUndone (mem_undo.mpr (.inl before))
    rcases mem_undo.mp undone with before | ⟨other, isOther, above, same⟩
    · exact sound.earlier gone isGone before kept isKept keptCurrent later
    · have keptBelow : kept.cycle ≤ restored.cycle := by
        by_contra higher
        exact notUndone (mem_undo.mpr (.inr ⟨kept, isKept, not_le.mp higher, rfl⟩))
      rw [sound.eq_of_serial isOther isGone same] at above
      exact lt_of_le_of_lt keptBelow above

variable {ports : KernelRewindPorts Kernel SerializedMemory TaskRecord} {interval : ℤ}
  {recoveryUndoes : Bool}

theorem Sound.step {next : KernelTimeline Kernel SerializedMemory TaskRecord} {event}
    (sound : timeline.Sound)
    (taken : rewindStep ports interval recoveryUndoes timeline event = some next) : next.Sound := by
  unfold rewindStep at taken
  dsimp only at taken
  split at taken
  · rename_i few
    cases taken
    cases event with
    | cycleEnd kernel =>
      unfold after at few ⊢
      dsimp only at few ⊢
      split
      · rename_i due
        rw [if_pos due] at few
        refine (sound.kernel kernel).capture rfl few ?_ ?_
        · show (KernelRewind.maybeCapture ..).ring = _
          rw [KernelRewind.maybeCapture, if_pos due]
          rfl
        · show (KernelRewind.maybeCapture ..).consolidation = _ ∨ _
          rw [KernelRewind.maybeCapture, if_pos due]
          exact .inl rfl
      · rename_i notDue
        rw [KernelRewind.maybeCapture, if_neg notDue]
        exact sound.kernel kernel
    | captureConsolidation cycle => exact sound.capture rfl few rfl (.inr rfl)
    | recover =>
      unfold after KernelRewind.recover
      cases recovery : timeline.rewinder.consolidation with
      | none => exact sound
      | some checkpoint =>
        dsimp only
        split
        · exact (sound.kernel _).undo (sound.consolidation checkpoint recovery)
        · exact sound.kernel _
    | rewind cycles =>
      unfold after
      dsimp only
      cases reached : timeline.rewinder.found ports timeline.kernel cycles with
      | none =>
        rw [KernelRewind.rewind_of_not_found reached]
        exact sound.kernel _
      | some checkpoint =>
        have captured : checkpoint ∈ timeline.captured := by
          unfold KernelRewind.found at reached
          rw [atOrBefore_eq_argmax, sound.ring] at reached
          exact List.mem_of_mem_filter (List.argmax_mem reached)
        obtain ⟨checkpointed, restored⟩ := KernelRewind.rewind_of_found reached
        rw [checkpointed, restored]
        exact (sound.kernel _).undo captured
  · cases taken

/-! ### All events -/

theorem sound_new (kernel : Kernel) :
    Sound ({ kernel } : KernelTimeline Kernel SerializedMemory TaskRecord) where
  ring := rfl
  few := show 0 < CHECKPOINT_RING_CAP by decide
  serials := rfl
  undone _ none := absurd none List.not_mem_nil
  consolidation _ none := by cases none
  current _ none := absurd none List.not_mem_nil
  earlier _ none := absurd none List.not_mem_nil

theorem Sound.restores_iff_unrivalled (sound : timeline.Sound) (event : RewindEvent Kernel) :
    timeline.RestoresCurrent ports event ↔ timeline.Unrivalled ports event := by
  cases event with
  | rewind cycles => exact sound.found_iff
  | cycleEnd _ | captureConsolidation _ | recover => exact Iff.rfl

/-- Every rewind of a run restores the newest checkpoint of the current timeline exactly where
each comes while no other checkpoint is between that one and the target. -/
theorem restoresCurrent_iff (kernel : Kernel) (events : List (RewindEvent Kernel)) :
    Run.Meets (rewindStep ports interval recoveryUndoes) (RestoresCurrent ports)
        ({ kernel } : KernelTimeline Kernel SerializedMemory TaskRecord) events ↔
      Run.Meets (rewindStep ports interval recoveryUndoes) (Unrivalled ports) { kernel } events :=
  Run.meets_iff (fun _ event _ sound _ => Sound.restores_iff_unrivalled sound event)
    (fun _ _ _ sound taken _ => Sound.step sound taken) (sound_new kernel)

/-- A kernel that is nothing but the count of its cycles. -/
def countingPorts : KernelRewindPorts ℕ Unit Unit where
  snapshot _ := ()
  restore kernel _ := kernel
  getCycleCount kernel := kernel
  setCycleCount _ count := count
  pendingTasks _ := []
  clearPending kernel := kernel
  restorePending kernel _ := kernel
  idHighWater _ := 0
  primeIdHighWater kernel _ := kernel
  totalConcepts _ := 0

/-- The second cycle is run again after a rewind, and a rewind to it finds what was captured the
first time. -/
theorem rewind_restores_undone : ¬ ∀ (events : List (RewindEvent ℕ))
    (last : KernelTimeline ℕ Unit Unit),
    Run (rewindStep countingPorts 1 true) { kernel := 0 } events last →
      Run.Meets (rewindStep countingPorts 1 true) (RestoresCurrent countingPorts) { kernel := 0 }
        events := by
  intro always
  have restores := always
    [.cycleEnd 1, .cycleEnd 2, .rewind 1, .cycleEnd 2, .cycleEnd 3, .rewind 1] _
    (run_of_execute rfl)
  have rerun : Run (rewindStep countingPorts 1 true) { kernel := 0 }
      [.cycleEnd 1, .cycleEnd 2, .rewind 1, .cycleEnd 2, .cycleEnd 3] _ := run_of_execute rfl
  have restored : RestoresCurrent countingPorts _ (.rewind 1) := restores.at_event rerun
  exact absurd (congrArg (Option.map (·.serial)) restored) (by decide +kernel)

end KernelTimeline

end Senars.State
