/-
This file is about the readers of recent rows: the gate events, the rule fires and the completed
chains that were written to a ledger. They are asked for the most recent rows and hand the limit to
the query of the ledger, which takes its answer from the front.

So what is read is what was written last exactly where that is in front: in the hot cache where it
has as many rows as are asked for, or else in the files.
-/

import Senars.Storage.HotCache

namespace Senars.Storage

open Library Library.JsNumber

variable {Row Line Item : Type} {format : RowFormat Row Line} {base : BaseLedgerEntry Row}
  {config : LedgerConfig}

/-! ### The readers -/

/-- What every entry of a ledger is stamped with. -/
structure LedgerStamp where
  atTime : JsNumber
  correlationId : Option String := none
  sessionId : Option String := none

/-- What a query reads of entries that are stamped. -/
def stampedBy (stamp : Row → LedgerStamp) : BaseLedgerEntry Row where
  atTime row := (stamp row).atTime
  correlationId row := (stamp row).correlationId
  sessionId row := (stamp row).sessionId

namespace Ledger

/-- The entries a reader asks for. A limit of zero is no limit. -/
def readEntries (format : RowFormat Row Line) (base : BaseLedgerEntry Row)
    (ledger : Ledger Row Line) (limit : Option ℕ) (now : ℕ) : Ledger Row Line × List Row :=
  ledger.query format base { limit := limit.filter (· ≠ 0) } now

/-- What the entries hold that a reader asks for. -/
def readRecent (format : RowFormat Row Line) (base : BaseLedgerEntry Row) (content : Row → Item)
    (ledger : Ledger Row Line) (limit : Option ℕ) (now : ℕ) : List Item :=
  (ledger.readEntries format base limit now).2.map content

end Ledger

/-- The rings of the gates. -/
inductive GateLogKey where
  | perception
  | action
  | autonomy
  | reward
  | budget
  deriving DecidableEq

/-- A decision of a gate, and the ring it came from. -/
structure GateEventEntry (CognitiveEvent : Type) extends LedgerStamp where
  gate : GateLogKey
  event : CognitiveEvent

structure DerivationEventEntry (DerivationStep : Type) extends LedgerStamp where
  fire : DerivationStep

structure DerivationRecordEntry (DerivationRecord : Type) extends LedgerStamp where
  record : DerivationRecord

/-- The gate events that were written, the most recent ones where a limit is given. -/
def GateEventLedger.read {CognitiveEvent : Type}
    (format : RowFormat (GateEventEntry CognitiveEvent) Line)
    (ledger : Ledger (GateEventEntry CognitiveEvent) Line) (limit : Option ℕ) (now : ℕ) :
    List CognitiveEvent :=
  ledger.readRecent format (stampedBy (·.toLedgerStamp)) (·.event) limit now

/-- The fires that were written, the most recent ones where a limit is given. -/
def DerivationLedger.read {DerivationStep : Type}
    (format : RowFormat (DerivationEventEntry DerivationStep) Line)
    (ledger : Ledger (DerivationEventEntry DerivationStep) Line) (limit : Option ℕ) (now : ℕ) :
    List DerivationStep :=
  ledger.readRecent format (stampedBy (·.toLedgerStamp)) (·.fire) limit now

/-- The completed chains that were written, the most recent ones where a limit is given. -/
def DerivationLedger.readRecords {DerivationRecord : Type}
    (format : RowFormat (DerivationRecordEntry DerivationRecord) Line)
    (records : Ledger (DerivationRecordEntry DerivationRecord) Line) (limit : Option ℕ)
    (now : ℕ) : List DerivationRecord :=
  records.readRecent format (stampedBy (·.toLedgerStamp)) (·.record) limit now

/-! ### What is in front -/

theorem not_sublist_of_last {before} {last next : Item} (distinct : (before ++ [last]).Nodup) :
    ¬ [last, next].Sublist (before ++ [last]) := by
  intro inside
  obtain ⟨early, late, same, inBefore, inLast⟩ := List.sublist_append_iff.mp inside
  have short := inLast.length_le
  cases early with
  | nil =>
    rw [List.nil_append] at same
    rw [← same] at short
    exact absurd short (Nat.not_succ_le_self 1)
  | cons first rest =>
    obtain rfl : last = first := (List.cons.inj same).1
    have there : last ∈ before := inBefore.subset List.mem_cons_self
    exact (List.nodup_append.mp distinct).2.2 last there last (List.mem_singleton_self last) rfl

theorem length_le_of_take_eq_trimCapped {part written : List Item} {count}
    (inside : part.Sublist written) (distinct : written.Nodup) (positive : 0 < count)
    (front : part.take count = trimCapped written count) (short : count < written.length) :
    part.length ≤ count := by
  by_contra longer
  have some : trimCapped written count ≠ [] := by
    rw [trimCapped, Ne, List.drop_eq_nil_iff]
    omega
  have ends := List.dropLast_append_getLast some
  generalize (trimCapped written count).getLast some = last at ends
  have splits : written =
      (written.take (written.length - count) ++ (trimCapped written count).dropLast) ++ [last] := by
    rw [List.append_assoc, ends]
    exact (List.take_append_drop _ _).symm
  have follows : part.drop count ≠ [] := by
    rw [Ne, List.drop_eq_nil_iff]
    omega
  obtain ⟨next, rest, follows⟩ := List.exists_cons_of_ne_nil follows
  have both : [last, next].Sublist part := by
    rw [← List.take_append_drop count part, front, ← ends, follows, List.append_assoc]
    refine List.Sublist.trans ?_ (List.sublist_append_right _ _)
    exact ((List.nil_sublist rest).cons_cons next).cons_cons last
  rw [splits] at inside distinct
  exact not_sublist_of_last distinct (both.trans inside)

namespace LedgerHistory

variable {history : LedgerHistory Row Line}

/-- The rows that are live in the hot cache, by what they hold. -/
def cached (content : Row → Item) (now : ℕ) (history : LedgerHistory Row Line) : List Item :=
  (liveRows history.ledger.hotCache now).map content

/-- The rows of the files, as they are listed, by what they hold. -/
def filed (format : RowFormat Row Line) (base : BaseLedgerEntry Row) (content : Row → Item)
    (history : LedgerHistory Row Line) : List Item :=
  (history.ledger.rowsOnDisk format base).map content

/-- What was written, in order. -/
def written (content : Row → Item) (history : LedgerHistory Row Line) : List Item :=
  history.appended.map content

/-- What was written last is what comes first in the hot cache, where that has as many rows as are
asked for, or else in the files. Where none are asked for there are none. -/
def NewestInFront (format : RowFormat Row Line) (base : BaseLedgerEntry Row)
    (content : Row → Item) (count now : ℕ) (history : LedgerHistory Row Line) : Prop :=
  if count = 0 then history.filed format base content = []
  else if count ≤ (history.cached content now).length then
    (history.cached content now).take count = trimCapped (history.written content) count
  else (history.filed format base content).take count = trimCapped (history.written content) count

/-- As many are asked for as were written, or the hot cache has those that were written last and no
others. -/
def AsksForAll (content : Row → Item) (count now : ℕ) (history : LedgerHistory Row Line) : Prop :=
  (count = 0 → history.written content = []) ∧
    ((history.written content).length ≤ count ∨
      history.cached content now = trimCapped (history.written content) count)

theorem Sound.readRecent (sound : Sound format history) (content : Row → Item) (count now : ℕ) :
    history.ledger.readRecent format base content (some count) now =
      if count = 0 then history.filed format base content
      else if count ≤ (history.cached content now).length then
        (history.cached content now).take count
      else (history.filed format base content).take count := by
  unfold Ledger.readRecent Ledger.readEntries
  rw [sound.query_eq, Ledger.scanDisk_eq]
  have all : ∀ (limit : Option ℕ) (rows : List Row),
      rows.filter (matchesFilter base { limit }) = rows :=
    fun limit rows => List.filter_eq_self.mpr fun _ _ => rfl
  rw [all]
  by_cases none : count = 0
  · subst none
    rfl
  · have asked : (some count).filter (· ≠ 0) = some count := by simpa using none
    rw [if_neg none, asked]
    split
    · next enough =>
      have answered : history.ledger.hotAnswer base { limit := some count } now =
          some ((liveRows history.ledger.hotCache now).take count) := by
        rw [Ledger.hotAnswer_eq_some_iff]
        rw [cached, List.length_map] at enough
        refine ⟨count, rfl, ?_, ?_⟩
        · rw [all]
          exact enough
        · rw [all]
      rw [answered, Option.getD_some, List.map_take]
      rfl
    · next few =>
      have unanswered :
          history.ledger.hotAnswer base { limit := some count } now = Option.none := by
        refine Option.eq_none_iff_forall_ne_some.mpr fun rows answered => ?_
        obtain ⟨limit, same, reached, -⟩ := Ledger.hotAnswer_eq_some_iff.mp answered
        cases same
        rw [all] at reached
        rw [cached, List.length_map] at few
        exact few reached
      rw [unanswered]
      show (List.take count _).map content = _
      rw [List.map_take]
      rfl

theorem Sound.filed_eq (sound : Sound format history) (inOrder : history.InOrder)
    (content : Row → Item) : history.filed format base content = history.written content := by
  rw [filed, sound.rowsOnDisk, sound.sorted_eq_appended inOrder]
  rfl

theorem Sound.newestInFront_iff (sound : Sound format history) (inCache : history.CacheInOrder)
    (inOrder : history.InOrder) {content : Row → Item}
    (distinct : (history.written content).Nodup) (count now : ℕ) :
    history.NewestInFront format base content count now ↔
      history.AsksForAll content count now := by
  have inside : (history.cached content now).Sublist (history.written content) :=
    ((List.filter_sublist.map _).trans inCache).map content
  have asMany := inside.length_le
  unfold NewestInFront AsksForAll
  rw [sound.filed_eq inOrder]
  by_cases none : count = 0
  · subst none
    constructor
    · intro empty
      exact ⟨fun _ => empty, .inl (List.length_eq_zero_iff.mpr empty).le⟩
    · intro asks
      exact asks.1 rfl
  · have positive : 0 < count := Nat.pos_of_ne_zero none
    rw [if_neg none]
    refine Iff.trans ?_ (and_iff_right fun isNone => absurd isNone none).symm
    by_cases all : (history.written content).length ≤ count
    · refine iff_of_true ?_ (.inl all)
      rw [trimCapped_eq_self all]
      split
      · next enough =>
        rw [List.take_of_length_le (asMany.trans all)]
        exact inside.eq_of_length_le (all.trans enough)
      · exact List.take_of_length_le all
    · rw [or_iff_right all]
      split
      · next enough =>
        constructor
        · intro front
          have few := length_le_of_take_eq_trimCapped inside distinct positive front
            (not_le.mp all)
          rwa [List.take_of_length_le few] at front
        · intro same
          rw [← same]
          refine List.take_of_length_le ?_
          rw [same, trimCapped, List.length_drop]
          omega
      · next few =>
        constructor
        · intro front
          have first := front ▸ List.take_prefix count (history.written content)
          exact absurd ((trimCapped_isPrefix_iff distinct positive).mp first) all
        · intro same
          rw [same, trimCapped, List.length_drop] at few
          omega

/-- What a reader reads is what was written last exactly where that is in front of what it is
answered from. Where the files are in order and what was written can be told apart, it is so exactly
where all is asked for or the hot cache has the newest rows only. -/
theorem read_newest_iff {events : List (LedgerEvent Row)}
    (run : Run (LedgerHistory.step format base config) ({} : LedgerHistory Row Line) events history)
    (content : Row → Item) (count now : ℕ) :
    (history.ledger.readRecent format base content (some count) now =
        trimCapped (history.written content) count ↔
      history.NewestInFront format base content count now) ∧
    (history.InOrder → (history.written content).Nodup →
      (history.NewestInFront format base content count now ↔
        history.AsksForAll content count now)) := by
  have sound := sound_of_run run
  have cached : history.CacheInOrder :=
    run.keeps (fun _ _ _ cached taken => cacheInOrder_step cached taken) (List.Sublist.refl _)
  refine ⟨?_, fun inOrder distinct => sound.newestInFront_iff cached inOrder distinct count now⟩
  rw [sound.readRecent, NewestInFront]
  by_cases none : count = 0
  · subst none
    rw [if_pos rfl, if_pos rfl, trimCapped, Nat.sub_zero, List.drop_length]
  · rw [if_neg none, if_neg none]
    split <;> rfl

/-! ### Two gate events -/

/-- A decision of the action gate. -/
def actionEntry (event : String) : GateEventEntry String where
  atTime := 0
  gate := .action
  event

/-- Entries that are written as they are. -/
def entryFormat : RowFormat (GateEventEntry String) (GateEventEntry String) where
  stringify row := row
  safeParse line := some line
  safeParse_stringify _ := rfl

/-- What a query reads of gate events. -/
def gateBase : BaseLedgerEntry (GateEventEntry String) := stampedBy (·.toLedgerStamp)

def twoDecisions : List (LedgerEvent (GateEventEntry String)) :=
  [.append (actionEntry "asked") newYear 0, .append (actionEntry "granted") newYear 0]

/-- The ledger after two decisions. -/
def decided : LedgerHistory (GateEventEntry String) (GateEventEntry String) :=
  (execute (step entryFormat gateBase {}) {} twoDecisions).getD {}

theorem twoDecisions_run : Run (step entryFormat gateBase {}) {} twoDecisions decided :=
  run_of_execute rfl

theorem read_newest_iff_twoDecisions :
    decided.ledger.readRecent entryFormat gateBase (·.event) (some 2) 0 =
      trimCapped (decided.written (·.event)) 2 := by
  have firstOnly : ∀ row ∈ decided.placed, row.1.index = 0 := by decide +kernel
  have distinct : (decided.written (·.event)).Nodup := by decide +kernel
  obtain ⟨reads, asks⟩ := read_newest_iff twoDecisions_run (·.event) 2 0
  refine reads.mpr ((asks ⟨rfl, firstOnly⟩ distinct).mpr ⟨fun none => ?_, .inl ?_⟩)
  · cases none
  · exact le_rfl

/-- Of two decisions the reader that asks for the most recent one reads the first. -/
theorem oldest_event_read : ¬ ∀ (config : LedgerConfig)
    (events : List (LedgerEvent (GateEventEntry String)))
    (history : LedgerHistory (GateEventEntry String) (GateEventEntry String)) (count now : ℕ),
      Run (step entryFormat gateBase config) {} events history →
        GateEventLedger.read entryFormat history.ledger (some count) now =
          trimCapped (history.written (·.event)) count := by
  intro always
  have same := always {} twoDecisions decided 1 0 twoDecisions_run
  exact absurd same (by decide +kernel)

end LedgerHistory

end Senars.Storage
