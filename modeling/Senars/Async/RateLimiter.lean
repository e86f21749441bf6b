/-
This file is the rate limiter of a sliding window. Each key has a ring of its newest
arrivals, refused ones too, as many as are let in within the width of the window; an
arrival is let in where the one that it displaces has left the window. Times and the width
are exact numbers of milliseconds.

While the window of a key is kept its ring is the end of the history of its arrivals, so an
arrival is let in exactly where fewer than the limit lie in the window before it.
-/

import Mathlib.Algebra.Order.Ring.Rat
import Mathlib.Tactic.Linarith
import Senars.Library.Capped
import Senars.Unify.LruCache

namespace Senars.Async

open Library Unify

/-! ### Rings -/

inductive OverflowPolicy where
  | dropOldest | refuse
  deriving DecidableEq

/-- A ring, which is not made without room for one item. -/
structure BoundedRing (Item : Type) where
  capacity : ℕ
  room : 1 ≤ capacity
  overflow : OverflowPolicy := .dropOldest
  items : List Item := []

/-- Append an item, with the one that does not stay. -/
def BoundedRing.push {Item : Type} (ring : BoundedRing Item) (item : Item) :
    Option Item × BoundedRing Item :=
  if ring.overflow = .refuse ∧ ring.capacity ≤ ring.items.length then (some item, ring)
  else
    (if ring.capacity < (ring.items ++ [item]).length then (ring.items ++ [item]).head? else none,
      { ring with items := pushCapped ring.items item ring.capacity })

/-! ### The limiter -/

structure SlidingWindowRateLimiter where
  limit : ℕ
  positive : 1 ≤ limit
  windowMs : ℚ
  windows : LruCache (BoundedRing ℚ)

structure Arrival where
  key : String
  now : ℚ

namespace SlidingWindowRateLimiter

def new (limit : ℤ) (windowMs : ℚ) (maxKeys : ℕ) : SlidingWindowRateLimiter where
  limit := (max 1 limit).toNat
  positive := by omega
  windowMs
  windows := .new maxKeys

def emptyRing (limiter : SlidingWindowRateLimiter) : BoundedRing ℚ where
  capacity := limiter.limit
  room := limiter.positive

/-- The ring of a key, read or else made, and the windows with it. -/
def getOrInsertRing (limiter : SlidingWindowRateLimiter) (key : String) :
    BoundedRing ℚ × LruCache (BoundedRing ℚ) :=
  match limiter.windows.get key with
  | (some existing, windows) => (existing, windows)
  | (none, windows) => (limiter.emptyRing, windows.set key limiter.emptyRing)

/-- Record an arrival and say whether it fits. The ring changes where it is in the windows. -/
def tryAcquire (limiter : SlidingWindowRateLimiter) (key : String) (now : ℚ) :
    Bool × SlidingWindowRateLimiter :=
  let (ring, windows) := limiter.getOrInsertRing key
  let (displaced, pushed) := ring.push now
  (displaced.all fun stamp => stamp ≤ now - limiter.windowMs,
    { limiter with windows := { windows with entries := windows.entries.set key pushed } })

/-- The limiter after a sequence of arrivals. -/
def after (limiter : SlidingWindowRateLimiter) (arrivals : List Arrival) :
    SlidingWindowRateLimiter :=
  arrivals.foldl (fun limiter arrival => (limiter.tryAcquire arrival.key arrival.now).2) limiter

/-- Each arrival of a sequence with whether it was admitted. -/
def verdicts : SlidingWindowRateLimiter → List Arrival → List (Arrival × Bool)
  | _, [] => []
  | limiter, arrival :: rest =>
    let (admitted, next) := limiter.tryAcquire arrival.key arrival.now
    (arrival, admitted) :: next.verdicts rest

/-- The window of a key is not evicted while a sequence arrives. -/
def KeepsWindow (key : String) : SlidingWindowRateLimiter → List Arrival → Prop
  | _, [] => True
  | limiter, arrival :: rest =>
    let next := (limiter.tryAcquire arrival.key arrival.now).2
    ((limiter.windows.peek key).isSome → (next.windows.peek key).isSome) ∧ KeepsWindow key next rest

/-- The times at which arrivals come under a key. -/
def timesOf (key : String) (arrivals : List Arrival) : List ℚ :=
  (arrivals.filter (·.key = key)).map (·.now)

/-- How many arrivals are admitted under a key at times of some kind. -/
def admittedWhere (key : String) (inside : ℚ → Bool) (judged : List (Arrival × Bool)) : ℕ :=
  judged.countP fun verdict => verdict.2 && verdict.1.key = key && inside verdict.1.now

/-! ### One arrival -/

variable {limiter : SlidingWindowRateLimiter} {key other : String} {now : ℚ}

/-- The ring that an arrival under a key is pushed to. -/
def ringOf (limiter : SlidingWindowRateLimiter) (key : String) : BoundedRing ℚ :=
  (limiter.windows.peek key).getD limiter.emptyRing

theorem fst_getOrInsertRing :
    (limiter.getOrInsertRing key).1 = limiter.ringOf key := by
  have read := limiter.windows.get_fst key
  unfold getOrInsertRing ringOf LruCache.peek
  rw [← read]
  split <;> rename_i found <;> rw [found] <;> rfl

theorem peek_getOrInsertRing_of_ne (different : other ≠ key) :
    (limiter.getOrInsertRing key).2.peek other = limiter.windows.peek other ∨
      (limiter.getOrInsertRing key).2.peek other = none := by
  have touched : (limiter.windows.get key).2.peek other = limiter.windows.peek other := by
    apply Option.ext
    intro ring
    exact LruCache.holds_get
  unfold getOrInsertRing
  split
  · rename_i existing windows found
    rw [found] at touched
    exact .inl touched
  · rename_i windows found
    rw [found] at touched
    by_cases held : (windows.set key limiter.emptyRing).peek other = none
    · exact .inr held
    · obtain ⟨ring, holds⟩ := Option.ne_none_iff_exists'.mp held
      rcases LruCache.holds_set holds with ⟨same, -⟩ | before
      · exact absurd same different
      · exact .inl (holds.trans (before.symm.trans touched))

theorem fst_tryAcquire :
    (limiter.tryAcquire key now).1 =
      ((limiter.ringOf key).push now).1.all fun stamp => stamp ≤ now - limiter.windowMs := by
  rw [← fst_getOrInsertRing]
  rfl

theorem peek_tryAcquire_self :
    (limiter.tryAcquire key now).2.windows.peek key = some ((limiter.ringOf key).push now).2 := by
  rw [← fst_getOrInsertRing]
  exact OrderedMap.get_set_self _ _ _

theorem peek_tryAcquire_of_ne (different : other ≠ key) :
    (limiter.tryAcquire key now).2.windows.peek other = limiter.windows.peek other ∨
      (limiter.tryAcquire key now).2.windows.peek other = none := by
  have kept : (limiter.tryAcquire key now).2.windows.peek other =
      (limiter.getOrInsertRing key).2.peek other :=
    OrderedMap.get_set_of_ne _ different _
  rw [kept]
  exact peek_getOrInsertRing_of_ne different

/-! ### The ring and the history -/

/-- The ring that holds the end of a history. -/
def ringAfter (limiter : SlidingWindowRateLimiter) (history : List ℚ) : BoundedRing ℚ where
  capacity := limiter.limit
  room := limiter.positive
  items := trimCapped history limiter.limit

/-- The ring of a key is the end of its history. -/
def Remembers (limiter : SlidingWindowRateLimiter) (key : String) (history : List ℚ) : Prop :=
  limiter.ringOf key = limiter.ringAfter history

theorem remembers_of_absent (absent : limiter.windows.peek key = none) :
    limiter.Remembers key [] := by
  unfold Remembers ringOf
  rw [absent]
  exact congrArg (BoundedRing.mk limiter.limit limiter.positive .dropOldest) List.drop_nil.symm

theorem push_ringAfter (history : List ℚ) :
    ((limiter.ringAfter history).push now).2 = limiter.ringAfter (history ++ [now]) :=
  congrArg (BoundedRing.mk limiter.limit limiter.positive .dropOldest)
    (pushCapped_trimCapped limiter.positive)

theorem Remembers.tryAcquire {history} (remembers : limiter.Remembers key history) :
    (limiter.tryAcquire key now).2.Remembers key (history ++ [now]) := by
  unfold Remembers ringOf
  rw [peek_tryAcquire_self, remembers, push_ringAfter]
  rfl

variable {history : List ℚ}

theorem Remembers.tryAcquire_of_ne (remembers : limiter.Remembers other history)
    (different : other ≠ key) (kept : (limiter.windows.peek other).isSome →
      ((limiter.tryAcquire key now).2.windows.peek other).isSome) :
    (limiter.tryAcquire key now).2.Remembers other history := by
  have same : (limiter.tryAcquire key now).2.windows.peek other = limiter.windows.peek other := by
    rcases @peek_tryAcquire_of_ne limiter key other now different with same | dropped
    · exact same
    · rw [dropped] at kept ⊢
      refine (Option.not_isSome_iff_eq_none.mp fun held => ?_).symm
      exact Bool.false_ne_true (kept held)
  unfold Remembers ringOf
  rw [same]
  exact remembers

theorem displaced_of_room (room : history.length < limiter.limit) :
    ((limiter.ringAfter history).push now).1 = none := by
  have whole : trimCapped history limiter.limit = history := trimCapped_eq_self room.le
  simpa [BoundedRing.push, ringAfter, whole, Nat.succ_le_iff] using room

theorem displaced_of_full {newer oldest}
    (held : trimCapped history limiter.limit = oldest :: newer)
    (full : limiter.limit = (oldest :: newer).length) :
    ((limiter.ringAfter history).push now).1 = some oldest := by
  have passed : limiter.limit < (oldest :: newer ++ [now]).length := by
    rw [List.length_append, List.length_singleton]
    omega
  unfold BoundedRing.push ringAfter
  rw [held, if_pos passed]
  rfl

theorem displaced_iff (ordered : history.Pairwise (· ≤ ·)) (edge : ℚ) :
    (((limiter.ringAfter history).push now).1.all fun stamp => stamp ≤ edge) = true ↔
      (history.countP fun stamp => edge < stamp) < limiter.limit := by
  have positive := limiter.positive
  by_cases full : limiter.limit ≤ history.length
  · have length : (trimCapped history limiter.limit).length = limiter.limit := by
      rw [trimCapped, List.length_drop]
      omega
    obtain ⟨oldest, newer, held⟩ := List.exists_cons_of_length_pos (length ▸ positive)
    rw [held] at length
    -- The history is what was displaced before, the oldest that is held, and what is newer.
    let gone := history.take (history.length - limiter.limit)
    have parts : history = gone ++ oldest :: newer := by
      rw [← held]
      exact (List.take_append_drop _ _).symm
    rw [parts, List.pairwise_append, List.pairwise_cons] at ordered
    obtain ⟨-, ⟨oldestFirst, -⟩, goneFirst⟩ := ordered
    rw [displaced_of_full held length.symm, Option.all_some, decide_eq_true_iff, parts,
      List.countP_append]
    constructor
    · intro left
      have noneGone : (gone.countP fun stamp => edge < stamp) = 0 := by
        rw [List.countP_eq_zero]
        intro stamp isGone
        have before := goneFirst stamp isGone oldest List.mem_cons_self
        simpa using before.trans left
      have some := List.countP_le_length (p := fun stamp => decide (edge < stamp)) (l := newer)
      rw [List.countP_cons_of_neg (by simpa using left)]
      rw [List.length_cons] at length
      omega
    · intro few
      by_contra inside
      have all : ((oldest :: newer).countP fun stamp => edge < stamp) =
          (oldest :: newer).length := by
        rw [List.countP_eq_length]
        intro stamp among
        rcases List.mem_cons.mp among with rfl | later
        · simpa using inside
        · have after := oldestFirst stamp later
          have inside := not_le.mp inside
          simpa using inside.trans_le after
      omega
  · have some := List.countP_le_length (p := fun stamp => decide (edge < stamp)) (l := history)
    rw [displaced_of_room (not_le.mp full)]
    simp only [Option.all_none, true_iff]
    omega

/-! ### A whole sequence -/

theorem Remembers.admits_iff (remembers : limiter.Remembers key history)
    (ordered : history.Pairwise (· ≤ ·)) :
    (limiter.tryAcquire key now).1 = true ↔
      (history.countP fun stamp => now - limiter.windowMs < stamp) < limiter.limit := by
  rw [fst_tryAcquire, remembers, displaced_iff ordered]

theorem timesOf_cons (arrival : Arrival) (rest : List Arrival) :
    timesOf key (arrival :: rest) =
      if arrival.key = key then arrival.now :: timesOf key rest else timesOf key rest := by
  unfold timesOf
  by_cases same : arrival.key = key <;> simp [same]

theorem Remembers.step (remembers : limiter.Remembers key history) (arrival : Arrival)
    (kept : (limiter.windows.peek key).isSome →
      ((limiter.tryAcquire arrival.key arrival.now).2.windows.peek key).isSome) :
    (limiter.tryAcquire arrival.key arrival.now).2.Remembers key
      (history ++ timesOf key [arrival]) := by
  rw [timesOf_cons]
  split
  · rename_i same
    subst same
    exact remembers.tryAcquire
  · rename_i different
    rw [show timesOf key [] = [] from rfl, List.append_nil]
    exact remembers.tryAcquire_of_ne (Ne.symm different) kept

theorem Remembers.after {history} (remembers : limiter.Remembers key history) {arrivals rest}
    (kept : KeepsWindow key limiter (arrivals ++ rest)) :
    (limiter.after arrivals).Remembers key (history ++ timesOf key arrivals) := by
  induction arrivals generalizing limiter history with
  | nil => simpa [timesOf, SlidingWindowRateLimiter.after] using remembers
  | cons arrival later ih =>
    have next := ih (remembers.step arrival kept.1) kept.2
    rw [List.append_assoc] at next
    have times : timesOf key (arrival :: later) = timesOf key [arrival] ++ timesOf key later := by
      rw [timesOf_cons, timesOf_cons]
      split <;> rfl
    rw [times]
    exact next

/-- Times of one window: none of them is a width before another. -/
def WithinWindow (limiter : SlidingWindowRateLimiter) (inside : ℚ → Bool) : Prop :=
  ∀ first second, inside first = true → inside second = true → second - limiter.windowMs < first

theorem Remembers.admittedWhere_le (remembers : limiter.Remembers key history) {arrivals}
    (ordered : (history ++ timesOf key arrivals).Pairwise (· ≤ ·))
    (kept : KeepsWindow key limiter arrivals) {inside} (within : limiter.WithinWindow inside)
    {before} (few : before ≤ limiter.limit) (counted : before ≤ history.countP inside) :
    before + admittedWhere key inside (limiter.verdicts arrivals) ≤ limiter.limit := by
  induction arrivals generalizing limiter history before with
  | nil => simpa [verdicts, admittedWhere] using few
  | cons arrival rest ih =>
    have times : timesOf key (arrival :: rest) = timesOf key [arrival] ++ timesOf key rest := by
      rw [timesOf_cons, timesOf_cons]
      split <;> rfl
    rw [times, ← List.append_assoc] at ordered
    have later : ∀ {before : ℕ}, before ≤ limiter.limit →
        before ≤ (history ++ timesOf key [arrival]).countP inside →
          before + admittedWhere key inside
            ((limiter.tryAcquire arrival.key arrival.now).2.verdicts rest) ≤ limiter.limit :=
      ih (remembers.step arrival kept.1) ordered kept.2 within
    unfold admittedWhere verdicts
    rw [List.countP_cons]
    split
    · rename_i counts
      obtain ⟨⟨admitted, same⟩, isInside⟩ : ((limiter.tryAcquire arrival.key arrival.now).1 = true ∧
          arrival.key = key) ∧ inside arrival.now = true := by
        simpa using counts
      subst same
      have known : (history ++ timesOf arrival.key [arrival]) = history ++ [arrival.now] := by
        simp [timesOf]
      have past : history.Pairwise (· ≤ ·) := by
        rw [List.append_assoc, List.pairwise_append] at ordered
        exact ordered.1
      -- What is counted so far lies in the window before this arrival.
      have room := (remembers.admits_iff past).mp admitted
      have inWindow : history.countP inside ≤
          history.countP fun stamp => arrival.now - limiter.windowMs < stamp :=
        List.countP_mono_left fun stamp _ isIn =>
          decide_eq_true (within stamp arrival.now isIn isInside)
      have more : before + 1 ≤ (history ++ timesOf arrival.key [arrival]).countP inside := by
        rw [known, List.countP_append, List.countP_singleton, if_pos isInside]
        omega
      have bound := later (show before + 1 ≤ limiter.limit by omega) more
      unfold admittedWhere at bound
      exact le_trans (by omega) bound
    · have more : before ≤ (history ++ timesOf key [arrival]).countP inside := by
        rw [List.countP_append]
        omega
      exact later few more

/-! ### The limit -/

/-- What a limiter promises of the arrivals under a key. -/
structure KeepsLimit (limiter : SlidingWindowRateLimiter) (key : String)
    (arrivals : List Arrival) : Prop where
  fromStart : ∀ start : ℚ, admittedWhere key
    (fun now => start ≤ now && now < start + limiter.windowMs) (limiter.verdicts arrivals) ≤
      limiter.limit
  upToEnd : ∀ start : ℚ, admittedWhere key
    (fun now => start < now && now ≤ start + limiter.windowMs) (limiter.verdicts arrivals) ≤
      limiter.limit
  admits : ∀ (before rest : List Arrival) (now : ℚ), arrivals = before ++ ⟨key, now⟩ :: rest →
    ((timesOf key before).countP fun stamp => now - limiter.windowMs < stamp) < limiter.limit →
      ((limiter.after before).tryAcquire key now).1 = true

theorem limit_after (arrivals : List Arrival) :
    (limiter.after arrivals).limit = limiter.limit ∧
      (limiter.after arrivals).windowMs = limiter.windowMs := by
  induction arrivals generalizing limiter with
  | nil => exact ⟨rfl, rfl⟩
  | cons arrival rest ih =>
    exact @ih (limiter.tryAcquire arrival.key arrival.now).2

/-- In every sequence of arrivals at times that do not go back, no half-open window holds more than
the limit of admitted arrivals, and an arrival with fewer than the limit before it in the window is
admitted. -/
theorem keeps_limit (limiter : SlidingWindowRateLimiter) (key : String) (arrivals : List Arrival)
    (fresh : limiter.windows.peek key = none) (kept : KeepsWindow key limiter arrivals)
    (ordered : (timesOf key arrivals).Pairwise (· ≤ ·)) : limiter.KeepsLimit key arrivals := by
  have remembers := remembers_of_absent fresh
  have bound := fun (inside : ℚ → Bool) (within : limiter.WithinWindow inside) =>
    remembers.admittedWhere_le (by simpa using ordered) kept within (Nat.zero_le _)
      (Nat.zero_le (List.countP inside []))
  simp only [Nat.zero_add] at bound
  refine ⟨fun start => bound _ ?_, fun start => bound _ ?_, ?_⟩
  · intro first second isFirst isSecond
    simp only [Bool.and_eq_true, decide_eq_true_eq] at isFirst isSecond
    linarith only [isFirst.1, isSecond.2]
  · intro first second isFirst isSecond
    simp only [Bool.and_eq_true, decide_eq_true_eq] at isFirst isSecond
    linarith only [isFirst.1, isSecond.2]
  · rintro before rest now rfl few
    have times : timesOf key (before ++ ⟨key, now⟩ :: rest) =
        timesOf key before ++ timesOf key (⟨key, now⟩ :: rest) := by
      simp [timesOf]
    rw [times, List.pairwise_append] at ordered
    have known := remembers.after kept
    rw [List.nil_append] at known
    obtain ⟨limit, windowMs⟩ := limiter.limit_after before
    rw [known.admits_iff ordered.1, limit, windowMs]
    exact few

theorem keepsWindow_of_only (arrivals : List Arrival)
    (only : ∀ arrival ∈ arrivals, arrival.key = key) : KeepsWindow key limiter arrivals := by
  induction arrivals generalizing limiter with
  | nil => trivial
  | cons arrival rest ih =>
    obtain ⟨same, later⟩ := List.forall_mem_cons.mp only
    refine ⟨fun _ => ?_, ih later⟩
    rw [same, peek_tryAcquire_self]
    rfl

/-- Two arrivals a second, of which the third is refused and the fourth admitted again. -/
theorem keeps_limit_two :
    (new 2 1000 1024).KeepsLimit "" [⟨"", 0⟩, ⟨"", 100⟩, ⟨"", 200⟩, ⟨"", 1100⟩] :=
  keeps_limit (new 2 1000 1024) "" [⟨"", 0⟩, ⟨"", 100⟩, ⟨"", 200⟩, ⟨"", 1100⟩] rfl
    (keepsWindow_of_only _ (by simp)) (by simp [timesOf]; norm_num)

example : ((new 2 1000 1024).verdicts [⟨"", 0⟩, ⟨"", 100⟩, ⟨"", 200⟩, ⟨"", 1100⟩]).map (·.2) =
    [true, true, false, true] := by decide +kernel

end SlidingWindowRateLimiter

end Senars.Async
