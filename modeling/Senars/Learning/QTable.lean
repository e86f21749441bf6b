/-
This file is the table of estimates that the bandits share: for each arm of a state an estimate
and how many observations went into it, and the number of all observations.

The count of an arm is advanced by the update rule, and the number of all observations by the
operation. The operation that revises an estimate goes through the update rule too, so it counts
an observation of the arm and none of all. A table that is restored from its snapshot lists the
arms of a state the way an object lists them: without one named `__proto__`, and those with
numbers for names first.
-/

import Mathlib.Algebra.Order.BigOperators.Group.List
import Senars.Learning.BestOf
import Senars.Library.Objects
import Senars.Library.Runs

namespace Senars.Learning

open Library

structure QEntry where
  value : JsNumber
  count : ℕ
  deriving DecidableEq

def unvisited : QEntry := ⟨0, 0⟩

/-- How a target folds into an estimate. -/
abbrev QUpdate : Type := QEntry → JsNumber → QEntry

def meanUpdate : QUpdate := fun entry target =>
  if 0 < entry.count then
    ⟨(entry.value * .finite entry.count + target) / .finite (entry.count + 1), entry.count + 1⟩
  else ⟨target, 1⟩

def lerpUpdate (alpha : JsNumber) : QUpdate := fun entry target =>
  ⟨lerp entry.value target alpha, entry.count + 1⟩

/-- The update rules there are. -/
inductive SuppliedUpdate : QUpdate → Prop
  | mean : SuppliedUpdate meanUpdate
  | lerp (alpha : JsNumber) : SuppliedUpdate (lerpUpdate alpha)

theorem SuppliedUpdate.count {update} (supplied : SuppliedUpdate update) (entry : QEntry)
    (target : JsNumber) : (update entry target).count = entry.count + 1 := by
  cases supplied with
  | mean =>
    unfold meanUpdate
    split
    · rfl
    · next none => rw [Nat.eq_zero_of_not_pos none]
  | lerp alpha => rfl

abbrev QRow : Type := OrderedMap String QEntry

structure QTable where
  rows : OrderedMap String QRow := .empty
  totalVisits : ℕ := 0

namespace QTable

/-- Every arm of a state. -/
def arms (table : QTable) (state : String) : QRow := (table.rows.get state).getD .empty

def read (table : QTable) (state action : String) : QEntry :=
  ((table.arms state).get action).getD unvisited

/-- The rows with the entry of an arm, whose row is made where there is none. -/
def setArm (table : QTable) (state action : String) (entry : QEntry) : OrderedMap String QRow :=
  table.rows.set state ((table.arms state).set action entry)

def observe (update : QUpdate) (table : QTable) (state action : String) (target : JsNumber) :
    QTable where
  rows := table.setArm state action (update (table.read state action) target)
  totalVisits := table.totalVisits + 1

def revise (update : QUpdate) (table : QTable) (state action : String) (target : JsNumber) :
    QTable where
  rows := table.setArm state action (update (table.read state action) target)
  totalVisits := table.totalVisits

def visit (table : QTable) (state action : String) : QTable where
  rows := table.setArm state action
    { table.read state action with count := (table.read state action).count + 1 }
  totalVisits := table.totalVisits + 1

/-- The best-scoring arm of a state. -/
def best (table : QTable) (state : String) (score : QEntry → ℕ → JsNumber) : Option QEntry :=
  SystemOne.maxBy ((table.arms state).entries.map Prod.snd) (score · table.totalVisits)

def toJSON (table : QTable) : JsObject (JsObject QEntry) :=
  .ofEntries (table.rows.entries.map fun row => (row.1, JsObject.ofEntries row.2.entries))

/-- The arms of a state in a snapshot are counted one after the other. -/
def loadRow (arms : JsObject QEntry) (totalVisits : ℕ) : QRow × ℕ :=
  arms.ownEntries.foldl (fun loaded entry =>
    (loaded.1.set entry.1 entry.2, loaded.2 + entry.2.count)) (.empty, totalVisits)

def loadJSON (snapshot : JsObject (JsObject QEntry)) : QTable :=
  snapshot.ownEntries.foldl (fun table entry =>
    let loaded := loadRow entry.2 table.totalVisits
    { rows := table.rows.set entry.1 loaded.1, totalVisits := loaded.2 }) {}

/-! ### The counts -/

/-- The counts of the arms of a row. -/
def rowCount (entries : List (String × QEntry)) : ℕ :=
  (entries.map fun entry => entry.2.count).sum

/-- The counts of all arms. -/
def totalCount (table : QTable) : ℕ :=
  (table.rows.entries.map fun row => rowCount row.2.entries).sum

theorem sum_set {Value} (map : OrderedMap String Value) (key : String) (value : Value)
    (weight : Value → ℕ) :
    ((map.set key value).entries.map fun entry => weight entry.2).sum +
        ((map.get key).map weight).getD 0 =
      (map.entries.map fun entry => weight entry.2).sum + weight value := by
  cases found : map.get key with
  | none => exact OrderedMap.sum_setEntry_of_absent weight value found
  | some old => exact OrderedMap.sum_setEntry_of_present weight value found

theorem rowCount_set (row : QRow) (action : String) (entry : QEntry) :
    rowCount (row.set action entry).entries + ((row.get action).getD unvisited).count =
      rowCount row.entries + entry.count := by
  have counted := sum_set row action entry QEntry.count
  cases found : row.get action with
  | none =>
    rw [found] at counted
    exact counted
  | some old =>
    rw [found] at counted
    exact counted

theorem totalCount_setArm (table : QTable) (state action : String) (entry : QEntry)
    (totalVisits : ℕ) :
    totalCount ⟨table.setArm state action entry, totalVisits⟩ + (table.read state action).count =
      totalCount table + entry.count := by
  have old : ((table.rows.get state).map fun row => rowCount row.entries).getD 0 =
      rowCount (table.arms state).entries := by
    unfold arms
    cases table.rows.get state with
    | none => rfl
    | some row => rfl
  have inRow : rowCount ((table.arms state).set action entry).entries +
      (table.read state action).count = rowCount (table.arms state).entries + entry.count :=
    rowCount_set (table.arms state) action entry
  have inRows : totalCount ⟨table.setArm state action entry, totalVisits⟩ +
      ((table.rows.get state).map fun row => rowCount row.entries).getD 0 =
        totalCount table + rowCount ((table.arms state).set action entry).entries :=
    sum_set table.rows state _ fun row => rowCount row.entries
  omega

theorem arms_setArm (table : QTable) (state action other : String) (entry : QEntry)
    (totalVisits : ℕ) :
    arms ⟨table.setArm state action entry, totalVisits⟩ other =
      if other = state then (table.arms state).set action entry else table.arms other := by
  unfold arms setArm
  rw [OrderedMap.get_set]
  split
  · rfl
  · rfl

theorem read_setArm (table : QTable) (state action : String) (entry : QEntry) (totalVisits : ℕ)
    (otherState otherAction : String) :
    read ⟨table.setArm state action entry, totalVisits⟩ otherState otherAction =
      if otherState = state ∧ otherAction = action then entry
      else table.read otherState otherAction := by
  unfold read
  rw [arms_setArm]
  by_cases sameState : otherState = state
  · rw [if_pos sameState, OrderedMap.get_set, sameState]
    by_cases sameAction : otherAction = action
    · rw [if_pos sameAction, if_pos ⟨rfl, sameAction⟩]
      rfl
    · rw [if_neg sameAction, if_neg fun both => sameAction both.2]
  · rw [if_neg sameState, if_neg fun both => sameState both.1]

/-! ### What a snapshot restores -/

theorem loadRow_eq (arms : JsObject QEntry) (totalVisits : ℕ) :
    loadRow arms totalVisits =
      (.ofList arms.ownEntries, totalVisits + rowCount arms.ownEntries) := by
  have from_ : ∀ (entries : List (String × QEntry)) (row : QRow) (total : ℕ),
      entries.foldl (fun loaded entry =>
          (loaded.1.set entry.1 entry.2, loaded.2 + entry.2.count)) (row, total) =
        (row.setAll entries, total + rowCount entries) := by
    intro entries
    induction entries with
    | nil => exact fun _ _ => rfl
    | cons entry rest ih =>
      intro row total
      rw [List.foldl_cons, ih, rowCount, rowCount, List.map_cons, List.sum_cons,
        Nat.add_assoc]
      rfl
  exact from_ _ _ _

theorem loadJSON_eq (snapshot : JsObject (JsObject QEntry)) :
    loadJSON snapshot =
      { rows :=
          .ofList (snapshot.ownEntries.map fun entry => (entry.1, .ofList entry.2.ownEntries))
        totalVisits :=
          (snapshot.ownEntries.map fun entry => rowCount entry.2.ownEntries).sum } := by
  have from_ : ∀ (entries : List (String × JsObject QEntry)) (table : QTable),
      entries.foldl (fun table entry =>
          let loaded := loadRow entry.2 table.totalVisits
          { rows := table.rows.set entry.1 loaded.1, totalVisits := loaded.2 }) table =
        { rows := table.rows.setAll (entries.map fun entry => (entry.1, .ofList entry.2.ownEntries))
          totalVisits := table.totalVisits +
            (entries.map fun entry => rowCount entry.2.ownEntries).sum } := by
    intro entries
    induction entries with
    | nil => exact fun _ => rfl
    | cons entry rest ih =>
      intro table
      rw [List.foldl_cons, ih, loadRow_eq, List.map_cons, List.map_cons,
        List.sum_cons, Nat.add_assoc]
      rfl
  have whole := from_ snapshot.ownEntries {}
  rw [Nat.zero_add] at whole
  exact whole

/-- The entries that a row comes back with. -/
def restoredEntries (row : QRow) : List (String × QEntry) :=
  propertyOrder (JsObject.assignable row.entries)

/-- The rows that a table comes back with. -/
def restoredRows (table : QTable) : List (String × QRow) :=
  propertyOrder (JsObject.assignable table.rows.entries)

theorem loadJSON_toJSON (table : QTable) :
    loadJSON table.toJSON =
      { rows :=
          .ofList (table.restoredRows.map fun row => (row.1, .ofList (restoredEntries row.2)))
        totalVisits :=
          (table.restoredRows.map fun row => rowCount (restoredEntries row.2)).sum } := by
  have listed : table.toJSON.ownEntries =
      table.restoredRows.map fun row => (row.1, JsObject.ofEntries row.2.entries) := by
    rw [toJSON, JsObject.ownEntries_ofEntries, restoredRows,
      ← propertyOrder_map fun row : QRow => JsObject.ofEntries row.entries]
    · rw [JsObject.assignable, List.filter_map]
      rfl
    · rw [List.map_map]
      exact table.rows.nodup
  have rows : ∀ row : String × QRow,
      (JsObject.ofEntries row.2.entries).ownEntries = restoredEntries row.2 := fun row =>
    JsObject.ownEntries_ofEntries row.2.nodup
  rw [loadJSON_eq, listed, List.map_map, List.map_map]
  simp only [Function.comp_def, rows]

/-- A table that comes back from its snapshot. -/
def restored (table : QTable) : QTable := loadJSON table.toJSON

theorem get_rows_restored (table : QTable) (state : String) :
    table.restored.rows.get state =
      if state = "__proto__" then none
      else (table.rows.get state).map fun row => .ofList (restoredEntries row) := by
  rw [restored, loadJSON_toJSON]
  exact JsObject.get_ofList_assignable table.rows
    (fun row => (.ofList (restoredEntries row) : QRow)) state

theorem entries_rows_restored (table : QTable) :
    table.restored.rows.entries =
      table.restoredRows.map fun row => (row.1, .ofList (restoredEntries row.2)) := by
  rw [restored, loadJSON_toJSON]
  refine OrderedMap.entries_ofList ?_
  rw [List.map_map]
  exact JsObject.nodup_assignable table.rows

theorem entries_restoredRow (row : QRow) :
    (OrderedMap.ofList (restoredEntries row)).entries = restoredEntries row :=
  OrderedMap.entries_ofList (JsObject.nodup_assignable row)

theorem get_restoredRow (row : QRow) (action : String) :
    (OrderedMap.ofList (restoredEntries row)).get action =
      if action = "__proto__" then none else row.get action := by
  have same := JsObject.get_ofList_assignable row id action
  rw [Option.map_id_apply] at same
  rw [← same]
  exact congrArg (fun entries => (OrderedMap.ofList entries).get action) (List.map_id' _).symm

/-- The counts that a snapshot keeps. -/
def keptCount (table : QTable) : ℕ :=
  ((JsObject.assignable table.rows.entries).map fun row =>
    rowCount (JsObject.assignable row.2.entries)).sum

theorem rowCount_restoredEntries (row : QRow) :
    rowCount (restoredEntries row) = rowCount (JsObject.assignable row.entries) :=
  ((propertyOrder_perm _).map _).sum_eq

theorem totalVisits_restored (table : QTable) : table.restored.totalVisits = table.keptCount := by
  rw [restored, loadJSON_toJSON]
  simp only [rowCount_restoredEntries]
  exact ((propertyOrder_perm _).map _).sum_eq

theorem totalCount_restored (table : QTable) :
    table.restored.totalCount = table.restored.totalVisits := by
  rw [totalCount, entries_rows_restored, List.map_map, restored, loadJSON_toJSON]
  simp only [Function.comp_def, entries_restoredRow]

/-- No state and no action is named `__proto__`. -/
def Plain (table : QTable) : Prop :=
  ∀ row ∈ table.rows.entries, row.1 ≠ "__proto__" ∧
    ∀ entry ∈ row.2.entries, entry.1 ≠ "__proto__"

/-- Every row has an arm, and every arm was observed. -/
def Observed (table : QTable) : Prop :=
  ∀ row ∈ table.rows.entries, row.2.entries ≠ [] ∧ ∀ entry ∈ row.2.entries, 0 < entry.2.count

theorem rowCount_pos {entries} (nonempty : entries ≠ [])
    (positive : ∀ entry ∈ entries, 0 < entry.2.count) : 0 < rowCount entries := by
  cases entries with
  | nil => exact absurd rfl nonempty
  | cons entry rest =>
    exact Nat.add_pos_left (positive _ List.mem_cons_self) _

variable {table : QTable}

theorem keptCount_eq_iff (observed : table.Observed) :
    table.keptCount = table.totalCount ↔ table.Plain := by
  have inRow : ∀ row : String × QRow,
      rowCount (JsObject.assignable row.2.entries) ≤ rowCount row.2.entries ∧
        (rowCount (JsObject.assignable row.2.entries) = rowCount row.2.entries ↔
          ∀ entry ∈ row.2.entries, entry.1 = "__proto__" → entry.2.count = 0) := fun row =>
    JsObject.sum_assignable_iff _ row.2.entries
  obtain ⟨least, sameRows⟩ := JsObject.sum_assignable_iff
    (fun row : String × QRow => rowCount row.2.entries) table.rows.entries
  have most : table.keptCount ≤ ((JsObject.assignable table.rows.entries).map fun row =>
      rowCount row.2.entries).sum := List.sum_le_sum fun row _ => (inRow row).1
  constructor
  · intro same row inTable
    have inner : table.keptCount = ((JsObject.assignable table.rows.entries).map fun row =>
        rowCount row.2.entries).sum := le_antisymm most (least.trans same.ge)
    have outer := sameRows.mp (inner.symm.trans same)
    have notProto : row.1 ≠ "__proto__" := by
      intro proto
      obtain ⟨nonempty, positive⟩ := observed row inTable
      exact (rowCount_pos nonempty positive).ne' (outer row inTable proto)
    refine ⟨notProto, fun entry inArms proto => ?_⟩
    have rowSame : rowCount (JsObject.assignable row.2.entries) = rowCount row.2.entries := by
      by_contra different
      have less := lt_of_le_of_ne (inRow row).1 different
      exact (List.sum_lt_sum _ _ (fun other _ => (inRow other).1)
        ⟨row, JsObject.mem_assignable.mpr ⟨inTable, notProto⟩, less⟩).ne inner
    exact ((observed row inTable).2 entry inArms).ne' ((inRow row).2.mp rowSame entry inArms proto)
  · intro plain
    have all : ((JsObject.assignable table.rows.entries).map fun row =>
        rowCount row.2.entries).sum = table.totalCount :=
      sameRows.mpr fun row inTable proto => absurd proto (plain row inTable).1
    rw [← all]
    refine congrArg List.sum (List.map_congr_left fun row inside => ?_)
    have inTable := (JsObject.mem_assignable.mp inside).1
    exact (inRow row).2.mpr fun entry inArms proto =>
      absurd proto ((plain row inTable).2 entry inArms)

/-- The arms of each state first show their different entries in the order in which an object lists
them. -/
def Ordered (table : QTable) : Prop :=
  ∀ row ∈ table.rows.entries,
    uniqueBy id ((propertyOrder row.2.entries).map Prod.snd) =
      uniqueBy id (row.2.entries.map Prod.snd)

/-- A table answers for the best arm of every state what an earlier one did, under every score, and
has as many visits. -/
structure Restores (earlier table : QTable) : Prop where
  totalVisits : table.totalVisits = earlier.totalVisits
  best : ∀ state score, table.best state score = earlier.best state score

theorem Plain.entries_arms_restored (plain : table.Plain) (state : String) :
    (table.restored.arms state).entries = propertyOrder (table.arms state).entries := by
  unfold arms
  rw [get_rows_restored]
  cases found : table.rows.get state with
  | none =>
    rw [Option.map_none, ite_self]
    rfl
  | some row =>
    obtain ⟨notProto, arms⟩ := plain _ ((OrderedMap.get_eq_some_iff _ _ _).mp found)
    have all : JsObject.assignable row.entries = row.entries :=
      List.filter_eq_self.mpr fun entry inside => decide_eq_true (arms entry inside)
    rw [if_neg notProto]
    exact (entries_restoredRow row).trans (congrArg propertyOrder all)

theorem restores_iff (observed : table.Observed) (counted : table.totalVisits = table.totalCount) :
    Restores table table.restored ↔ table.Plain ∧ table.Ordered := by
  have visits : table.restored.totalVisits = table.totalVisits ↔ table.Plain := by
    rw [totalVisits_restored, counted, keptCount_eq_iff observed]
  have bests : table.Plain → ((∀ state score, table.restored.best state score =
      table.best state score) ↔ table.Ordered) := by
    intro plain
    unfold best
    rw [visits.mpr plain]
    constructor
    · intro same row inside
      have found := (table.rows.get_eq_some_iff row.1 row.2).mpr inside
      refine (maxBy_eq_iff _ _).mp fun score => ?_
      have here := same row.1 fun entry _ => score entry
      rw [plain.entries_arms_restored, arms, found] at here
      exact here
    · intro ordered state score
      rw [plain.entries_arms_restored]
      refine (maxBy_eq_iff _ _).mpr ?_ _
      cases found : table.rows.get state with
      | none =>
        rw [arms, found]
        rfl
      | some row =>
        rw [arms, found]
        exact ordered (state, row) ((table.rows.get_eq_some_iff _ _).mp found)
  constructor
  · intro restores
    have plain := visits.mp restores.totalVisits
    exact ⟨plain, (bests plain).mp restores.best⟩
  · rintro ⟨plain, ordered⟩
    exact ⟨visits.mpr plain, (bests plain).mpr ordered⟩

theorem Plain.read_restored (plain : table.Plain) (state action : String) :
    table.restored.read state action = table.read state action := by
  unfold read arms
  rw [get_rows_restored]
  cases found : table.rows.get state with
  | none => rw [Option.map_none, ite_self]
  | some row =>
    obtain ⟨notProto, arms⟩ := plain _ ((OrderedMap.get_eq_some_iff _ _ _).mp found)
    rw [if_neg notProto, Option.map_some, Option.getD_some, Option.getD_some, get_restoredRow]
    split
    · next proto =>
      cases there : row.get action with
      | none => rfl
      | some entry =>
        exact absurd proto (arms _ ((OrderedMap.get_eq_some_iff _ _ _).mp there))
    · rfl

theorem Observed.restored {table : QTable} (observed : table.Observed) (plain : table.Plain) :
    table.restored.Observed := by
  intro row inside
  rw [entries_rows_restored] at inside
  obtain ⟨old, inOrder, rfl⟩ := List.mem_map.mp inside
  obtain ⟨inTable, -⟩ := JsObject.mem_assignable.mp (mem_propertyOrder.mp inOrder)
  obtain ⟨nonempty, positive⟩ := observed old inTable
  have entries : restoredEntries old.2 = propertyOrder old.2.entries :=
    congrArg propertyOrder (List.filter_eq_self.mpr fun entry inArms =>
      decide_eq_true ((plain old inTable).2 entry inArms))
  rw [entries_restoredRow, entries]
  refine ⟨fun none => ?_, fun entry inArms => positive entry (mem_propertyOrder.mp inArms)⟩
  have empty := (propertyOrder_perm old.2.entries).symm
  rw [none] at empty
  exact nonempty empty.eq_nil

theorem Observed.setArm {table : QTable} (observed : table.Observed) (state action : String)
    {entry} (positive : 0 < entry.count) (totalVisits : ℕ) :
    Observed ⟨table.setArm state action entry, totalVisits⟩ := by
  have arms : ∀ arm ∈ (table.arms state).entries, 0 < arm.2.count := by
    unfold QTable.arms
    cases found : table.rows.get state with
    | none => exact fun _ inside => absurd inside List.not_mem_nil
    | some row => exact (observed _ ((OrderedMap.get_eq_some_iff _ _ _).mp found)).2
  intro row inside
  rcases OrderedMap.mem_setEntry inside with rfl | old
  · have there : (action, entry) ∈ ((table.arms state).set action entry).entries :=
      (OrderedMap.get_eq_some_iff _ _ _).mp (OrderedMap.get_set_self _ _ _)
    refine ⟨List.ne_nil_of_mem there, fun arm inArms => ?_⟩
    rcases OrderedMap.mem_setEntry inArms with rfl | before
    · exact positive
    · exact arms arm before
  · exact observed row old

end QTable

/-! ### Runs -/

inductive QEvent where
  | observe (state action : String) (target : JsNumber)
  | revise (state action : String) (target : JsNumber)
  | visit (state action : String)
  | clear
  | toJSON
  | loadJSON (snapshot : ℕ)

/-- A table, how often each arm was observed or visited since the table was empty or as of the
snapshot it was restored from, and what was there when each snapshot was taken. -/
structure WatchedTable where
  table : QTable := {}
  calls : String → String → ℕ := fun _ _ => 0
  taken : List (QTable × (String → String → ℕ)) := []

namespace WatchedTable

/-- One more call for an arm. -/
def called (watched : WatchedTable) (state action : String) : String → String → ℕ :=
  fun otherState otherAction =>
    if otherState = state ∧ otherAction = action then watched.calls state action + 1
    else watched.calls otherState otherAction

def machine (update : QUpdate) : Machine WatchedTable QEvent
  | watched, .observe state action target =>
    some { watched with
      table := watched.table.observe update state action target
      calls := watched.called state action }
  | watched, .revise state action target =>
    some { watched with table := watched.table.revise update state action target }
  | watched, .visit state action =>
    some { watched with
      table := watched.table.visit state action
      calls := watched.called state action }
  | watched, .clear => some { watched with table := {}, calls := fun _ _ => 0 }
  | watched, .toJSON =>
    some { watched with taken := watched.taken ++ [(watched.table, watched.calls)] }
  | watched, .loadJSON snapshot =>
    (watched.taken[snapshot]?).map fun earlier =>
      { watched with table := .loadJSON earlier.1.toJSON, calls := earlier.2 }

/-- The number of all visits is the sum of the counts, and an arm's count is the number of calls
for it. -/
structure CountsCalls (table : QTable) (calls : String → String → ℕ) : Prop where
  total : table.totalVisits = table.totalCount
  arms : ∀ state action, (table.read state action).count = calls state action

/-- After an event the counts are those of the calls, and a snapshot that is loaded restores what
was there when it was taken. -/
def Sound (update : QUpdate) (watched : WatchedTable) (event : QEvent) : Prop :=
  ∀ next, machine update watched event = some next →
    CountsCalls next.table next.calls ∧
      ∀ snapshot earlier, event = .loadJSON snapshot → watched.taken[snapshot]? = some earlier →
        earlier.1.Restores next.table

/-- Nothing is revised, and a snapshot is only loaded where nothing is named `__proto__` in it and
the different entries of each state come in the order in which an object lists them. -/
def Countable (watched : WatchedTable) : QEvent → Prop
  | .revise _ _ _ => False
  | .loadJSON snapshot =>
    ∀ earlier, watched.taken[snapshot]? = some earlier → earlier.1.Plain ∧ earlier.1.Ordered
  | _ => True

/-- What is kept of a table and its calls, and of those of each snapshot. -/
structure Kept (watched : WatchedTable) : Prop where
  counts : CountsCalls watched.table watched.calls
  observed : watched.table.Observed
  taken : ∀ earlier ∈ watched.taken, CountsCalls earlier.1 earlier.2 ∧ earlier.1.Observed

variable {update : QUpdate} {watched next : WatchedTable}

theorem CountsCalls.setArm {state action entry} (counts : CountsCalls watched.table watched.calls)
    (counted : entry.count = (watched.table.read state action).count + 1) :
    CountsCalls ⟨watched.table.setArm state action entry, watched.table.totalVisits + 1⟩
      (watched.called state action) := by
  refine ⟨?_, fun otherState otherAction => ?_⟩
  · have sum := watched.table.totalCount_setArm state action entry (watched.table.totalVisits + 1)
    have before := counts.total
    show watched.table.totalVisits + 1 = _
    omega
  · rw [QTable.read_setArm, called]
    split
    · rw [counted, counts.arms]
    · exact counts.arms _ _

theorem CountsCalls.restored {table : QTable} {calls} (counts : CountsCalls table calls)
    (plain : table.Plain) :
    CountsCalls table.restored calls where
  total := table.totalCount_restored.symm
  arms state action := by
    rw [plain.read_restored]
    exact counts.arms state action

theorem not_countsCalls_revise (supplied : SuppliedUpdate update)
    (counts : CountsCalls watched.table watched.calls) (state action : String) (target : JsNumber) :
    ¬ CountsCalls (watched.table.revise update state action target) watched.calls := by
  intro after
  have same := after.arms state action
  rw [QTable.revise, QTable.read_setArm, if_pos ⟨rfl, rfl⟩, supplied.count, counts.arms] at same
  exact absurd same (Nat.succ_ne_self _)

theorem Kept.step (supplied : SuppliedUpdate update) (kept : watched.Kept) {event}
    (countable : watched.Countable event) (taken : machine update watched event = some next) :
    next.Kept := by
  cases event with
  | observe state action target =>
    cases taken
    have counted := supplied.count (watched.table.read state action) target
    exact ⟨kept.counts.setArm counted,
      kept.observed.setArm state action (counted ▸ Nat.succ_pos _) _, kept.taken⟩
  | revise state action target => exact absurd countable id
  | visit state action =>
    cases taken
    exact ⟨kept.counts.setArm rfl, kept.observed.setArm state action (Nat.succ_pos _) _, kept.taken⟩
  | clear =>
    cases taken
    exact ⟨⟨rfl, fun _ _ => rfl⟩, fun _ inside => absurd inside List.not_mem_nil, kept.taken⟩
  | toJSON =>
    cases taken
    refine ⟨kept.counts, kept.observed, fun earlier inside => ?_⟩
    rcases List.mem_append.mp inside with before | this
    · exact kept.taken earlier before
    · obtain rfl := List.mem_singleton.mp this
      exact ⟨kept.counts, kept.observed⟩
  | loadJSON snapshot =>
    obtain ⟨earlier, there, rfl⟩ := Option.map_eq_some_iff.mp taken
    obtain ⟨counts, observed⟩ := kept.taken earlier (List.mem_of_getElem? there)
    obtain ⟨plain, -⟩ := countable earlier there
    exact ⟨counts.restored plain, observed.restored plain, kept.taken⟩

theorem countable_iff (supplied : SuppliedUpdate update) (kept : watched.Kept) {event}
    (taken : machine update watched event = some next) :
    watched.Countable event ↔ watched.Sound update event := by
  constructor
  · intro countable after takenAfter
    refine ⟨(kept.step supplied countable takenAfter).counts, ?_⟩
    rintro snapshot earlier rfl there
    obtain ⟨other, same, rfl⟩ := Option.map_eq_some_iff.mp takenAfter
    cases there.symm.trans same
    obtain ⟨counts, observed⟩ := kept.taken earlier (List.mem_of_getElem? there)
    exact (QTable.restores_iff observed counts.total).mpr (countable earlier there)
  · intro sound
    obtain ⟨counts, restores⟩ := sound next taken
    cases event with
    | revise state action target =>
      cases taken
      exact not_countsCalls_revise supplied kept.counts state action target counts
    | loadJSON snapshot =>
      intro earlier there
      obtain ⟨other, same, rfl⟩ := Option.map_eq_some_iff.mp taken
      cases there.symm.trans same
      obtain ⟨countsThen, observed⟩ := kept.taken earlier (List.mem_of_getElem? there)
      exact (QTable.restores_iff observed countsThen.total).mp (restores snapshot earlier rfl there)
    | observe state action target => trivial
    | visit state action => trivial
    | clear => trivial
    | toJSON => trivial

/-- In a run of a new table the counts are those of the calls and every load restores what its
snapshot was taken of, exactly where nothing is revised and each snapshot that is loaded is one
that an object keeps. -/
theorem sound_iff_countable (supplied : SuppliedUpdate update) {events : List QEvent} :
    Run.Meets (machine update) (Sound update) {} events ↔
      Run.Meets (machine update) Countable {} events := by
  have new : Kept {} :=
    ⟨⟨rfl, fun _ _ => rfl⟩, fun _ inside => absurd inside List.not_mem_nil, nofun⟩
  exact (Run.meets_iff (fun _ _ _ kept taken => countable_iff supplied kept taken)
    (fun _ _ _ kept taken countable => kept.step supplied countable taken) new).symm

/-- An arm is observed, and its estimate is revised. -/
theorem revise_counts :
    ∃ watched, Run (machine meanUpdate) {} [.observe "state" "action" 1] watched ∧
      ¬ watched.Sound meanUpdate (.revise "state" "action" 0) := by
  refine ⟨_, run_of_execute rfl, fun sound => ?_⟩
  exact absurd (sound _ rfl).1.total (by decide)

theorem sound_iff_countable_loaded :
    Run.Meets (machine meanUpdate) (Sound meanUpdate) {}
      [.observe "state" "action" 1, .toJSON, .visit "state" "other", .loadJSON 0] := by
  refine (sound_iff_countable .mean).mpr <| .cons trivial rfl <| .cons trivial rfl <|
    .cons trivial rfl <| .cons ?_ rfl <| .nil _
  intro earlier there
  obtain rfl := Option.some.inj there
  constructor
  · intro row inside
    obtain rfl := List.mem_singleton.mp inside
    refine ⟨by decide, fun entry inArms => ?_⟩
    obtain rfl := List.mem_singleton.mp inArms
    decide
  · intro row inside
    obtain rfl := List.mem_singleton.mp inside
    exact congrArg (fun entries : List (String × QEntry) => uniqueBy id (entries.map Prod.snd))
      (List.perm_singleton.mp (propertyOrder_perm [_]))

end WatchedTable

end Senars.Learning
