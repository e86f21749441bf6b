/-
This file is the indexes of an episodic memory against the scan. Where the files of the ledger are
read in order, the indexes answer with the episodes in the order they were logged and the scan with
the most recent first, and of many the indexes take the last and the scan the first.

So they agree where no episode is more recent than one that was logged before it and the limit
leaves none out, and where the indexes have exactly the episodes that match.
-/

import Senars.Episodic.Indexes

namespace Senars.Episodic

open Library Library.JsNumber Storage

variable {Line : Type} {format : RowFormat LedgerEpisode Line} {config : LedgerConfig}

namespace EpisodicMemory

variable {memory : EpisodicMemory Line}

/-! ### What holds of a memory -/

/-- What holds of an episodic memory throughout. -/
structure Kept (format : RowFormat LedgerEpisode Line) (memory : EpisodicMemory Line) : Prop where
  sound : LedgerHistory.Sound format memory.history
  cached : memory.history.CacheInOrder
  entries : ∀ entry ∈ memory.history.appended, toLedgerEntry (toEpisode entry) = some entry
  refs : memory.given.map (·.ref) = List.range memory.given.length
  unbuilt : memory.indexes = none → memory.given = []
  covers : ∀ indexes, memory.indexes = some indexes → Covers indexes memory.given
  /-- The indexes were given what the ledger has, and episodes that it refused. -/
  complete : memory.indexes.isSome → memory.history.InOrder →
    memory.given.filterMap (toLedgerEntry ·.episode) = memory.history.appended

theorem kept_new : Kept format ({} : EpisodicMemory Line) where
  sound := LedgerHistory.sound_new
  cached := List.nil_sublist _
  entries _ none := absurd none List.not_mem_nil
  refs := rfl
  unbuilt _ := rfl
  covers _ built := by cases built
  complete built := by cases built

theorem Kept.distinct (kept : Kept format memory) : memory.given.Nodup := by
  refine List.Nodup.of_map (·.ref) ?_
  rw [kept.refs]
  exact List.nodup_range

theorem Kept.of_history (kept : Kept format memory) {event history}
    (taken : LedgerHistory.step format episodeBase config memory.history event = some history)
    (appended : history.appended = memory.history.appended) :
    Kept format { memory with history } where
  sound := kept.sound.step taken
  cached := LedgerHistory.cacheInOrder_step kept.cached taken
  entries := by
    rw [appended]
    exact kept.entries
  refs := kept.refs
  unbuilt := kept.unbuilt
  covers := kept.covers
  complete built inOrder := by
    rw [appended]
    exact kept.complete built (kept.sound.inOrder_of_step taken inOrder)

theorem refs_append {given} (refs : given.map (·.ref) = List.range given.length)
    {object : EpisodeObject} (isNext : object.ref = given.length) :
    (given ++ [object]).map (·.ref) = List.range (given ++ [object]).length := by
  rw [List.map_append, refs, List.length_append, List.length_singleton, List.range_succ,
    List.map_singleton, isNext]

theorem entries_append (given : List EpisodeObject) (object : EpisodeObject) :
    (given ++ [object]).filterMap (toLedgerEntry ·.episode) =
      given.filterMap (toLedgerEntry ·.episode) ++ (toLedgerEntry object.episode).toList := by
  rw [List.filterMap_append]
  congr 1

theorem Kept.append (kept : Kept format memory) {episode entry today now history given indexes}
    (accepted : toLedgerEntry episode = some entry)
    (taken : LedgerHistory.step format episodeBase config memory.history
      (.append entry today now) = some history)
    (refs : given.map (·.ref) = List.range given.length) (unbuilt : indexes = none → given = [])
    (covers : ∀ built, indexes = some built → Covers built given)
    (same : indexes.isSome → memory.indexes.isSome ∧
      given = memory.given ++ [⟨memory.given.length, episode⟩]) :
    Kept format { history, indexes, given } where
  sound := kept.sound.step taken
  cached := LedgerHistory.cacheInOrder_step kept.cached taken
  entries := by
    have appended := LedgerHistory.appended_of_append taken
    rw [appended]
    refine List.forall_mem_append.mpr ⟨kept.entries, List.forall_mem_singleton.mpr ?_⟩
    rw [toEpisode_of_toLedgerEntry accepted]
    exact accepted
  refs := refs
  unbuilt := unbuilt
  covers := covers
  complete built inOrder := by
    obtain ⟨wasBuilt, rfl⟩ := same built
    have appended := LedgerHistory.appended_of_append taken
    rw [appended, entries_append,
      kept.complete wasBuilt (kept.sound.inOrder_of_step taken inOrder), accepted]
    rfl

theorem Kept.log (kept : Kept format memory) {episode today now next}
    (taken : memory.log format config episode today now = some next) : Kept format next := by
  unfold EpisodicMemory.log at taken
  cases built : memory.indexes with
  | none =>
    rw [built] at taken
    cases accepted : toLedgerEntry episode with
    | none =>
      rw [accepted] at taken
      cases taken
      exact kept
    | some entry =>
      rw [accepted] at taken
      obtain ⟨history, appends, rfl⟩ := Option.map_eq_some_iff.mp taken
      refine kept.append accepted appends kept.refs kept.unbuilt kept.covers ?_
      rw [built]
      nofun
  | some indexes =>
    have covers := (kept.covers indexes built).log ⟨memory.given.length, episode⟩
    have refs := refs_append kept.refs
      (show (⟨memory.given.length, episode⟩ : EpisodeObject).ref = _ from rfl)
    rw [built] at taken
    cases accepted : toLedgerEntry episode with
    | none =>
      rw [accepted] at taken
      cases taken
      refine ⟨kept.sound, kept.cached, kept.entries, refs, nofun, ?_, fun _ inOrder => ?_⟩
      · intro _ isLogged
        exact Option.some.inj isLogged ▸ covers
      · show (memory.given ++ [_]).filterMap _ = _
        rw [entries_append, kept.complete (by rw [built]; rfl) inOrder, accepted]
        exact List.append_nil _
    | some entry =>
      rw [accepted] at taken
      obtain ⟨history, appends, rfl⟩ := Option.map_eq_some_iff.mp taken
      refine kept.append accepted appends refs nofun ?_ fun _ => ⟨by rw [built]; rfl, rfl⟩
      intro _ isLogged
      exact Option.some.inj isLogged ▸ covers

theorem Kept.query (config : LedgerConfig) (kept : Kept format memory) (filter : LedgerQuery)
    (now : ℕ) : Kept format (memory.query format config filter now).1 := by
  have taken : LedgerHistory.step format episodeBase config memory.history (.query filter now) =
      some (memory.history.after format episodeBase config (.query filter now)) := rfl
  exact kept.of_history taken rfl

/-! ### Building the indexes -/

/-- The objects that the entries of the ledger are read as. -/
def readObjects (entries : List LedgerEpisode) : List EpisodeObject :=
  entries.zipIdx.map fun entry => ⟨entry.2, toEpisode entry.1⟩

theorem refs_readObjects (entries : List LedgerEpisode) :
    (readObjects entries).map (·.ref) = List.range (readObjects entries).length := by
  unfold readObjects
  rw [List.map_map, List.length_map, List.length_zipIdx, List.range_eq_range']
  exact List.zipIdx_map_snd 0 entries

theorem entries_readObjects {entries : List LedgerEpisode}
    (were : ∀ entry ∈ entries, toLedgerEntry (toEpisode entry) = some entry) :
    (readObjects entries).filterMap (toLedgerEntry ·.episode) = entries := by
  have read : (readObjects entries).filterMap (toLedgerEntry ·.episode) =
      (entries.zipIdx.map Prod.fst).filterMap fun entry => toLedgerEntry (toEpisode entry) := by
    unfold readObjects
    rw [List.filterMap_map, List.filterMap_map]
    rfl
  rw [read, List.zipIdx_map_fst, List.filterMap_congr were, List.filterMap_some]

/-- What a memory has once its indexes are there. -/
structure Built (memory next : EpisodicMemory Line) (indexes : Indexes) : Prop where
  indexes : next.indexes = some indexes
  appended : next.history.appended = memory.history.appended
  inOrder : memory.history.InOrder → next.history.InOrder

theorem Kept.buildIndexes (config : LedgerConfig) (kept : Kept format memory) (now : ℕ) :
    Kept format (memory.buildIndexes format config now).1 ∧
      Built memory (memory.buildIndexes format config now).1
        (memory.buildIndexes format config now).2 := by
  unfold EpisodicMemory.buildIndexes
  cases built : memory.indexes with
  | some indexes => exact ⟨kept, built, rfl, id⟩
  | none =>
    have queried := kept.query config {} now
    refine ⟨⟨queried.sound, queried.cached, queried.entries, refs_readObjects _, nofun, ?_, ?_⟩,
      rfl, rfl, id⟩
    · intro indexes isBuilt
      exact Option.some.inj isBuilt ▸ covers_build _
    · intro _ inOrder
      have read := (kept.sound.query_eq_appended_iff episodeBase now).1 inOrder
      show (readObjects (memory.history.ledger.query format episodeBase {} now).2).filterMap _ =
        memory.history.appended
      rw [read]
      exact entries_readObjects kept.entries

theorem Kept.getEpisodes (kept : Kept format memory) (options : EpisodeFilter) (now : ℕ) :
    Kept format (memory.getEpisodes format config options now).1 := by
  have built := (kept.buildIndexes config now).1
  unfold EpisodicMemory.getEpisodes
  split
  · exact built
  · split
    · exact built
    · exact kept.query config options.toLedgerQuery now

theorem Kept.step {enabled next event} (kept : Kept format memory)
    (taken : memoryStep format config enabled memory event = some next) : Kept format next := by
  cases event with
  | log metadata timestamp type content newId today now =>
    change (if enabled then memory.log format config _ today now else some memory) = some next
      at taken
    split at taken
    · exact kept.log taken
    · cases taken
      exact kept
  | getEpisodes options now =>
    cases taken
    exact kept.getEpisodes options now
  | pruneOldFiles cutoff =>
    cases taken
    have swept : LedgerHistory.step format episodeBase config memory.history
        (.pruneOldFiles cutoff) =
          some (memory.history.after format episodeBase config (.pruneOldFiles cutoff)) := rfl
    exact kept.of_history swept rfl

theorem kept_of_run {enabled events}
    (run : Run (memoryStep format config enabled) ({} : EpisodicMemory Line) events memory) :
    Kept format memory :=
  run.keeps (fun _ _ _ kept taken => kept.step taken) kept_new

/-! ### The answers -/

/-- The logged episodes that match, in the order they were logged. -/
def matching (memory : EpisodicMemory Line) (options : EpisodeFilter) : List Episode :=
  (memory.history.appended.map toEpisode).filter (matchesFilter options)

/-- The order a scan answers in. -/
def mostRecent (episodes : List Episode) : List Episode :=
  Cycle.rankBy episodes (fun episode => .finite episode.timestamp) {}

/-- The limit leaves out no episode that the ids and the time range of a filter let through. -/
def Enough (memory : EpisodicMemory Line) (options : EpisodeFilter) : Prop :=
  ∀ limit, options.limit = some limit →
    (memory.history.appended.filter
      (Storage.matchesFilter episodeBase options.toLedgerQuery)).length ≤ limit

theorem Kept.matching_eq (kept : Kept format memory) (options : EpisodeFilter) :
    memory.matching options =
      ((memory.history.appended.filter
        (Storage.matchesFilter episodeBase options.toLedgerQuery)).map toEpisode).filter
          (matchesFilter options) := by
  unfold matching
  rw [List.filter_map, List.filter_map, List.filter_filter]
  congr 1
  refine List.filter_congr fun entry isEntry => ?_
  refine (Bool.and_eq_left_iff_imp.mpr fun isMatch => ?_).symm
  exact matchesFilter_toLedgerQuery (kept.entries entry isEntry) isMatch

variable {options : EpisodeFilter}

theorem Kept.length_matching_le (kept : Kept format memory) (enough : memory.Enough options)
    {limit} (limited : options.limit = some limit) : (memory.matching options).length ≤ limit := by
  rw [kept.matching_eq options]
  refine (List.length_filter_le _ _).trans ?_
  rw [List.length_map]
  exact enough limit limited

theorem Kept.scanEpisodes (kept : Kept format memory) (inOrder : memory.history.InOrder) {options}
    (enough : memory.Enough options) (now : ℕ) :
    (memory.scanEpisodes format config options now).2 = mostRecent (memory.matching options) := by
  have read : (memory.history.ledger.query format episodeBase options.toLedgerQuery now).2 =
      memory.history.appended.filter
        (Storage.matchesFilter episodeBase options.toLedgerQuery) :=
    kept.sound.query_of_enough kept.cached inOrder
      (fun limit limited => enough limit (Option.filter_eq_some_iff.mp limited).1) now
  rw [kept.matching_eq options, ← read]
  rfl

theorem descending_finite {first second} :
    Cycle.descending.le (.finite first) (.finite second) = true ↔ second ≤ first := by
  simp [Cycle.descending, lessEq]

theorem mostRecent_eq (episodes : List Episode) :
    mostRecent episodes =
      (Cycle.descending.comap fun episode : Episode => .finite episode.timestamp).toSorted
        episodes := by
  unfold mostRecent Cycle.rankBy
  rw [List.filter_true]

theorem mostRecent_eq_self_iff {episodes} :
    mostRecent episodes = episodes ↔
      episodes.Pairwise fun earlier later => later.timestamp ≤ earlier.timestamp := by
  have sorted : (Cycle.descending.comap fun episode : Episode => .finite episode.timestamp).Sorted
      episodes ↔ episodes.Pairwise fun earlier later => later.timestamp ≤ earlier.timestamp :=
    List.Pairwise.iff fun _ _ => descending_finite
  rw [mostRecent_eq, ← sorted]
  constructor
  · intro same
    rw [← same]
    exact Comparison.toSorted_sorted _ _
  · exact Comparison.Sorted.toSorted_eq

theorem length_mostRecent (episodes : List Episode) :
    (mostRecent episodes).length = episodes.length := by
  rw [mostRecent_eq, Comparison.length_toSorted]

/-! ### What the indexes answer -/

/-- A filter that is answered from the indexes. -/
def Indexed (options : EpisodeFilter) : Bool := AsksCausal options || AsksMetadata options

/-- The indexes can tell what matches: a cause or a consequence is asked for, or one of the ids is
known to them, or they are yet to be built. -/
def Reached (memory : EpisodicMemory Line) (options : EpisodeFilter) : Prop :=
  AsksCausal options = true ∨
    ∀ indexes, memory.indexes = some indexes → indexes.knows options = true

/-- What of an answer the limit leaves. -/
def cut (options : EpisodeFilter) (episodes : List Episode) : List Episode :=
  match options.limit with
  | none => episodes
  | some limit => takeLast episodes limit

theorem resolve_eq (sources : List (List EpisodeObject)) (options : EpisodeFilter) :
    resolve sources options =
      cut options (((candidates sources).filter (matchesFilter options ·.episode)).map
        (·.episode)) := rfl

/-- The episodes that match of those the indexes were given, each as often as it is named. -/
def answered (options : EpisodeFilter) (given : List EpisodeObject) : List EpisodeObject :=
  (given.filter (matchesFilter options ·.episode)).flatMap fun object =>
    List.replicate (timesNamed options object.episode) object

theorem timesNamed_of_metadata (asks : AsksCausal options ≠ true) (episode : Episode) :
    timesNamed options episode = 1 := by
  unfold AsksCausal at asks
  rw [Ne, Bool.or_eq_true, not_or, Option.not_isSome_iff_eq_none,
    Option.not_isSome_iff_eq_none] at asks
  unfold timesNamed
  rw [asks.1, asks.2]

theorem answered_of_metadata (asks : AsksCausal options ≠ true) (given : List EpisodeObject) :
    answered options given = given.filter (matchesFilter options ·.episode) :=
  flatMap_replicate_once fun object _ => timesNamed_of_metadata asks object.episode

theorem Kept.answer_of_reached (config : LedgerConfig) (kept : Kept format memory)
    (indexed : Indexed options = true) (reached : memory.Reached options) (now : ℕ) :
    (memory.getEpisodes format config options now).2 =
      cut options ((answered options
        (memory.buildIndexes format config now).1.given).map (·.episode)) := by
  obtain ⟨keptNext, built⟩ := kept.buildIndexes config now
  have covers := keptNext.covers _ built.indexes
  unfold EpisodicMemory.getEpisodes
  by_cases asks : AsksCausal options = true
  · rw [if_pos asks]
    show resolve _ options = _
    rw [resolve_eq, filter_causalSources covers keptNext.distinct asks]
    rfl
  · have asksMetadata : AsksMetadata options = true :=
      (Bool.or_eq_true_iff.mp indexed).resolve_left asks
    rw [if_neg asks, if_pos asksMetadata, answered_of_metadata asks]
    show resolve _ options = _
    rw [resolve_eq, filter_metadataSources covers keptNext.distinct asksMetadata]
    split
    · rfl
    · next unknown =>
      congr 2
      refine (List.filter_eq_nil_iff.mpr fun object isGiven isMatch => unknown ?_).symm
      unfold EpisodicMemory.buildIndexes at isGiven ⊢
      cases isBuilt : memory.indexes with
      | some indexes => exact (reached.resolve_left asks) indexes isBuilt
      | none =>
        rw [isBuilt] at isGiven
        exact knows_build isGiven asksMetadata isMatch

theorem Kept.answer_of_unreached (config : LedgerConfig) (kept : Kept format memory)
    (indexed : Indexed options = true) (unreached : ¬ memory.Reached options) (now : ℕ) :
    (memory.getEpisodes format config options now).2 = [] := by
  obtain ⟨keptNext, built⟩ := kept.buildIndexes config now
  have covers := keptNext.covers _ built.indexes
  obtain ⟨asks, unknown⟩ := not_or.mp unreached
  have asksMetadata : AsksMetadata options = true :=
    (Bool.or_eq_true_iff.mp indexed).resolve_left asks
  have notKnown : (memory.buildIndexes format config now).2.knows options ≠ true := by
    intro knows
    refine unknown fun indexes isBuilt => ?_
    unfold EpisodicMemory.buildIndexes at knows
    rwa [isBuilt] at knows
  unfold EpisodicMemory.getEpisodes
  rw [if_neg asks, if_pos asksMetadata]
  show resolve _ options = _
  rw [resolve_eq, filter_metadataSources covers keptNext.distinct asksMetadata, if_neg notKnown]
  unfold cut takeLast trimCapped
  split
  · rfl
  · exact List.drop_nil

/-! ### Agreement -/

/-- The answer is what a scan answers, and with a limit it is the most recent episodes that match,
as many as that. -/
def Agrees (format : RowFormat LedgerEpisode Line) (config : LedgerConfig)
    (memory : EpisodicMemory Line) (options : EpisodeFilter) (now : ℕ) : Prop :=
  (memory.getEpisodes format config options now).2 =
      (memory.scanEpisodes format config options now).2 ∧
    ∀ limit, options.limit = some limit →
      (memory.getEpisodes format config options now).2 =
        (mostRecent (memory.matching options)).take limit

/-- Of the episodes that match the ledger has refused none that the indexes were given, none names
the only cause or consequence that is asked for twice, and none is more recent than one that was
logged before it. -/
structure TellsInOrder (memory : EpisodicMemory Line) (options : EpisodeFilter) : Prop where
  accepted : ∀ object ∈ memory.given, matchesFilter options object.episode = true →
    (toLedgerEntry object.episode).isSome = true
  once : ∀ episode ∈ memory.matching options, timesNamed options episode = 1
  times : (memory.matching options).Pairwise fun earlier later =>
    later.timestamp ≤ earlier.timestamp

/-- What the indexes have to tell, where they are asked: all that matches in the order of a scan, or
nothing where they know none of the ids. -/
def ServedInOrder (memory : EpisodicMemory Line) (options : EpisodeFilter) : Prop :=
  Indexed options = true →
    (memory.Reached options → memory.TellsInOrder options) ∧
      (¬ memory.Reached options → memory.matching options = [])

theorem matching_eq_given (memory : EpisodicMemory Line) {given : List EpisodeObject}
    (complete : given.filterMap (toLedgerEntry ·.episode) = memory.history.appended)
    (options : EpisodeFilter) :
    memory.matching options =
      ((given.filter (matchesFilter options ·.episode)).filter
        fun object => (toLedgerEntry object.episode).isSome).map (·.episode) := by
  unfold matching
  rw [← complete]
  clear complete
  induction given with
  | nil => rfl
  | cons object rest ih =>
    rw [List.filterMap_cons]
    cases accepted : toLedgerEntry object.episode with
    | none =>
      rw [ih, List.filter_filter, List.filter_filter, List.filter_cons_of_neg]
      rw [accepted]
      exact Bool.false_ne_true
    | some entry =>
      rw [List.map_cons, toEpisode_of_toLedgerEntry accepted]
      by_cases isMatch : matchesFilter options object.episode = true
      · have objects : (object :: rest).filter (matchesFilter options ·.episode) =
            object :: rest.filter (matchesFilter options ·.episode) :=
          List.filter_cons_of_pos isMatch
        rw [List.filter_cons_of_pos isMatch, ih, objects,
          List.filter_cons_of_pos (by rw [accepted]; rfl), List.map_cons]
      · have objects : (object :: rest).filter (matchesFilter options ·.episode) =
            rest.filter (matchesFilter options ·.episode) := List.filter_cons_of_neg isMatch
        rw [List.filter_cons_of_neg isMatch, ih, objects]

section

variable {options : EpisodeFilter}

theorem Kept.forall_given_iff (config : LedgerConfig) (kept : Kept format memory)
    (inOrder : memory.history.InOrder) (options : EpisodeFilter) (now : ℕ) :
    (∀ object ∈ (memory.buildIndexes format config now).1.given,
        matchesFilter options object.episode = true →
          (toLedgerEntry object.episode).isSome = true) ↔
      ∀ object ∈ memory.given, matchesFilter options object.episode = true →
        (toLedgerEntry object.episode).isSome = true := by
  unfold EpisodicMemory.buildIndexes
  cases built : memory.indexes with
  | some indexes => exact Iff.rfl
  | none =>
    rw [kept.unbuilt built]
    refine iff_of_true (fun object isGiven _ => ?_) fun _ none => absurd none List.not_mem_nil
    obtain ⟨read, isRead, rfl⟩ := List.mem_map.mp isGiven
    have isEntry : read.1 ∈
        ((memory.history.ledger.query format episodeBase {} now).2.zipIdx).map Prod.fst :=
      List.mem_map_of_mem isRead
    rw [List.zipIdx_map_fst,
      (kept.sound.query_eq_appended_iff episodeBase now).1 inOrder] at isEntry
    rw [kept.entries _ isEntry]
    rfl

theorem Kept.matching_eq_built (config : LedgerConfig) (kept : Kept format memory)
    (inOrder : memory.history.InOrder) (options : EpisodeFilter) (now : ℕ) :
    memory.matching options =
      (((memory.buildIndexes format config now).1.given.filter
        (matchesFilter options ·.episode)).filter
          fun object => (toLedgerEntry object.episode).isSome).map (·.episode) := by
  obtain ⟨keptNext, built⟩ := kept.buildIndexes config now
  refine memory.matching_eq_given ?_ options
  rw [keptNext.complete (by rw [built.indexes]; rfl) (built.inOrder inOrder), built.appended]

theorem Kept.answered_eq_matching (config : LedgerConfig) (kept : Kept format memory)
    (inOrder : memory.history.InOrder)
    (accepted : ∀ object ∈ memory.given, matchesFilter options object.episode = true →
      (toLedgerEntry object.episode).isSome = true)
    (once : ∀ episode ∈ memory.matching options, timesNamed options episode = 1) (now : ℕ) :
    (answered options (memory.buildIndexes format config now).1.given).map (·.episode) =
      memory.matching options := by
  have accepted := (kept.forall_given_iff config inOrder options now).mpr accepted
  have isMatching := kept.matching_eq_built config inOrder options now
  have all : ((memory.buildIndexes format config now).1.given.filter
      (matchesFilter options ·.episode)).filter
        (fun object => (toLedgerEntry object.episode).isSome) =
          (memory.buildIndexes format config now).1.given.filter
            (matchesFilter options ·.episode) := by
    refine List.filter_eq_self.mpr fun object member => ?_
    obtain ⟨isGiven, isMatch⟩ := List.mem_filter.mp member
    exact accepted object isGiven isMatch
  rw [all] at isMatching
  rw [isMatching] at once ⊢
  unfold answered
  rw [flatMap_replicate_once fun object member => once _ (List.mem_map_of_mem member)]

theorem timesNamed_ne_zero {episode} (isMatch : matchesFilter options episode = true) :
    timesNamed options episode ≠ 0 := by
  obtain ⟨_, _, causes, consequences⟩ := of_matchesFilter isMatch
  unfold timesNamed
  split
  · next id isAsked _ => exact (List.count_pos_iff.mpr (causes id isAsked)).ne'
  · next id _ isAsked => exact (List.count_pos_iff.mpr (consequences id isAsked)).ne'
  · exact Nat.one_ne_zero

theorem Kept.agrees_of_served (config : LedgerConfig) (kept : Kept format memory)
    (inOrder : memory.history.InOrder) (enough : memory.Enough options)
    (served : memory.ServedInOrder options) (now : ℕ) :
    memory.Agrees format config options now := by
  have scanned : (memory.scanEpisodes format config options now).2 =
      mostRecent (memory.matching options) := kept.scanEpisodes inOrder enough now
  have taken : ∀ limit, options.limit = some limit →
      (mostRecent (memory.matching options)).take limit = mostRecent (memory.matching options) := by
    intro limit limited
    refine List.take_of_length_le ?_
    rw [length_mostRecent]
    exact kept.length_matching_le enough limited
  have answer : (memory.getEpisodes format config options now).2 =
      mostRecent (memory.matching options) := by
    by_cases indexed : Indexed options = true
    · by_cases reached : memory.Reached options
      · have tells := (served indexed).1 reached
        rw [kept.answer_of_reached config indexed reached,
          kept.answered_eq_matching config inOrder tells.accepted tells.once,
          mostRecent_eq_self_iff.mpr tells.times]
        unfold cut takeLast
        split
        · rfl
        · next limit limited =>
          exact trimCapped_eq_self (kept.length_matching_le enough limited)
      · rw [kept.answer_of_unreached config indexed reached, (served indexed).2 reached]
        rfl
    · unfold Indexed at indexed
      rw [Bool.or_eq_true, not_or] at indexed
      rw [← scanned, EpisodicMemory.getEpisodes, if_neg indexed.1, if_neg indexed.2]
  exact ⟨answer.trans scanned.symm, fun limit limited => answer.trans (taken limit limited).symm⟩

theorem Kept.served_of_agrees (kept : Kept format memory) (inOrder : memory.history.InOrder)
    (unlimited : options.limit = none) {now} (agrees : memory.Agrees format config options now) :
    memory.ServedInOrder options := by
  have enough : memory.Enough options := by
    intro limit limited
    cases unlimited.symm.trans limited
  have answer := agrees.1
  rw [kept.scanEpisodes inOrder enough now] at answer
  intro indexed
  constructor
  · intro reached
    rw [kept.answer_of_reached config indexed reached, cut, unlimited] at answer
    have lengths := congrArg List.length answer
    have isMatching := kept.matching_eq_built config inOrder options now
    rw [length_mostRecent, isMatching, List.length_map, List.length_map] at lengths
    have once := kept_once_of_length_le (fun object member =>
      timesNamed_ne_zero (List.mem_filter.mp member).2) lengths.le
    have accepted := (kept.forall_given_iff config inOrder options now).mp
      fun object isGiven isMatch => (once object (List.mem_filter.mpr ⟨isGiven, isMatch⟩)).1
    have named : ∀ episode ∈ memory.matching options, timesNamed options episode = 1 := by
      intro episode member
      rw [isMatching] at member
      obtain ⟨object, isKept, rfl⟩ := List.mem_map.mp member
      exact (once object (List.mem_filter.mp isKept).1).2
    have found := kept.answered_eq_matching config inOrder accepted named now
    exact ⟨accepted, named, mostRecent_eq_self_iff.mp (answer.symm.trans found)⟩
  · intro unreached
    rw [kept.answer_of_unreached config indexed unreached] at answer
    have lengths := congrArg List.length answer
    rw [length_mostRecent] at lengths
    exact List.length_eq_zero_iff.mp lengths.symm

end

/-- Whatever was logged and asked, where the files are read in order and the limit leaves none out,
the indexes answer as a scan where they have exactly what matches and none of it is more recent than
what was logged before it. Without a limit it is so only there. -/
theorem indexes_agree_of_served {enabled : Bool} {events : List EpisodicEvent}
    (run : Run (memoryStep format config enabled) ({} : EpisodicMemory Line) events memory)
    (options : EpisodeFilter) (now : ℕ) (inOrder : memory.history.InOrder)
    (enough : memory.Enough options) :
    (memory.ServedInOrder options → memory.Agrees format config options now) ∧
      (options.limit = none → memory.Agrees format config options now →
        memory.ServedInOrder options) := by
  have kept := kept_of_run run
  refine ⟨fun served => kept.agrees_of_served config inOrder enough served now, ?_⟩
  exact fun unlimited agrees => kept.served_of_agrees inOrder unlimited agrees

/-! ### Two episodes of a session -/

/-- Entries that are written as they are. -/
def episodeFormat : RowFormat LedgerEpisode LedgerEpisode where
  stringify entry := entry
  safeParse line := some line
  safeParse_stringify _ := rfl

/-- Two episodes of a session, the second at a later time or not. -/
def twoLogs (later : ℚ) : List EpisodicEvent :=
  let session : LogMetadata := { metadata := { sessionId := .text "session" } }
  [.log session 1 .input "first" "1" LedgerHistory.newYear 0,
    .log session later .response "second" "2" LedgerHistory.newYear 0]

def twoEpisodes (later : ℚ) : EpisodicMemory LedgerEpisode :=
  (execute (memoryStep episodeFormat {} true) {} (twoLogs later)).getD {}

theorem indexes_agree_of_served_sameTime :
    (twoEpisodes 1).Agrees episodeFormat {} { sessionId := some "session", limit := some 2 } 0 := by
  have run : Run (memoryStep episodeFormat {} true) {} (twoLogs 1) (twoEpisodes 1) :=
    run_of_execute rfl
  refine (indexes_agree_of_served run _ 0 ⟨rfl, by decide +kernel⟩ ?_).1 fun _ => ⟨fun _ => ?_, ?_⟩
  · rintro _ ⟨⟩
    decide +kernel
  · exact ⟨by decide +kernel, by decide +kernel, by decide +kernel⟩
  · exact fun unreached => absurd (.inr fun _ built => by cases built) unreached

/-- The indexes answer with the first episode of a session first, and a scan with the last one. -/
theorem most_recent_last : ¬ ∀ (config : LedgerConfig) (events : List EpisodicEvent)
    (memory : EpisodicMemory LedgerEpisode) (options : EpisodeFilter) (now : ℕ),
      Run (memoryStep episodeFormat config true) {} events memory →
        memory.Agrees episodeFormat config options now := by
  intro always
  have agrees := always {} (twoLogs 2) (twoEpisodes 2) { sessionId := some "session" } 0
    (run_of_execute rfl)
  exact absurd agrees.1 (by decide +kernel)

end EpisodicMemory

end Senars.Episodic
