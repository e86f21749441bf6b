/-
This file is about what the indexes of an episodic memory hold. A bucket of a session or of a
correlation that is there has all its episodes, in the order the indexes were given them, and the
buckets of causes and consequences have each episode as often as it names them.

So an answer from the indexes has all episodes that match, where one of the ids that are asked for
is known and no episode names the only cause that is asked for twice.
-/

import Senars.Episodic.EpisodicMemory

namespace Senars.Episodic

open Library Storage

/-! ### Entries -/

theorem strings_eq_some {values texts} (areTexts : strings values = some texts) :
    texts.map .text = values := by
  fun_induction strings values generalizing texts with
  | case1 =>
    cases areTexts
    rfl
  | case2 text rest ih =>
    obtain ⟨later, areLater, rfl⟩ := Option.map_eq_some_iff.mp areTexts
    rw [List.map_cons, ih areLater]
  | case3 => cases areTexts

theorem optionalStrings_eq_some {values texts} (areTexts : optionalStrings values = some texts) :
    texts.map (·.map .text) = values := by
  cases values with
  | none =>
    cases areTexts
    rfl
  | some values =>
    obtain ⟨texts, are, rfl⟩ := Option.map_eq_some_iff.mp areTexts
    exact congrArg some (strings_eq_some are)

variable {episode : Episode} {entry : LedgerEpisode}

theorem toEpisode_of_toLedgerEntry (accepted : toLedgerEntry episode = some entry) :
    toEpisode entry = episode := by
  obtain ⟨correlationId, _, accepted⟩ := Option.bind_eq_some_iff.mp accepted
  obtain ⟨sessionId, _, accepted⟩ := Option.bind_eq_some_iff.mp accepted
  obtain ⟨causes, areCauses, accepted⟩ := Option.bind_eq_some_iff.mp accepted
  obtain ⟨consequences, areConsequences, accepted⟩ := Option.bind_eq_some_iff.mp accepted
  obtain ⟨context, isContext, accepted⟩ := Option.bind_eq_some_iff.mp accepted
  cases accepted
  unfold toEpisode
  rw [optionalStrings_eq_some areCauses, optionalStrings_eq_some areConsequences,
    optionalStrings_eq_some isContext]

theorem asked_asked (wanted : Option String) : asked (asked wanted) = asked wanted := by
  unfold asked
  simp

theorem ids_of_toLedgerEntry (accepted : toLedgerEntry episode = some entry) :
    episode.metadata.correlationId.optionalString = some entry.correlationId ∧
      episode.metadata.sessionId.optionalString = some entry.sessionId ∧
        episode.timestamp = entry.atTime := by
  obtain ⟨correlationId, isCorrelation, accepted⟩ := Option.bind_eq_some_iff.mp accepted
  obtain ⟨sessionId, isSession, accepted⟩ := Option.bind_eq_some_iff.mp accepted
  obtain ⟨_, _, accepted⟩ := Option.bind_eq_some_iff.mp accepted
  obtain ⟨_, _, accepted⟩ := Option.bind_eq_some_iff.mp accepted
  obtain ⟨_, _, accepted⟩ := Option.bind_eq_some_iff.mp accepted
  cases accepted
  exact ⟨isCorrelation, isSession, rfl⟩

theorem optionalString_text {value : MetadataValue} {id found} (isText : value = .text id)
    (isFound : value.optionalString = some found) : found = some id := by
  subst isText
  exact (Option.some.inj isFound).symm

theorem matchesFilter_toLedgerQuery {options} (accepted : toLedgerEntry episode = some entry)
    (isMatch : matchesFilter options episode = true) :
    Storage.matchesFilter episodeBase options.toLedgerQuery entry = true := by
  obtain ⟨isCorrelation, isSession, isTime⟩ := ids_of_toLedgerEntry accepted
  unfold matchesFilter at isMatch
  simp only [Bool.and_eq_true] at isMatch
  obtain ⟨⟨⟨⟨⟨correlation, session⟩, _⟩, time⟩, _⟩, _⟩ := isMatch
  rw [isTime] at time
  have correlated : (asked (asked options.correlationId)).all
      (entry.correlationId = some ·) = true := by
    rw [asked_asked]
    refine Option.all_eq_true _ _ |>.mpr fun id isAsked => ?_
    have isText := of_decide_eq_true (Option.all_eq_true _ _ |>.mp correlation id isAsked)
    exact decide_eq_true (optionalString_text isText isCorrelation)
  have inSession : (asked (asked options.sessionId)).all (entry.sessionId = some ·) = true := by
    rw [asked_asked]
    refine Option.all_eq_true _ _ |>.mpr fun id isAsked => ?_
    have isText := of_decide_eq_true (Option.all_eq_true _ _ |>.mp session id isAsked)
    exact decide_eq_true (optionalString_text isText isSession)
  unfold Storage.matchesFilter EpisodeFilter.toLedgerQuery episodeBase
  refine Bool.and_eq_true_iff.mpr ⟨Bool.and_eq_true_iff.mpr ⟨Bool.and_eq_true_iff.mpr
    ⟨correlated, inSession⟩, ?_⟩, ?_⟩
  all_goals
    cases range : options.timeRange with
    | none => rfl
    | some range =>
      rw [range] at time
      obtain ⟨start, stop⟩ := Bool.and_eq_true_iff.mp time
      refine Option.all_eq_true _ _ |>.mpr fun bound isBound => ?_
      obtain ⟨same, _⟩ := Option.filter_eq_some_iff.mp isBound
      cases same
      assumption

/-! ### Buckets -/

theorem correlationKey_inj {first second} :
    correlationKey first = correlationKey second ↔ first = second := by
  unfold correlationKey
  exact ⟨fun same => by simpa using same, congrArg _⟩

theorem sessionKey_inj {first second} : sessionKey first = sessionKey second ↔ first = second := by
  unfold sessionKey
  exact ⟨fun same => by simpa using same, congrArg _⟩

theorem correlationKey_ne_sessionKey (first second : String) :
    correlationKey first ≠ sessionKey second := by
  intro same
  have chars := congrArg String.toList same
  simp [correlationKey, sessionKey] at chars

/-- The causal index has each episode as often as it names a cause or a consequence. -/
def CausalCovers (causal : CausalIndex) (given : List EpisodeObject) : Prop :=
  ∀ value,
    causal.byCauses.bucket value =
        given.flatMap (fun object =>
          List.replicate ((object.episode.causes.getD []).count value) object) ∧
      causal.byConsequences.bucket value =
        given.flatMap (fun object =>
          List.replicate ((object.episode.consequences.getD []).count value) object)

/-- Each bucket of an id that is there has the episodes of the id, though it may have others. -/
structure Covers (indexes : Indexes) (given : List EpisodeObject) : Prop where
  correlation : ∀ id bucket, indexes.index.get (correlationKey id) = some bucket →
    bucket.filter (·.episode.metadata.correlationId = .text id) =
      given.filter (·.episode.metadata.correlationId = .text id)
  session : ∀ id bucket, indexes.index.get (sessionKey id) = some bucket →
    bucket.filter (·.episode.metadata.sessionId = .text id) =
      given.filter (·.episode.metadata.sessionId = .text id)
  causal : CausalCovers indexes.causal given

/-- Each bucket of an id has the episodes of the id and no others, whether it is there or not. -/
structure Holds (indexes : Indexes) (given : List EpisodeObject) : Prop where
  correlation : ∀ id, indexes.index.bucket (correlationKey id) =
    given.filter (·.episode.metadata.correlationId = .text id)
  session : ∀ id, indexes.index.bucket (sessionKey id) =
    given.filter (·.episode.metadata.sessionId = .text id)

theorem bucket_pushText {key} (injective : ∀ {one two}, key one = key two ↔ one = two)
    (index : Buckets String EpisodeObject) (value : MetadataValue) (object : EpisodeObject)
    (id : String) :
    (pushText index key value object).bucket (key id) =
      index.bucket (key id) ++ if value = .text id then [object] else [] := by
  cases value with
  | text written =>
    show (index.push (key written) object).bucket (key id) = _
    rw [Buckets.bucket_push]
    simp only [injective, MetadataValue.text.injEq]
  | absent => exact (List.append_nil _).symm
  | other written => exact (List.append_nil _).symm

theorem bucket_pushText_of_ne {key other} (different : ∀ written, key written ≠ other)
    (index : Buckets String EpisodeObject) (value : MetadataValue) (object : EpisodeObject) :
    (pushText index key value object).bucket other = index.bucket other := by
  cases value with
  | text written =>
    show (index.push (key written) object).bucket other = _
    rw [Buckets.bucket_push, if_neg (different written), List.append_nil]
  | absent => rfl
  | other written => rfl

theorem filter_append_singleton {keep} (given : List EpisodeObject) (object : EpisodeObject) :
    (given ++ [object]).filter keep =
      given.filter keep ++ if keep object then [object] else [] := by
  rw [List.filter_append]
  by_cases kept : keep object = true
  · rw [if_pos kept, List.filter_cons_of_pos kept]
    rfl
  · rw [if_neg kept, List.filter_cons_of_neg kept]
    rfl

section

variable {indexes : Indexes} {given : List EpisodeObject}

theorem Holds.read (holds : Holds indexes given) (object : EpisodeObject) :
    Holds (indexes.read object) (given ++ [object]) where
  correlation id := by
    show (pushText (pushText indexes.index _ _ object) sessionKey _ object).bucket _ = _
    rw [bucket_pushText_of_ne fun written => (correlationKey_ne_sessionKey id written).symm,
      bucket_pushText correlationKey_inj, holds.correlation, filter_append_singleton]
    simp only [decide_eq_true_eq]
  session id := by
    show (pushText (pushText indexes.index _ _ object) sessionKey _ object).bucket _ = _
    rw [bucket_pushText sessionKey_inj,
      bucket_pushText_of_ne fun written => correlationKey_ne_sessionKey written id,
      holds.session, filter_append_singleton]
    simp only [decide_eq_true_eq]

theorem CausalCovers.add {causal} (covers : CausalCovers causal given) (object : EpisodeObject) :
    CausalCovers (causal.add object) (given ++ [object]) := by
  intro value
  obtain ⟨causes, consequences⟩ := covers value
  constructor
  · rw [CausalIndex.add, Buckets.bucket_pushEach, causes, List.flatMap_append,
      List.flatMap_singleton]
  · rw [CausalIndex.add, Buckets.bucket_pushEach, consequences, List.flatMap_append,
      List.flatMap_singleton]

theorem holds_build (objects : List EpisodeObject) :
    Holds (Indexes.build objects) objects ∧
      CausalCovers (Indexes.build objects).causal objects := by
  have folds : ∀ (later : List EpisodeObject) (indexes : Indexes) (given : List EpisodeObject),
      Holds indexes given → CausalCovers indexes.causal given →
        Holds (later.foldl Indexes.read indexes) (given ++ later) ∧
          CausalCovers (later.foldl Indexes.read indexes).causal (given ++ later) := by
    intro later
    induction later with
    | nil =>
      intro indexes given holds covers
      rw [List.append_nil]
      exact ⟨holds, covers⟩
    | cons object rest ih =>
      intro indexes given holds covers
      have next := ih _ _ (holds.read object) (covers.add object)
      rwa [List.append_assoc] at next
  exact folds objects {} [] ⟨fun _ => rfl, fun _ => rfl⟩ fun _ => ⟨rfl, rfl⟩

theorem covers_build (objects : List EpisodeObject) : Covers (Indexes.build objects) objects := by
  obtain ⟨holds, causal⟩ := holds_build objects
  refine ⟨fun id bucket known => ?_, fun id bucket known => ?_, causal⟩
  · have isBucket := holds.correlation id
    rw [Buckets.bucket, known, Option.getD_some] at isBucket
    rw [isBucket, List.filter_filter]
    simp only [Bool.and_self]
  · have isBucket := holds.session id
    rw [Buckets.bucket, known, Option.getD_some] at isBucket
    rw [isBucket, List.filter_filter]
    simp only [Bool.and_self]

variable {options : EpisodeFilter} {keep : EpisodeObject → Bool}

theorem filter_when {object condition} [Decidable condition]
    (needed : keep object = true → condition) :
    (if condition then [object] else []).filter keep = if keep object then [object] else [] := by
  by_cases kept : keep object = true
  · rw [if_pos kept, if_pos (needed kept), List.filter_cons_of_pos kept]
    rfl
  · rw [if_neg kept]
    split
    · rw [List.filter_cons_of_neg kept]
      rfl
    · rfl

theorem Covers.log (covers : Covers indexes given) (object : EpisodeObject) :
    Covers (indexes.log object) (given ++ [object]) := by
  refine ⟨fun id bucket known => ?_, fun id bucket known => ?_, covers.causal.add object⟩
  · change ((indexes.index.pushKnown _ object).pushKnown _ object).get _ = _ at known
    rw [Buckets.get_pushKnown, Buckets.get_pushKnown,
      if_neg (correlationKey_ne_sessionKey id _).symm] at known
    obtain ⟨pushed, isPushed, rfl⟩ := Option.map_eq_some_iff.mp known
    obtain ⟨before, isBefore, rfl⟩ := Option.map_eq_some_iff.mp isPushed
    rw [List.append_nil, List.filter_append, covers.correlation id before isBefore,
      filter_append_singleton, filter_when]
    intro isId
    rw [of_decide_eq_true isId]
    rfl
  · change ((indexes.index.pushKnown _ object).pushKnown _ object).get _ = _ at known
    rw [Buckets.get_pushKnown, Buckets.get_pushKnown,
      if_neg (correlationKey_ne_sessionKey _ id)] at known
    obtain ⟨pushed, isPushed, rfl⟩ := Option.map_eq_some_iff.mp known
    obtain ⟨before, isBefore, rfl⟩ := Option.map_eq_some_iff.mp isPushed
    rw [List.append_nil, List.filter_append, covers.session id before isBefore,
      filter_append_singleton, filter_when]
    intro isId
    rw [of_decide_eq_true isId]
    rfl

/-! ### The candidates -/

theorem of_matchesFilter {episode} (isMatch : matchesFilter options episode = true) :
    (∀ id, asked options.correlationId = some id → episode.metadata.correlationId = .text id) ∧
      (∀ id, asked options.sessionId = some id → episode.metadata.sessionId = .text id) ∧
      (∀ id, asked options.causedBy = some id → .text id ∈ episode.causes.getD []) ∧
      ∀ id, asked options.leadingTo = some id → .text id ∈ episode.consequences.getD [] := by
  unfold matchesFilter at isMatch
  simp only [Bool.and_eq_true, Option.all_eq_true, decide_eq_true_eq, List.contains_iff_mem]
    at isMatch
  obtain ⟨⟨⟨⟨⟨correlation, session⟩, _⟩, _⟩, causes⟩, consequences⟩ := isMatch
  exact ⟨correlation, session, causes, consequences⟩

/-- One of the ids that are asked for has a bucket. -/
def Indexes.knows (indexes : Indexes) (options : EpisodeFilter) : Bool :=
  (asked options.correlationId).any (fun id => (indexes.index.get (correlationKey id)).isSome) ||
    (asked options.sessionId).any fun id => (indexes.index.get (sessionKey id)).isSome

theorem knows_build {objects object} (isGiven : object ∈ objects)
    (asks : EpisodicMemory.AsksMetadata options = true)
    (isMatch : matchesFilter options object.episode = true) :
    (Indexes.build objects).knows options = true := by
  have known : ∀ (key : String) (has : EpisodeObject → Bool),
      (Indexes.build objects).index.bucket key = objects.filter has → has object = true →
        ((Indexes.build objects).index.get key).isSome = true := by
    intro key has holds isHad
    have member : object ∈ (Indexes.build objects).index.bucket key := by
      rw [holds]
      exact List.mem_filter.mpr ⟨isGiven, isHad⟩
    unfold Buckets.bucket at member
    cases found : (Indexes.build objects).index.get key with
    | none =>
      rw [found] at member
      cases member
    | some bucket => rfl
  obtain ⟨correlation, session, _⟩ := of_matchesFilter isMatch
  obtain ⟨holds, _⟩ := holds_build objects
  unfold EpisodicMemory.AsksMetadata at asks
  unfold Indexes.knows
  rw [Bool.or_eq_true] at asks ⊢
  rcases asks with asksSession | asksCorrelation
  · obtain ⟨id, isAsked⟩ := Option.isSome_iff_exists.mp asksSession
    refine .inr ?_
    rw [isAsked]
    exact known _ _ (holds.session id) (decide_eq_true (session id isAsked))
  · obtain ⟨id, isAsked⟩ := Option.isSome_iff_exists.mp asksCorrelation
    refine .inl ?_
    rw [isAsked]
    exact known _ _ (holds.correlation id) (decide_eq_true (correlation id isAsked))

/-- How often an episode that matches is in the answer of the causal index. The one of two sources
is as good as the other, and of both an episode is taken once. -/
def timesNamed (options : EpisodeFilter) (episode : Episode) : ℕ :=
  match asked options.causedBy, asked options.leadingTo with
  | some id, none => (episode.causes.getD []).count (.text id)
  | none, some id => (episode.consequences.getD []).count (.text id)
  | _, _ => 1

theorem filter_candidates_pair (keep : EpisodeObject → Bool) (first second : List EpisodeObject) :
    (candidates [first, second]).filter keep =
      uniqueBy id (first.filter keep ++ second.filter keep) := by
  show (uniqueBy id (first ++ (second ++ []))).filter keep = _
  rw [List.append_nil, filter_uniqueBy id, List.filter_append]
  rintro one other rfl
  rfl

theorem filter_of_filter_eq {has} {bucket : List EpisodeObject}
    (holds : bucket.filter has = given.filter has)
    (needs : ∀ object, keep object = true → has object = true) :
    bucket.filter keep = given.filter keep := by
  have both : ∀ objects : List EpisodeObject,
      (objects.filter has).filter keep = objects.filter keep := by
    intro objects
    rw [List.filter_filter]
    refine List.filter_congr fun object _ => ?_
    rw [Bool.and_eq_left_iff_imp]
    exact needs object
  rw [← both, holds, both]

theorem filter_bucket {has key}
    (holds : ∀ bucket, indexes.index.get key = some bucket → bucket.filter has = given.filter has)
    (needs : ∀ object, keep object = true → has object = true) :
    (indexes.index.bucket key).filter keep =
      if (indexes.index.get key).isSome then given.filter keep else [] := by
  unfold Buckets.bucket
  cases known : indexes.index.get key with
  | none => rfl
  | some bucket =>
    exact filter_of_filter_eq (holds bucket known) needs

theorem filter_metadataSources (covers : Covers indexes given) (distinct : given.Nodup)
    (asks : EpisodicMemory.AsksMetadata options = true) :
    (candidates (indexes.metadataSources options)).filter (matchesFilter options ·.episode) =
      if indexes.knows options then given.filter (matchesFilter options ·.episode) else [] := by
  have correlation : ∀ id, asked options.correlationId = some id →
      (indexes.index.bucket (correlationKey id)).filter (matchesFilter options ·.episode) =
        if (indexes.index.get (correlationKey id)).isSome then
          given.filter (matchesFilter options ·.episode) else [] :=
    fun id isAsked => filter_bucket (covers.correlation id) fun object isMatch =>
      decide_eq_true ((of_matchesFilter isMatch).1 id isAsked)
  have session : ∀ id, asked options.sessionId = some id →
      (indexes.index.bucket (sessionKey id)).filter (matchesFilter options ·.episode) =
        if (indexes.index.get (sessionKey id)).isSome then
          given.filter (matchesFilter options ·.episode) else [] :=
    fun id isAsked => filter_bucket (covers.session id) fun object isMatch =>
      decide_eq_true ((of_matchesFilter isMatch).2.1 id isAsked)
  unfold EpisodicMemory.AsksMetadata at asks
  unfold Indexes.metadataSources
  cases isCorrelation : asked options.correlationId with
  | none =>
    cases isSession : asked options.sessionId with
    | none =>
      rw [isCorrelation, isSession] at asks
      cases asks
    | some id =>
      have isKnown : indexes.knows options = (indexes.index.get (sessionKey id)).isSome := by
        unfold Indexes.knows
        rw [isCorrelation, isSession]
        rfl
      show (indexes.index.bucket (sessionKey id)).filter _ = _
      rw [session id isSession, isKnown]
  | some id =>
    cases isSession : asked options.sessionId with
    | none =>
      have isKnown : indexes.knows options = (indexes.index.get (correlationKey id)).isSome := by
        unfold Indexes.knows
        rw [isCorrelation, isSession]
        exact Bool.or_false _
      show (indexes.index.bucket (correlationKey id)).filter _ = _
      rw [correlation id isCorrelation, isKnown]
    | some sessionId =>
      have isKnown : indexes.knows options = ((indexes.index.get (correlationKey id)).isSome ||
          (indexes.index.get (sessionKey sessionId)).isSome) := by
        unfold Indexes.knows
        rw [isCorrelation, isSession]
        rfl
      show (candidates [_, _]).filter _ = _
      rw [filter_candidates_pair, correlation id isCorrelation, session sessionId isSession,
        isKnown]
      generalize (indexes.index.get (correlationKey id)).isSome = first
      cases first with
      | true =>
        refine uniqueBy_append_of_mem (distinct.filter _) fun object member => ?_
        split at member
        · exact member
        · cases member
      | false =>
        rw [if_neg Bool.false_ne_true, Bool.false_or]
        split
        · exact uniqueBy_eq_self ((List.map_id _).symm ▸ distinct.filter _)
        · rfl

theorem filter_causalSources (covers : Covers indexes given) (distinct : given.Nodup)
    (asks : EpisodicMemory.AsksCausal options = true) :
    (candidates (indexes.causalSources options)).filter (matchesFilter options ·.episode) =
      (given.filter (matchesFilter options ·.episode)).flatMap fun object =>
        List.replicate (timesNamed options object.episode) object := by
  unfold EpisodicMemory.AsksCausal at asks
  unfold Indexes.causalSources timesNamed
  cases isCause : asked options.causedBy with
  | none =>
    cases isConsequence : asked options.leadingTo with
    | none =>
      rw [isCause, isConsequence] at asks
      cases asks
    | some id =>
      show (indexes.causal.byConsequences.bucket (.text id)).filter _ = _
      rw [(covers.causal _).2, filter_flatMap_replicate]
  | some cause =>
    cases isConsequence : asked options.leadingTo with
    | none =>
      show (indexes.causal.byCauses.bucket (.text cause)).filter _ = _
      rw [(covers.causal _).1, filter_flatMap_replicate]
    | some consequence =>
      show (candidates [indexes.causal.byCauses.bucket (.text cause),
        indexes.causal.byConsequences.bucket (.text consequence)]).filter _ = _
      rw [filter_candidates_pair, (covers.causal _).1, (covers.causal _).2,
        filter_flatMap_replicate, filter_flatMap_replicate, flatMap_replicate_once fun _ _ => rfl]
      refine uniqueBy_flatMap_replicate_append (distinct.filter _) (fun object member => ?_) ?_
      · have isMatch := (List.mem_filter.mp member).2
        exact List.count_pos_iff.mpr ((of_matchesFilter isMatch).2.2.1 cause isCause) |>.ne'
      · intro object member
        obtain ⟨_, isMatch, repeated⟩ := List.mem_flatMap.mp member
        rw [List.eq_of_mem_replicate repeated]
        exact isMatch

end

end Senars.Episodic
