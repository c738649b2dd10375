import OpenDDS.Source.EndpointDiscovery

/-!
# What matching does

`match` looks at a writer and a reader as they are seen: with a topic, a QoS and a participant.
It leaves all of that unchanged and decides only whether each has the other in
`matched_endpoints_`; so `match_endpoints` decides about the pairs of one endpoint, and all other
pairs stay as they are.
-/
namespace OpenDDS.Source.EndpointDiscovery

open Library.AssociationList DataSampleHeader QosMatching ParticipantDiscovery

variable {δ : Type} {s s' s'' : Sedp δ} {k k' : Kind} {guid g L R writer reader : GUID}

section

variable {κ β : Type} [DecidableEq κ] {key key' : κ} {value : β} {map : List (κ × β)}

theorem lookup_assign :
    (assign key value map).lookup key' = if key' = key then some value else map.lookup key' := by
  have hnone : (map.filter fun entry => entry.1 ≠ key).lookup key = none := by
    rw [lookup_erase, if_pos rfl]
  rw [assign, lookup_concat hnone, lookup_erase]
  by_cases hkey : key' = key
  · rw [if_pos hkey, if_pos hkey]
  · rw [if_neg hkey, if_neg hkey, if_neg hkey]

theorem lookup_erase_key :
    (erase key map).lookup key' = if key' = key then none else map.lookup key' :=
  lookup_erase map

end

section

structure Seen (δ : Type) where
  isLocal : Bool
  topic : String
  qos : EndpointQos δ

/-- A local or discovered endpoint. -/
def Sedp.seen (k : Kind) (guid : GUID) (s : Sedp δ) : Option (Seen δ) :=
  match (s.locals k).lookup guid with
  | some endpoint => some ⟨true, s.topicName endpoint.topicId, endpoint.qos⟩
  | none => ((s.discovered k).lookup guid).map fun endpoint => ⟨false, endpoint.topicName, endpoint.qos⟩

/-- The local endpoint `L` has `R` in `matched_endpoints_`. -/
def Sedp.Matched (k : Kind) (L R : GUID) (s : Sedp δ) : Prop :=
  ∃ endpoint, (s.locals k).lookup L = some endpoint ∧ R ∈ endpoint.matchedEndpoints

/-- The endpoints of a topic, none if there is no such topic. -/
def Sedp.endpointsOf (name : String) (s : Sedp δ) : List GUID :=
  (s.topics.lookup name).elim [] TopicDetails.endpoints

/-- Local, or of a participant that is associated. -/
def Sedp.Ready (guid : GUID) (d : Seen δ) (s : Sedp δ) : Prop :=
  d.isLocal = true ∨ participantOf guid ∈ s.associatedParticipants

/-- Nothing changed but `matched_endpoints_` and, by more endpoints, `defer_match_endpoints_`. -/
structure Kept (s s' : Sedp δ) : Prop where
  topics : s'.topics = s.topics
  topicNames : s'.topicNames = s.topicNames
  locals : ∀ k guid, ((s'.locals k).lookup guid).map (fun e => (e.topicId, e.qos)) =
    ((s.locals k).lookup guid).map fun e => (e.topicId, e.qos)
  discovered : s'.discovered = s.discovered
  ignoredGuids : s'.ignoredGuids = s.ignoredGuids
  associatedParticipants : s'.associatedParticipants = s.associatedParticipants
  defers : ∀ guid ∈ s.deferMatchEndpoints, guid ∈ s'.deferMatchEndpoints

theorem Kept.refl (s : Sedp δ) : Kept s s :=
  ⟨rfl, rfl, fun _ _ => rfl, rfl, rfl, rfl, fun _ h => h⟩

section

variable (h : Kept s s')
include h

theorem Kept.trans (h' : Kept s' s'') : Kept s s'' :=
  ⟨h'.topics.trans h.topics, h'.topicNames.trans h.topicNames,
    fun k guid => (h'.locals k guid).trans (h.locals k guid), h'.discovered.trans h.discovered,
    h'.ignoredGuids.trans h.ignoredGuids,
    h'.associatedParticipants.trans h.associatedParticipants,
    fun guid hmem => h'.defers guid (h.defers guid hmem)⟩

theorem Kept.topicName (topicId : GUID) : s'.topicName topicId = s.topicName topicId := by
  rw [Sedp.topicName, Sedp.topicName, h.topicNames]

theorem Kept.local_before {e' : LocalEndpoint δ} (he' : (s'.locals k).lookup guid = some e') :
    ∃ e, (s.locals k).lookup guid = some e ∧ e.topicId = e'.topicId ∧ e.qos = e'.qos := by
  have hmap := h.locals k guid
  rw [he'] at hmap
  obtain ⟨e, he, heq⟩ := Option.map_eq_some_iff.mp hmap.symm
  exact ⟨e, he, congrArg Prod.fst heq, congrArg Prod.snd heq⟩

theorem Kept.local_after {e : LocalEndpoint δ} (he : (s.locals k).lookup guid = some e) :
    ∃ e', (s'.locals k).lookup guid = some e' ∧ e'.topicId = e.topicId ∧ e'.qos = e.qos := by
  have hmap := h.locals k guid
  rw [he] at hmap
  obtain ⟨e', he', heq⟩ := Option.map_eq_some_iff.mp hmap
  exact ⟨e', he', congrArg Prod.fst heq, congrArg Prod.snd heq⟩

theorem Kept.local_isSome (k : Kind) (guid : GUID) :
    ((s'.locals k).lookup guid).isSome = ((s.locals k).lookup guid).isSome := by
  have hmap := congrArg Option.isSome (h.locals k guid)
  rwa [Option.isSome_map, Option.isSome_map] at hmap

theorem Kept.seen (k : Kind) (guid : GUID) : s'.seen k guid = s.seen k guid := by
  unfold Sedp.seen
  cases he : (s.locals k).lookup guid with
  | some e =>
    obtain ⟨e', he', htopic, hqos⟩ := h.local_after he
    simp only [he', htopic, hqos, h.topicName]
  | none =>
    have hnone := h.local_isSome k guid
    rw [he, Option.isSome_none, Option.isSome_eq_false_iff, Option.isNone_iff_eq_none] at hnone
    rw [hnone, h.discovered]

theorem Kept.endpointsOf (name : String) : s'.endpointsOf name = s.endpointsOf name := by
  rw [Sedp.endpointsOf, Sedp.endpointsOf, h.topics]

theorem Kept.ready (guid : GUID) (d : Seen δ) : s'.Ready guid d ↔ s.Ready guid d := by
  rw [Sedp.Ready, Sedp.Ready, h.associatedParticipants]

end

theorem seen_isLocal {d : Seen δ} (h : s.seen k guid = some d) :
    d.isLocal = ((s.locals k).lookup guid).isSome := by
  unfold Sedp.seen at h
  cases he : (s.locals k).lookup guid with
  | some e =>
    rw [he] at h
    cases h
    rfl
  | none =>
    rw [he] at h
    obtain ⟨e, -, rfl⟩ := Option.map_eq_some_iff.mp h
    rfl

theorem seen_of_local {e : LocalEndpoint δ} (h : (s.locals k).lookup guid = some e) :
    s.seen k guid = some ⟨true, s.topicName e.topicId, e.qos⟩ := by
  rw [Sedp.seen, h]

theorem seen_of_discovered {e : DiscoveredEndpoint δ} (hlocal : (s.locals k).lookup guid = none)
    (h : (s.discovered k).lookup guid = some e) :
    s.seen k guid = some ⟨false, e.topicName, e.qos⟩ := by
  rw [Sedp.seen, hlocal, h]
  rfl

theorem seen_eq_none : s.seen k guid = none ↔
    (s.locals k).lookup guid = none ∧ (s.discovered k).lookup guid = none := by
  unfold Sedp.seen
  cases he : (s.locals k).lookup guid with
  | some e => simp
  | none => simp

end

section

theorem lookup_editMatched (f : List GUID → List GUID) :
    ((s.editMatched k guid f).locals k').lookup g = ((s.locals k').lookup g).map fun e =>
      if k' = k ∧ g = guid then { e with matchedEndpoints := f e.matchedEndpoints } else e := by
  unfold Sedp.editMatched Sedp.setLocals
  by_cases hk : k' = k
  · subst hk
    simp only [Function.update_self, true_and]
    exact lookup_edit (fun e : LocalEndpoint δ =>
      { e with matchedEndpoints := f e.matchedEndpoints }) (s.locals k')
  · simp [hk]

theorem editMatched_kept (f : List GUID → List GUID) : Kept s (s.editMatched k guid f) := by
  refine ⟨rfl, rfl, fun k' g => ?_, rfl, rfl, rfl, fun _ h => h⟩
  rw [lookup_editMatched, Option.map_map]
  congr 1
  funext e
  by_cases hg : k' = k ∧ g = guid
  · simp [hg]
  · simp [hg]

theorem matched_editMatched (f : List GUID → List GUID) :
    (s.editMatched k guid f).Matched k' L R ↔ ∃ e, (s.locals k').lookup L = some e ∧
      R ∈ if k' = k ∧ L = guid then f e.matchedEndpoints else e.matchedEndpoints := by
  unfold Sedp.Matched
  rw [lookup_editMatched]
  constructor
  · rintro ⟨e', he', hmem⟩
    obtain ⟨e, he, rfl⟩ := Option.map_eq_some_iff.mp he'
    refine ⟨e, he, ?_⟩
    by_cases hL : k' = k ∧ L = guid
    · rw [if_pos hL] at hmem ⊢
      exact hmem
    · rw [if_neg hL] at hmem ⊢
      exact hmem
  · rintro ⟨e, he, hmem⟩
    rw [he]
    refine ⟨_, rfl, ?_⟩
    by_cases hL : k' = k ∧ L = guid
    · simpa [hL] using hmem
    · simpa [hL] using hmem

theorem matched_add : (s.editMatched k guid (List.insert g)).Matched k' L R ↔
    s.Matched k' L R ∨ ((k' = k ∧ L = guid ∧ R = g) ∧ ((s.locals k').lookup L).isSome) := by
  rw [matched_editMatched]
  constructor
  · rintro ⟨e, he, hmem⟩
    by_cases hL : k' = k ∧ L = guid
    · rw [if_pos hL, List.mem_insert_iff] at hmem
      obtain rfl | hmem := hmem
      · exact .inr ⟨⟨hL.1, hL.2, rfl⟩, by rw [he]; rfl⟩
      · exact .inl ⟨e, he, hmem⟩
    · rw [if_neg hL] at hmem
      exact .inl ⟨e, he, hmem⟩
  · rintro (⟨e, he, hmem⟩ | ⟨⟨hk, hL, hR⟩, hsome⟩)
    · refine ⟨e, he, ?_⟩
      split_ifs
      · exact List.mem_insert_of_mem hmem
      · exact hmem
    · obtain ⟨e, he⟩ := Option.isSome_iff_exists.mp hsome
      refine ⟨e, he, ?_⟩
      rw [if_pos ⟨hk, hL⟩, hR]
      exact List.mem_insert_self

theorem matched_drop : (s.editMatched k guid (·.filter (· ≠ g))).Matched k' L R ↔
    s.Matched k' L R ∧ ¬ (k' = k ∧ L = guid ∧ R = g) := by
  rw [matched_editMatched]
  constructor
  · rintro ⟨e, he, hmem⟩
    by_cases hL : k' = k ∧ L = guid
    · rw [if_pos hL, List.mem_filter] at hmem
      refine ⟨⟨e, he, hmem.1⟩, fun h => ?_⟩
      have hne : R ≠ g := by simpa using hmem.2
      exact hne h.2.2
    · rw [if_neg hL] at hmem
      exact ⟨⟨e, he, hmem⟩, fun h => hL ⟨h.1, h.2.1⟩⟩
  · rintro ⟨⟨e, he, hmem⟩, hnot⟩
    refine ⟨e, he, ?_⟩
    by_cases hL : k' = k ∧ L = guid
    · rw [if_pos hL, List.mem_filter]
      have hne : R ≠ g := fun h => hnot ⟨hL.1, hL.2, h⟩
      exact ⟨hmem, by simpa using hne⟩
    · rw [if_neg hL]
      exact hmem

/-- The pair of `L` and `R` is that of the writer and the reader. -/
def IsPair (writer reader : GUID) (k : Kind) (L R : GUID) : Prop :=
  (k = .writer ∧ L = writer ∧ R = reader) ∨ (k = .reader ∧ L = reader ∧ R = writer)

variable {wildMatch : List Char → List Char → Bool} {defaultLocators : GUID → Option (List String)}
  {w r d : Seen δ}

/-- What `match` decides about a writer and a reader. -/
def Sedp.Good (wildMatch : List Char → List Char → Bool) (writer reader : GUID) (w r : Seen δ)
    (s : Sedp δ) : Prop :=
  compatibleQOS wildMatch w.qos r.qos = true ∧ s.Ready writer w ∧ s.Ready reader r

/-- The pair is decided, all other pairs stay. -/
structure Decides (writer reader : GUID) (good : Prop) (s s' : Sedp δ) : Prop where
  kept : Kept s s'
  pair : ∀ k L R, IsPair writer reader k L R →
    (s'.Matched k L R ↔ ((s.locals k).lookup L).isSome ∧ good)
  other : ∀ k L R, ¬ IsPair writer reader k L R → (s'.Matched k L R ↔ s.Matched k L R)

theorem details_of_seen (h : s.seen k guid = some d) : ∃ m,
    s.details k guid = some ⟨d.isLocal, d.qos, m⟩ ∧ ∀ R, R ∈ m ↔ s.Matched k guid R := by
  unfold Sedp.seen at h
  unfold Sedp.details Sedp.Matched
  cases he : (s.locals k).lookup guid with
  | some e =>
    rw [he] at h
    cases h
    exact ⟨e.matchedEndpoints, rfl, fun R => by simp⟩
  | none =>
    rw [he] at h
    obtain ⟨e, he', rfl⟩ := Option.map_eq_some_iff.mp h
    exact ⟨[], by simp [he'], fun R => by simp⟩

theorem locators_of_carried {d : Details δ} (h : d.isLocal = true ∨ d.qos.transports ≠ []) :
    s.locators defaultLocators k guid d = (some d, s) := by
  rw [Sedp.locators, if_pos h]

theorem deferred_eq {m : List GUID} :
    s.deferred guid ⟨d.isLocal, d.qos, m⟩ = true ↔ ¬ s.Ready guid d := by
  unfold Sedp.deferred Sedp.Ready
  cases d.isLocal <;> simp

theorem matchPair_eq (wildMatch : List Char → List Char → Bool)
    (defaultLocators : GUID → Option (List String)) (hw : s.seen .writer writer = some w) (hr : s.seen .reader reader = some r)
    (hwcarry : w.isLocal = true ∨ w.qos.transports ≠ [])
    (hrcarry : r.isLocal = true ∨ r.qos.transports ≠ []) : ∃ again : Bool,
      (again = true ↔ s.Matched .writer writer reader ∨ s.Matched .reader reader writer) ∧
      s.matchPair wildMatch defaultLocators writer reader =
        if ¬ w.isLocal ∧ ¬ r.isLocal then s
        else if compatibleQOS wildMatch w.qos r.qos then
          if s.deferred writer ⟨w.isLocal, w.qos, []⟩ then s.defer writer
          else if s.deferred reader ⟨r.isLocal, r.qos, []⟩ then s.defer reader
          else (s.editMatched .writer writer (List.insert reader)).editMatched .reader reader
            (List.insert writer)
        else if again then
          (s.editMatched .writer writer (·.filter (· ≠ reader))).editMatched .reader reader
            (·.filter (· ≠ writer))
        else s := by
  obtain ⟨mw, hdw, hmw⟩ := details_of_seen hw
  obtain ⟨mr, hdr, hmr⟩ := details_of_seen hr
  refine ⟨decide (reader ∈ mw ∨ writer ∈ mr), by simp [hmw, hmr], ?_⟩
  have hr' : s.locators defaultLocators .reader reader ⟨r.isLocal, r.qos, mr⟩ =
      (some ⟨r.isLocal, r.qos, mr⟩, s) := locators_of_carried hrcarry
  have hw' : s.locators defaultLocators .writer writer ⟨w.isLocal, w.qos, mw⟩ =
      (some ⟨w.isLocal, w.qos, mw⟩, s) := locators_of_carried hwcarry
  simp only [Sedp.matchPair, hdw, hdr, hr', hw', Sedp.deferred, decide_eq_true_eq]
  split_ifs <;> rfl

theorem IsPair.same (writer reader : GUID) (good : Prop) (hgood : ¬ good)
    (hno : ∀ k L R, IsPair writer reader k L R → ¬ s.Matched k L R) :
    Decides writer reader good s s :=
  ⟨.refl s, fun k L R hpair => ⟨fun h => absurd h (hno k L R hpair), fun h => absurd h.2 hgood⟩,
    fun _ _ _ _ => Iff.rfl⟩

theorem defer_kept (guid : GUID) (s : Sedp δ) : Kept s (s.defer guid) :=
  ⟨rfl, rfl, fun _ _ => rfl, rfl, rfl, rfl, fun _ h => List.mem_insert_of_mem h⟩

theorem Decides.defer {good : Prop} (h : Decides writer reader good s s) (guid : GUID) :
    Decides writer reader good s (s.defer guid) :=
  ⟨defer_kept guid s, h.pair, h.other⟩

theorem decides_add {good : Prop} (hgood : good) : Decides writer reader good s
    ((s.editMatched .writer writer (List.insert reader)).editMatched .reader reader
      (List.insert writer)) := by
  have hkept : Kept s (s.editMatched .writer writer (List.insert reader)) := editMatched_kept _
  refine ⟨hkept.trans (editMatched_kept _), fun k L R hpair => ?_, fun k L R hpair => ?_⟩
  · rw [matched_add, matched_add, hkept.local_isSome]
    constructor
    · rintro ((⟨e, he, -⟩ | ⟨-, hsome⟩) | ⟨-, hsome⟩)
      · exact ⟨by rw [he]; rfl, hgood⟩
      · exact ⟨hsome, hgood⟩
      · exact ⟨hsome, hgood⟩
    · rintro ⟨hsome, -⟩
      obtain hwriter | hreader := hpair
      · exact .inl (.inr ⟨hwriter, hsome⟩)
      · exact .inr ⟨hreader, hsome⟩
  · rw [matched_add, matched_add]
    constructor
    · rintro ((h | ⟨h, -⟩) | ⟨h, -⟩)
      · exact h
      · exact absurd (.inl h) hpair
      · exact absurd (.inr h) hpair
    · exact fun h => .inl (.inl h)

theorem decides_drop {good : Prop} (hgood : ¬ good) : Decides writer reader good s
    ((s.editMatched .writer writer (·.filter (· ≠ reader))).editMatched .reader reader
      (·.filter (· ≠ writer))) := by
  refine ⟨(editMatched_kept _).trans (editMatched_kept _), fun k L R hpair => ?_,
    fun k L R hpair => ?_⟩
  · rw [matched_drop, matched_drop]
    constructor
    · rintro ⟨⟨-, hnotw⟩, hnotr⟩
      exact absurd hpair (not_or.mpr ⟨hnotw, hnotr⟩)
    · exact fun h => absurd h.2 hgood
  · rw [matched_drop, matched_drop]
    obtain ⟨hnotw, hnotr⟩ := not_or.mp hpair
    exact ⟨fun h => h.1.1, fun h => ⟨⟨h, hnotw⟩, hnotr⟩⟩

section

variable (wildMatch : List Char → List Char → Bool) (defaultLocators : GUID → Option (List String))
  (hw : s.seen .writer writer = some w) (hr : s.seen .reader reader = some r)
  (hwcarry : w.isLocal = true ∨ w.qos.transports ≠ [])
  (hrcarry : r.isLocal = true ∨ r.qos.transports ≠ [])
include hw hr hwcarry hrcarry

theorem matchPair_decides (hbefore : ∀ k L R, IsPair writer reader k L R → s.Matched k L R →
      s.Ready writer w ∧ s.Ready reader r) :
    Decides writer reader (s.Good wildMatch writer reader w r) s
      (s.matchPair wildMatch defaultLocators writer reader) := by
  obtain ⟨again, hagain, heq⟩ := matchPair_eq wildMatch defaultLocators hw hr hwcarry hrcarry
  rw [heq]
  by_cases hremote : ¬ w.isLocal ∧ ¬ r.isLocal
  · -- Neither has an entry.
    rw [if_pos hremote]
    have hlocal : ∀ k L R, IsPair writer reader k L R → ((s.locals k).lookup L).isSome = false := by
      rintro k L R (⟨rfl, rfl, rfl⟩ | ⟨rfl, rfl, rfl⟩)
      · rw [← seen_isLocal hw]
        simpa using hremote.1
      · rw [← seen_isLocal hr]
        simpa using hremote.2
    refine ⟨.refl s, fun k L R hpair => ?_, fun _ _ _ _ => Iff.rfl⟩
    rw [hlocal k L R hpair]
    constructor
    · rintro ⟨e, he, -⟩
      have hsome := hlocal k L R hpair
      rw [he] at hsome
      cases hsome
    · rintro ⟨h, -⟩
      cases h
  rw [if_neg hremote]
  by_cases hcompat : compatibleQOS wildMatch w.qos r.qos = true
  · rw [if_pos hcompat]
    by_cases hwriter : s.Ready writer w
    · rw [if_neg (deferred_eq.not.mpr (not_not.mpr hwriter))]
      by_cases hreader : s.Ready reader r
      · rw [if_neg (deferred_eq.not.mpr (not_not.mpr hreader))]
        exact decides_add ⟨hcompat, hwriter, hreader⟩
      · rw [if_pos (deferred_eq.mpr hreader)]
        exact (IsPair.same writer reader _ (fun h => hreader h.2.2) fun k L R hpair h =>
          hreader (hbefore k L R hpair h).2).defer reader
    · rw [if_pos (deferred_eq.mpr hwriter)]
      exact (IsPair.same writer reader _ (fun h => hwriter h.2.1) fun k L R hpair h =>
        hwriter (hbefore k L R hpair h).1).defer writer
  · rw [if_neg hcompat]
    by_cases hmatched : again = true
    · rw [if_pos hmatched]
      exact decides_drop fun h => hcompat h.1
    · rw [if_neg hmatched]
      refine IsPair.same writer reader _ (fun h => hcompat h.1) ?_
      rintro k L R (⟨rfl, rfl, rfl⟩ | ⟨rfl, rfl, rfl⟩) h
      · exact hmatched (hagain.mpr (.inl h))
      · exact hmatched (hagain.mpr (.inr h))

theorem matchPair_defers (hlocal : w.isLocal = true ∨ r.isLocal = true)
    (hcompat : compatibleQOS wildMatch w.qos r.qos = true) : (¬ s.Ready writer w →
      writer ∈ (s.matchPair wildMatch defaultLocators writer reader).deferMatchEndpoints) ∧
    (¬ s.Ready reader r →
      reader ∈ (s.matchPair wildMatch defaultLocators writer reader).deferMatchEndpoints) := by
  obtain ⟨again, -, heq⟩ := matchPair_eq wildMatch defaultLocators hw hr hwcarry hrcarry
  have hremote : ¬ (¬ w.isLocal ∧ ¬ r.isLocal) := by
    rintro ⟨hnw, hnr⟩
    obtain h | h := hlocal
    · exact hnw h
    · exact hnr h
  rw [heq, if_neg hremote, if_pos hcompat]
  constructor
  · intro hwriter
    rw [if_pos (deferred_eq.mpr hwriter)]
    exact List.mem_insert_self
  · intro hreader
    -- The reader is discovered, so the writer is local.
    have hwriter : s.Ready writer w := by
      obtain h | h := hlocal
      · exact .inl h
      · exact absurd (.inl h) hreader
    rw [if_neg (deferred_eq.not.mpr (not_not.mpr hwriter)), if_pos (deferred_eq.mpr hreader)]
    exact List.mem_insert_self

end

end

section

variable (wildMatch : List Char → List Char → Bool) (defaultLocators : GUID → Option (List String))

/-- Compatible, and both are ready. -/
def Sedp.Suits (k : Kind) (L R : GUID) (s : Sedp δ) : Prop :=
  ∃ d d', s.seen k L = some d ∧ s.seen k.other R = some d' ∧
    compatible wildMatch k d.qos d'.qos = true ∧ s.Ready L d ∧ s.Ready R d'

/-- `R` would suit `L` if its participant were associated. -/
def Sedp.Awaits (k : Kind) (L R : GUID) (s : Sedp δ) : Prop :=
  ∃ d d', s.seen k L = some d ∧ s.seen k.other R = some d' ∧ d.isLocal = true ∧
    compatible wildMatch k d.qos d'.qos = true ∧ ¬ s.Ready R d'

variable {wildMatch}

theorem Kept.suits (h : Kept s s') : s'.Suits wildMatch k L R ↔ s.Suits wildMatch k L R := by
  simp only [Sedp.Suits, h.seen, h.ready]

theorem Kept.awaits (h : Kept s s') : s'.Awaits wildMatch k L R ↔ s.Awaits wildMatch k L R := by
  simp only [Sedp.Awaits, h.seen, h.ready]

theorem suits_other : s.Suits wildMatch k.other R L ↔ s.Suits wildMatch k L R := by
  constructor
  · rintro ⟨d, d', hd, hd', hcompat, hR, hL⟩
    rw [Kind.other_other] at hd'
    exact ⟨d', d, hd', hd, by rwa [compatible_other] at hcompat, hL, hR⟩
  · rintro ⟨d, d', hd, hd', hcompat, hL, hR⟩
    exact ⟨d', d, hd', by rwa [Kind.other_other], by rwa [compatible_other], hR, hL⟩

/-- The pair of `L` and `R` is that of `X` and `g`; `X` is of the kind `k`. -/
def Between (k : Kind) (X g : GUID) (k' : Kind) (L R : GUID) : Prop :=
  (k' = k ∧ L = X ∧ R = g) ∨ (k' = k.other ∧ L = g ∧ R = X)

/-- The pairs of `X` with the endpoints of a list are decided, all other pairs stay. -/
structure Resolves (wildMatch : List Char → List Char → Bool) (k : Kind) (X : GUID)
    (guids : List GUID) (s s' : Sedp δ) : Prop where
  kept : Kept s s'
  decided : ∀ k' L R, (∃ g ∈ guids, Between k X g k' L R) →
    (s'.Matched k' L R ↔ ((s.locals k').lookup L).isSome ∧ s.Suits wildMatch k' L R)
  other : ∀ k' L R, (¬ ∃ g ∈ guids, Between k X g k' L R) → (s'.Matched k' L R ↔ s.Matched k' L R)
  waits : ∀ k' L R, (∃ g ∈ guids, Between k X g k' L R) → s.Awaits wildMatch k' L R →
    R ∈ s'.deferMatchEndpoints

/-- Discovered endpoints have locators of their own. -/
def Sedp.Carried (s : Sedp δ) : Prop :=
  ∀ k guid d, s.seen k guid = some d → d.isLocal = true ∨ d.qos.transports ≠ []

/-- A pair that is matched before is ready. -/
def Sedp.Settled (k : Kind) (X : GUID) (s : Sedp δ) : Prop :=
  ∀ g k' L R, Between k X g k' L R → s.Matched k' L R →
    ∀ d d', s.seen k' L = some d → s.seen k'.other R = some d' → s.Ready L d ∧ s.Ready R d'

variable (wildMatch) in
/-- One turn of `match_endpoints`. -/
def Sedp.matchWith (k : Kind) (X g : GUID) (s : Sedp δ) : Sedp δ :=
  match k with
  | .reader => s.matchPair wildMatch defaultLocators g X
  | .writer => s.matchPair wildMatch defaultLocators X g

theorem between_writer : Between .writer writer reader k L R ↔ IsPair writer reader k L R :=
  Iff.rfl

theorem between_reader : Between .reader reader writer k L R ↔ IsPair writer reader k L R :=
  or_comm

variable {w r : Seen δ}

theorem suits_pair (hw : s.seen .writer writer = some w) (hr : s.seen .reader reader = some r)
    (hpair : IsPair writer reader k L R) :
    s.Suits wildMatch k L R ↔ s.Good wildMatch writer reader w r := by
  have hwriter : s.Suits wildMatch .writer writer reader ↔ s.Good wildMatch writer reader w r := by
    constructor
    · rintro ⟨d, d', hd, hd', h⟩
      rw [hw] at hd
      rw [Kind.other, hr] at hd'
      cases hd
      cases hd'
      exact h
    · exact fun h => ⟨w, r, hw, hr, h⟩
  obtain ⟨rfl, rfl, rfl⟩ | ⟨rfl, rfl, rfl⟩ := hpair
  · exact hwriter
  · exact (suits_other (k := .writer)).trans hwriter

variable (wildMatch) in
theorem matchPair_resolves (hcarried : s.Carried) (hw : s.seen .writer writer = some w)
    (hr : s.seen .reader reader = some r)
    (hsettled : ∀ k L R, IsPair writer reader k L R → s.Matched k L R →
      ∀ d d', s.seen k L = some d → s.seen k.other R = some d' → s.Ready L d ∧ s.Ready R d') :
    Decides writer reader (s.Good wildMatch writer reader w r) s
      (s.matchPair wildMatch defaultLocators writer reader) ∧
    ∀ k L R, IsPair writer reader k L R → s.Awaits wildMatch k L R →
      R ∈ (s.matchPair wildMatch defaultLocators writer reader).deferMatchEndpoints := by
  have hwcarry := hcarried _ _ _ hw
  have hrcarry := hcarried _ _ _ hr
  refine ⟨matchPair_decides wildMatch defaultLocators hw hr hwcarry hrcarry ?_, ?_⟩
  · rintro k L R (⟨rfl, rfl, rfl⟩ | ⟨rfl, rfl, rfl⟩) hmatched
    · exact hsettled _ _ _ (.inl ⟨rfl, rfl, rfl⟩) hmatched w r hw hr
    · exact (hsettled _ _ _ (.inr ⟨rfl, rfl, rfl⟩) hmatched r w hr hw).symm
  · rintro k L R (⟨rfl, rfl, rfl⟩ | ⟨rfl, rfl, rfl⟩) ⟨d, d', hd, hd', hlocal, hcompat, hready⟩
    · rw [hw] at hd
      rw [Kind.other, hr] at hd'
      cases hd
      cases hd'
      exact (matchPair_defers wildMatch defaultLocators hw hr hwcarry hrcarry (.inl hlocal)
        hcompat).2 hready
    · rw [hr] at hd
      rw [Kind.other, hw] at hd'
      cases hd
      cases hd'
      exact (matchPair_defers wildMatch defaultLocators hw hr hwcarry hrcarry (.inr hlocal)
        hcompat).1 hready

variable (wildMatch) in
theorem matchWith_resolves (hcarried : s.Carried) (hsettled : s.Settled k guid)
    (hguid : (s.seen k guid).isSome) (hg : (s.seen k.other g).isSome) :
    Resolves wildMatch k guid [g] s (s.matchWith wildMatch defaultLocators k guid g) := by
  obtain ⟨d, hd⟩ := Option.isSome_iff_exists.mp hguid
  obtain ⟨d', hd'⟩ := Option.isSome_iff_exists.mp hg
  cases k with
  | writer =>
    obtain ⟨hdecides, hwaits⟩ := matchPair_resolves wildMatch defaultLocators hcarried hd hd'
      fun k L R hpair => hsettled g k L R hpair
    refine ⟨hdecides.kept, fun k' L R hbetween => ?_, fun k' L R hbetween => ?_,
      fun k' L R hbetween => ?_⟩
    · have hpair : IsPair guid g k' L R := by simpa [between_writer] using hbetween
      rw [suits_pair hd hd' hpair]
      exact hdecides.pair k' L R hpair
    · exact hdecides.other k' L R (by simpa [between_writer] using hbetween)
    · exact hwaits k' L R (by simpa [between_writer] using hbetween)
  | reader =>
    obtain ⟨hdecides, hwaits⟩ := matchPair_resolves wildMatch defaultLocators hcarried hd' hd
      fun k L R hpair => hsettled g k L R (between_reader.mpr hpair)
    refine ⟨hdecides.kept, fun k' L R hbetween => ?_, fun k' L R hbetween => ?_,
      fun k' L R hbetween => ?_⟩
    · have hpair : IsPair g guid k' L R := by simpa [between_reader] using hbetween
      rw [suits_pair hd' hd hpair]
      exact hdecides.pair k' L R hpair
    · exact hdecides.other k' L R (by simpa [between_reader] using hbetween)
    · exact hwaits k' L R (by simpa [between_reader] using hbetween)

variable (wildMatch) in
theorem matchWith_loop (guids : List GUID) (hcarried : s.Carried) (hsettled : s.Settled k guid)
    (hguid : (s.seen k guid).isSome) (hguids : ∀ g ∈ guids, (s.seen k.other g).isSome) :
    Resolves wildMatch k guid guids s
      (guids.foldl (fun s g => s.matchWith wildMatch defaultLocators k guid g) s) := by
  induction guids generalizing s with
  | nil =>
    refine ⟨.refl s, ?_, fun _ _ _ _ => Iff.rfl, ?_⟩
    · rintro k' L R ⟨g, hg, -⟩
      cases hg
    · rintro k' L R ⟨g, hg, -⟩
      cases hg
  | cons g guids ih =>
    have hfirst := matchWith_resolves wildMatch defaultLocators hcarried hsettled hguid
      (hguids g List.mem_cons_self)
    have hcarried' : (s.matchWith wildMatch defaultLocators k guid g).Carried := by
      intro k' g' d hd
      rw [hfirst.kept.seen] at hd
      exact hcarried k' g' d hd
    have hsettled' : (s.matchWith wildMatch defaultLocators k guid g).Settled k guid := by
      intro g' k' L R hbetween hmatched d d' hd hd'
      rw [hfirst.kept.seen] at hd hd'
      rw [hfirst.kept.ready, hfirst.kept.ready]
      by_cases hnow : ∃ g₁ ∈ [g], Between k guid g₁ k' L R
      · obtain ⟨-, e, e', he, he', -, hL, hR⟩ := (hfirst.decided k' L R hnow).mp hmatched
        rw [hd] at he
        rw [hd'] at he'
        cases he
        cases he'
        exact ⟨hL, hR⟩
      · exact hsettled g' k' L R hbetween ((hfirst.other k' L R hnow).mp hmatched) d d' hd hd'
    have hrest := ih hcarried' hsettled' (by rwa [hfirst.kept.seen]) fun g' hg' => by
      rw [hfirst.kept.seen]
      exact hguids g' (List.mem_cons_of_mem g hg')
    refine ⟨hfirst.kept.trans hrest.kept, fun k' L R hbetween => ?_, fun k' L R hbetween => ?_,
      fun k' L R hbetween hawaits => ?_⟩
    · by_cases hlater : ∃ g' ∈ guids, Between k guid g' k' L R
      · rw [List.foldl_cons, hrest.decided k' L R hlater, hfirst.kept.local_isSome, hfirst.kept.suits]
      · have hnow : ∃ g' ∈ [g], Between k guid g' k' L R := by
          obtain ⟨g', hg', hpair⟩ := hbetween
          obtain rfl | hg' := List.mem_cons.mp hg'
          · exact ⟨g', List.mem_singleton_self g', hpair⟩
          · exact absurd ⟨g', hg', hpair⟩ hlater
        rw [List.foldl_cons, hrest.other k' L R hlater, hfirst.decided k' L R hnow]
    · have hnow : ¬ ∃ g' ∈ [g], Between k guid g' k' L R := by
        rintro ⟨g', hg', hpair⟩
        rw [List.mem_singleton] at hg'
        exact hbetween ⟨g', hg' ▸ List.mem_cons_self, hpair⟩
      have hlater : ¬ ∃ g' ∈ guids, Between k guid g' k' L R := by
        rintro ⟨g', hg', hpair⟩
        exact hbetween ⟨g', List.mem_cons_of_mem g hg', hpair⟩
      rw [List.foldl_cons, hrest.other k' L R hlater, hfirst.other k' L R hnow]
    · obtain ⟨g', hg', hpair⟩ := hbetween
      obtain rfl | hg' := List.mem_cons.mp hg'
      · exact hrest.kept.defers R
          (hfirst.waits k' L R ⟨g', List.mem_singleton_self g', hpair⟩ hawaits)
      · exact hrest.waits k' L R ⟨g', hg', hpair⟩ (hfirst.kept.awaits.mpr hawaits)

theorem mem_opposite {td : TopicDetails} :
    g ∈ opposite guid td ↔ g ∈ td.endpoints ∧ kindOf g = (kindOf guid).other := by
  simp [opposite, ← Kind.ne_iff]

variable (wildMatch) in
theorem matchOn_resolves {name : String} (hcarried : s.Carried)
    (hsettled : s.Settled (kindOf guid) guid) (hguid : (s.seen (kindOf guid) guid).isSome)
    (hseen : ∀ g ∈ s.endpointsOf name, (s.seen (kindOf g) g).isSome) :
    Resolves wildMatch (kindOf guid) guid
      ((s.endpointsOf name).filter fun g => kindOf g ≠ kindOf guid) s
      (s.matchOn wildMatch defaultLocators guid name) := by
  unfold Sedp.matchOn Sedp.endpointsOf at *
  cases htd : s.topics.lookup name with
  | none => exact matchWith_loop wildMatch defaultLocators [] hcarried hsettled hguid (by simp)
  | some td =>
    refine matchWith_loop wildMatch defaultLocators (opposite guid td) hcarried hsettled hguid ?_
    intro g hg
    obtain ⟨hmem, hkind⟩ := mem_opposite.mp hg
    rw [← hkind]
    rw [htd] at hseen
    exact hseen g hmem

theorem unmatch_loop (guid : GUID) (guids : List GUID) (s : Sedp δ) :
    Kept s (guids.foldl (fun s g => s.removeAssoc g guid) s) ∧ ∀ k L R,
      (guids.foldl (fun s g => s.removeAssoc g guid) s).Matched k L R ↔
        s.Matched k L R ∧ ¬ (L ∈ guids ∧ k = kindOf L ∧ R = guid) := by
  induction guids generalizing s with
  | nil => exact ⟨.refl s, fun k L R => by simp⟩
  | cons g guids ih =>
    obtain ⟨hkept, hmatched⟩ := ih (s.removeAssoc g guid)
    refine ⟨(editMatched_kept _).trans hkept, fun k L R => ?_⟩
    rw [List.foldl_cons, hmatched, Sedp.removeAssoc, matched_drop, List.mem_cons]
    by_cases hL : L = g
    · subst hL
      tauto
    · tauto

theorem unmatchOn_drops (guid : GUID) (name : String) (s : Sedp δ) :
    Kept s (s.unmatchOn guid name) ∧ ∀ k L R, (s.unmatchOn guid name).Matched k L R ↔
      s.Matched k L R ∧ ¬ (L ∈ s.endpointsOf name ∧ kindOf L = (kindOf guid).other ∧ k = kindOf L ∧
        R = guid) := by
  unfold Sedp.unmatchOn Sedp.endpointsOf
  cases htd : s.topics.lookup name with
  | none => exact ⟨.refl s, fun k L R => by simp⟩
  | some td =>
    obtain ⟨hkept, hmatched⟩ := unmatch_loop guid (opposite guid td) s
    refine ⟨hkept, fun k L R => (hmatched k L R).trans ?_⟩
    rw [mem_opposite]
    simp only [Option.elim_some, and_assoc]

end

end OpenDDS.Source.EndpointDiscovery
