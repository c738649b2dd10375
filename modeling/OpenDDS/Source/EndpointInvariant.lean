import OpenDDS.Source.EndpointEffects

/-!
# The invariant of matching

A step that changes one endpoint decides about all its pairs, so the invariant is stated up to a
set of endpoints: their pairs may still be wrong. A change puts the endpoint into the set, and
`match_endpoints` takes it out. The queued step of a participant puts all its endpoints that wait
into the set; those that do not wait suit no local endpoint.
-/
namespace OpenDDS.Source.EndpointInvariant

open Library.AssociationList EndpointDiscovery DataSampleHeader ParticipantDiscovery QosMatching

variable {δ : Type} {own : GuidPrefix} {typeOf : String → String} {s s' : Sedp δ} {k k' : Kind}
  {X guid L R : GUID} {wildMatch : List Char → List Char → Bool}
  {defaultLocators : GUID → Option (List String)}

variable {d : Seen δ}

section

structure Topics (typeOf : String → String) (s : Sedp δ) : Prop where
  names : ∀ id n, s.topicNames.lookup id = some n → ∃ td, s.topics.lookup n = some td ∧ td.repoId = id
  ids : ∀ n td n' td', s.topics.lookup n = some td → s.topics.lookup n' = some td' →
    td.repoId = td'.repoId → n = n'
  types : ∀ n td, s.topics.lookup n = some td → td.dataType = typeOf n

structure Endpoints (own : GuidPrefix) (s : Sedp δ) : Prop where
  locals : ∀ k guid e, (s.locals k).lookup guid = some e →
    kindOf guid = k ∧ guid.guidPrefix = own ∧ (s.topicNames.lookup e.topicId).isSome
  discovered : ∀ k guid e, (s.discovered k).lookup guid = some e →
    kindOf guid = k ∧ guid.guidPrefix ≠ own ∧ e.qos.transports ≠ []
  listed : ∀ n guid, guid ∈ s.endpointsOf n ↔ ∃ d, s.seen (kindOf guid) guid = some d ∧ d.topic = n

theorem Topics.of_same (h : Topics typeOf s)
    (htopics : ∀ n, (s'.topics.lookup n).map (fun td => (td.dataType, td.repoId)) =
      (s.topics.lookup n).map fun td => (td.dataType, td.repoId))
    (hnames : ∀ id, s'.topicNames.lookup id = s.topicNames.lookup id) : Topics typeOf s' := by
  have hbefore : ∀ n td', s'.topics.lookup n = some td' → ∃ td, s.topics.lookup n = some td ∧
      td.dataType = td'.dataType ∧ td.repoId = td'.repoId := by
    intro n td' htd'
    have hmap := htopics n
    rw [htd'] at hmap
    obtain ⟨td, htd, heq⟩ := Option.map_eq_some_iff.mp hmap.symm
    exact ⟨td, htd, congrArg Prod.fst heq, congrArg Prod.snd heq⟩
  refine ⟨fun id n hid => ?_, fun n td n' td' htd htd' hids => ?_, fun n td htd => ?_⟩
  · rw [hnames] at hid
    obtain ⟨td, htd, hrepo⟩ := h.names id n hid
    have hmap := htopics n
    rw [htd] at hmap
    obtain ⟨td', htd', heq⟩ := Option.map_eq_some_iff.mp hmap
    exact ⟨td', htd', (congrArg Prod.snd heq).trans hrepo⟩
  · obtain ⟨td₀, htd₀, -, hrepo₀⟩ := hbefore n td htd
    obtain ⟨td₁, htd₁, -, hrepo₁⟩ := hbefore n' td' htd'
    exact h.ids n td₀ n' td₁ htd₀ htd₁ (by rw [hrepo₀, hrepo₁, hids])
  · obtain ⟨td₀, htd₀, htype, -⟩ := hbefore n td htd
    rw [← htype]
    exact h.types n td₀ htd₀

theorem Topics.of_kept (h : Topics typeOf s) (hkept : Kept s s') : Topics typeOf s' :=
  h.of_same (fun n => by rw [hkept.topics]) fun id => by rw [hkept.topicNames]

theorem Endpoints.of_kept (h : Endpoints own s) (hkept : Kept s s') : Endpoints own s' := by
  refine ⟨fun k guid e he => ?_, fun k guid e he => ?_, fun n guid => ?_⟩
  · obtain ⟨e₀, he₀, htopic, -⟩ := hkept.local_before he
    rw [← htopic, hkept.topicNames]
    exact h.locals k guid e₀ he₀
  · rw [hkept.discovered] at he
    exact h.discovered k guid e he
  · rw [hkept.endpointsOf, hkept.seen]
    exact h.listed n guid

theorem Endpoints.not_local (h : Endpoints own s) {e : DiscoveredEndpoint δ}
    (he : (s.discovered k).lookup guid = some e) : (s.locals k').lookup guid = none := by
  cases hlocal : (s.locals k').lookup guid with
  | none => rfl
  | some e' => exact absurd (h.locals k' guid e' hlocal).2.1 (h.discovered k guid e he).2.1

theorem Endpoints.seen_discovered (h : Endpoints own s) {e : DiscoveredEndpoint δ}
    (he : (s.discovered k).lookup guid = some e) :
    s.seen k guid = some ⟨false, e.topicName, e.qos⟩ :=
  seen_of_discovered (h.not_local he) he

theorem discovered_of_seen (hd : s.seen k guid = some d) (hremote : d.isLocal = false) :
    ∃ e, (s.discovered k).lookup guid = some e ∧ d = ⟨false, e.topicName, e.qos⟩ := by
  have hlocal := seen_isLocal hd
  rw [hremote] at hlocal
  have hnone : (s.locals k).lookup guid = none := by simpa using hlocal.symm
  rw [Sedp.seen, hnone] at hd
  obtain ⟨e, he, rfl⟩ := Option.map_eq_some_iff.mp hd
  exact ⟨e, he, rfl⟩

theorem Endpoints.kind_of_seen (h : Endpoints own s) (hd : s.seen k guid = some d) :
    kindOf guid = k := by
  cases hlocal : (s.locals k).lookup guid with
  | some e => exact (h.locals k guid e hlocal).1
  | none =>
    rw [Sedp.seen, hlocal] at hd
    obtain ⟨e, he, -⟩ := Option.map_eq_some_iff.mp hd
    exact (h.discovered k guid e he).1

theorem Endpoints.carried (h : Endpoints own s) : s.Carried := by
  intro k guid d hd
  cases hlocal : d.isLocal with
  | true => exact .inl rfl
  | false =>
    obtain ⟨e, he, rfl⟩ := discovered_of_seen hd hlocal
    exact .inr (h.discovered k guid e he).2.2

theorem Endpoints.seen_of_listed (h : Endpoints own s) {n : String} (hmem : guid ∈ s.endpointsOf n) :
    (s.seen (kindOf guid) guid).isSome := by
  obtain ⟨d, hd, -⟩ := (h.listed n guid).mp hmem
  rw [hd]
  rfl

theorem isSome_local_iff :
    ((s.locals k).lookup guid).isSome ↔ ∃ d, s.seen k guid = some d ∧ d.isLocal = true := by
  constructor
  · intro hsome
    obtain ⟨e, he⟩ := Option.isSome_iff_exists.mp hsome
    exact ⟨_, seen_of_local he, rfl⟩
  · rintro ⟨d, hd, hlocal⟩
    rw [← seen_isLocal hd]
    exact hlocal

end

variable {S : GUID → Prop}

section

/-- Both are known and on the same topic. -/
def Joined (k : Kind) (L R : GUID) (s : Sedp δ) : Prop :=
  ∃ d d', s.seen k L = some d ∧ s.seen k.other R = some d' ∧ d.topic = d'.topic

/-- The pairs that touch none of the endpoints `S` are right. -/
structure Near (wildMatch : List Char → List Char → Bool) (own : GuidPrefix) (typeOf : String → String)
    (S : GUID → Prop) (s : Sedp δ) : Prop where
  topics : Topics typeOf s
  endpoints : Endpoints own s
  exact : ∀ k L R, ¬ S L → ¬ S R → (s.Matched k L R ↔
    ((s.locals k).lookup L).isSome ∧ Joined k L R s ∧ s.Suits wildMatch k L R)
  joined : ∀ k L R, s.Matched k L R → Joined k L R s
  waits : ∀ k L R, ¬ S L → ¬ S R → Joined k L R s → s.Awaits wildMatch k L R →
    R ∈ s.deferMatchEndpoints

def AllReady (s : Sedp δ) : Prop :=
  ∀ k L R, s.Matched k L R → ∀ d d', s.seen k L = some d → s.seen k.other R = some d' →
    s.Ready L d ∧ s.Ready R d'

theorem AllReady.settled (h : AllReady s) : s.Settled k X :=
  fun _ k' L R _ => h k' L R

theorem Kept.joined (h : Kept s s') : Joined k L R s' ↔ Joined k L R s := by
  simp only [Joined, h.seen]

theorem Resolves.allReady {guids : List GUID} (h : Resolves wildMatch k X guids s s')
    (hready : AllReady s) : AllReady s' := by
  intro k' L R hmatched d d' hd hd'
  rw [h.kept.seen] at hd hd'
  rw [h.kept.ready, h.kept.ready]
  by_cases hnow : ∃ g ∈ guids, Between k X g k' L R
  · obtain ⟨-, e, e', he, he', -, hL, hR⟩ := (h.decided k' L R hnow).mp hmatched
    rw [hd] at he
    rw [hd'] at he'
    cases he
    cases he'
    exact ⟨hL, hR⟩
  · exact hready k' L R ((h.other k' L R hnow).mp hmatched) d d' hd hd'

theorem Endpoints.between_iff (h : Endpoints own s) (hd : s.seen (kindOf X) X = some d)
    (htouches : L = X ∨ R = X) : (∃ g ∈ (s.endpointsOf d.topic).filter fun g => kindOf g ≠ kindOf X,
      Between (kindOf X) X g k L R) ↔ Joined k L R s := by
  have hmem : ∀ g, g ∈ (s.endpointsOf d.topic).filter (fun g => kindOf g ≠ kindOf X) ↔
      ∃ d', s.seen (kindOf X).other g = some d' ∧ d'.topic = d.topic := by
    intro g
    rw [List.mem_filter, h.listed]
    constructor
    · rintro ⟨⟨d', hd', htopic⟩, hkind⟩
      have hother : kindOf g = (kindOf X).other := by simpa [Kind.ne_iff] using hkind
      exact ⟨d', hother ▸ hd', htopic⟩
    · rintro ⟨d', hd', htopic⟩
      have hkind := h.kind_of_seen hd'
      exact ⟨⟨d', by rwa [hkind], htopic⟩, by simp [Kind.ne_iff, hkind]⟩
  constructor
  · rintro ⟨g, hg, ⟨rfl, rfl, rfl⟩ | ⟨rfl, rfl, rfl⟩⟩
    · obtain ⟨d', hd', htopic⟩ := (hmem R).mp hg
      exact ⟨d, d', hd, hd', htopic.symm⟩
    · obtain ⟨d', hd', htopic⟩ := (hmem L).mp hg
      exact ⟨d', d, hd', by rwa [Kind.other_other], htopic⟩
  · rintro ⟨e, e', he, he', htopic⟩
    obtain rfl | rfl := htouches
    · have hk := h.kind_of_seen he
      subst hk
      rw [hd] at he
      cases he
      exact ⟨R, (hmem R).mpr ⟨e', he', htopic.symm⟩, .inl ⟨rfl, rfl, rfl⟩⟩
    · have hk : (kindOf R).other = k := by rw [h.kind_of_seen he', Kind.other_other]
      subst hk
      rw [Kind.other_other, hd] at he'
      cases he'
      exact ⟨L, (hmem L).mpr ⟨e, he, htopic⟩, .inr ⟨rfl, rfl, rfl⟩⟩

theorem not_between (hL : L ≠ X) (hR : R ≠ X) (guids : List GUID) :
    ¬ ∃ g ∈ guids, Between k' X g k L R := by
  rintro ⟨g, -, ⟨-, h, -⟩ | ⟨-, -, h⟩⟩
  · exact hL h
  · exact hR h

theorem Near.matchOn (h : Near wildMatch own typeOf S s) (hready : AllReady s)
    (hd : s.seen (kindOf X) X = some d) : Near wildMatch own typeOf (fun g => S g ∧ g ≠ X)
      (s.matchOn wildMatch defaultLocators X d.topic) ∧
    AllReady (s.matchOn wildMatch defaultLocators X d.topic) ∧
    Kept s (s.matchOn wildMatch defaultLocators X d.topic) := by
  have hresolves := matchOn_resolves wildMatch defaultLocators h.endpoints.carried
    (hready.settled (k := kindOf X)) (by rw [hd]; rfl)
    fun g (hg : g ∈ s.endpointsOf d.topic) => h.endpoints.seen_of_listed hg
  have hkept := hresolves.kept
  refine ⟨⟨h.topics.of_kept hkept, h.endpoints.of_kept hkept, fun k L R hL hR => ?_,
    fun k L R hmatched => ?_, fun k L R hL hR hjoined hawaits => ?_⟩, Resolves.allReady hresolves hready,
    hkept⟩
  · rw [hkept.local_isSome, Kept.joined hkept, hkept.suits]
    by_cases htouches : L = X ∨ R = X
    · rw [← h.endpoints.between_iff hd htouches]
      by_cases hbetween : ∃ g ∈ (s.endpointsOf d.topic).filter fun g => kindOf g ≠ kindOf X,
          Between (kindOf X) X g k L R
      · rw [hresolves.decided k L R hbetween]
        tauto
      · rw [hresolves.other k L R hbetween]
        have hnot : ¬ s.Matched k L R := fun hmatched =>
          hbetween ((h.endpoints.between_iff hd htouches).mpr (h.joined k L R hmatched))
        exact iff_of_false hnot fun hright => hbetween hright.2.1
    · obtain ⟨hLX, hRX⟩ := not_or.mp htouches
      rw [hresolves.other k L R (not_between hLX hRX _)]
      exact h.exact k L R (fun hS => hL ⟨hS, hLX⟩) fun hS => hR ⟨hS, hRX⟩
  · rw [Kept.joined hkept]
    by_cases hbetween : ∃ g ∈ (s.endpointsOf d.topic).filter fun g => kindOf g ≠ kindOf X,
        Between (kindOf X) X g k L R
    · refine (h.endpoints.between_iff hd ?_).mp hbetween
      obtain ⟨g, -, ⟨-, hLX, -⟩ | ⟨-, -, hRX⟩⟩ := hbetween
      · exact .inl hLX
      · exact .inr hRX
    · exact h.joined k L R ((hresolves.other k L R hbetween).mp hmatched)
  · rw [Kept.joined hkept] at hjoined
    rw [hkept.awaits] at hawaits
    by_cases htouches : L = X ∨ R = X
    · exact hresolves.waits k L R ((h.endpoints.between_iff hd htouches).mpr hjoined) hawaits
    · obtain ⟨hLX, hRX⟩ := not_or.mp htouches
      exact hkept.defers R (h.waits k L R (fun hS => hL ⟨hS, hLX⟩) (fun hS => hR ⟨hS, hRX⟩)
        hjoined hawaits)

theorem Near.mono {S T : GUID → Prop} (h : Near wildMatch own typeOf S s) (hsub : ∀ g, S g → T g) :
    Near wildMatch own typeOf T s :=
  ⟨h.topics, h.endpoints, fun k L R hL hR => h.exact k L R (fun hS => hL (hsub L hS))
      fun hS => hR (hsub R hS),
    h.joined, fun k L R hL hR => h.waits k L R (fun hS => hL (hsub L hS)) fun hS => hR (hsub R hS)⟩

theorem Near.unseen {S T : GUID → Prop} (h : Near wildMatch own typeOf S s)
    (hgone : ∀ g, S g → ¬ T g → ∀ k, s.seen k g = none) : Near wildMatch own typeOf T s := by
  have hright : ∀ k L R, ¬ T L → ¬ T R → Joined k L R s → ¬ S L ∧ ¬ S R := by
    rintro k L R hL hR ⟨d, d', hd, hd', -⟩
    constructor
    · intro hS
      rw [hgone L hS hL k] at hd
      cases hd
    · intro hS
      rw [hgone R hS hR k.other] at hd'
      cases hd'
  refine ⟨h.topics, h.endpoints, fun k L R hL hR => ?_, h.joined, fun k L R hL hR hjoined => ?_⟩
  · constructor
    · intro hmatched
      obtain ⟨hL', hR'⟩ := hright k L R hL hR (h.joined k L R hmatched)
      exact (h.exact k L R hL' hR').mp hmatched
    · intro hwanted
      obtain ⟨hL', hR'⟩ := hright k L R hL hR hwanted.2.1
      exact (h.exact k L R hL' hR').mpr hwanted
  · obtain ⟨hL', hR'⟩ := hright k L R hL hR hjoined
    exact h.waits k L R hL' hR' hjoined

def Right (wildMatch : List Char → List Char → Bool) (own : GuidPrefix) (typeOf : String → String)
    (s : Sedp δ) : Prop :=
  Near wildMatch own typeOf (fun _ => False) s

theorem Right.allReady (h : Right wildMatch own typeOf s) : AllReady s := by
  intro k L R hmatched d d' hd hd'
  obtain ⟨-, -, e, e', he, he', -, hL, hR⟩ := (h.exact k L R id id).mp hmatched
  rw [hd] at he
  rw [hd'] at he'
  cases he
  cases he'
  exact ⟨hL, hR⟩

/-- `X` is new, or has another QoS. -/
structure Revises (X : GUID) (s s' : Sedp δ) : Prop where
  matched : ∀ k L R, s'.Matched k L R ↔ s.Matched k L R
  others : ∀ k guid, guid ≠ X → s'.seen k guid = s.seen k guid
  same : ∀ k d, s.seen k X = some d → ∃ d', s'.seen k X = some d' ∧ d'.isLocal = d.isLocal ∧
    d'.topic = d.topic
  associated : s'.associatedParticipants = s.associatedParticipants
  defers : s'.deferMatchEndpoints = s.deferMatchEndpoints

theorem Revises.seen_after (h : Revises X s s') (hd : s.seen k guid = some d) :
    ∃ d', s'.seen k guid = some d' ∧ d'.isLocal = d.isLocal ∧ d'.topic = d.topic := by
  by_cases hX : guid = X
  · subst hX
    exact h.same k d hd
  · exact ⟨d, by rwa [h.others k guid hX], rfl, rfl⟩

theorem Revises.ready (h : Revises X s s') {d d' : Seen δ} (hlocal : d'.isLocal = d.isLocal) :
    s'.Ready guid d' ↔ s.Ready guid d := by
  rw [Sedp.Ready, Sedp.Ready, h.associated, hlocal]

theorem Revises.joined (h : Revises X s s') (hjoined : Joined k L R s) : Joined k L R s' := by
  obtain ⟨d, d', hd, hd', htopic⟩ := hjoined
  obtain ⟨e, he, -, htopicL⟩ := h.seen_after hd
  obtain ⟨e', he', -, htopicR⟩ := h.seen_after hd'
  exact ⟨e, e', he, he', by rw [htopicL, htopicR, htopic]⟩

section

variable (h : Right wildMatch own typeOf s) (hrevises : Revises X s s') (htopics : Topics typeOf s')
  (hendpoints : Endpoints own s')
include h hrevises htopics hendpoints

theorem Right.revise : Near wildMatch own typeOf (· = X) s' ∧ AllReady s' := by
  refine ⟨⟨htopics, hendpoints, fun k L R hL hR => ?_, fun k L R hmatched => ?_,
    fun k L R hL hR hjoined hawaits => ?_⟩, fun k L R hmatched d d' hd hd' => ?_⟩
  · have hlocal : ((s'.locals k).lookup L).isSome ↔ ((s.locals k).lookup L).isSome := by
      rw [isSome_local_iff, isSome_local_iff, hrevises.others k L hL]
    have hsuits : s'.Suits wildMatch k L R ↔ s.Suits wildMatch k L R := by
      simp only [Sedp.Suits, Sedp.Ready, hrevises.others k L hL, hrevises.others k.other R hR,
        hrevises.associated]
    rw [hrevises.matched, hlocal, hsuits, Joined, hrevises.others k L hL,
      hrevises.others k.other R hR]
    exact h.exact k L R id id
  · exact hrevises.joined (h.joined k L R ((hrevises.matched k L R).mp hmatched))
  · have hawaits' : s.Awaits wildMatch k L R := by
      simpa only [Sedp.Awaits, Sedp.Ready, hrevises.others k L hL, hrevises.others k.other R hR,
        hrevises.associated] using hawaits
    have hjoined' : Joined k L R s := by
      simpa only [Joined, hrevises.others k L hL, hrevises.others k.other R hR] using hjoined
    rw [hrevises.defers]
    exact h.waits k L R id id hjoined' hawaits'
  · have hbefore := (hrevises.matched k L R).mp hmatched
    obtain ⟨-, -, e, e', he, he', -, hL, hR⟩ := (h.exact k L R id id).mp hbefore
    obtain ⟨d₁, hd₁, hlocal, -⟩ := hrevises.seen_after he
    obtain ⟨d₁', hd₁', hlocal', -⟩ := hrevises.seen_after he'
    rw [hd] at hd₁
    rw [hd'] at hd₁'
    cases hd₁
    cases hd₁'
    exact ⟨(hrevises.ready hlocal).mpr hL, (hrevises.ready hlocal').mpr hR⟩

theorem Right.rematch (hd : s'.seen (kindOf X) X = some d) :
    Right wildMatch own typeOf (s'.matchOn wildMatch defaultLocators X d.topic) ∧
      Kept s' (s'.matchOn wildMatch defaultLocators X d.topic) := by
  obtain ⟨hnear, hready⟩ := h.revise hrevises htopics hendpoints
  obtain ⟨hmatched, -, hkept⟩ := hnear.matchOn hready hd
  exact ⟨hmatched.mono fun g hg => hg.2 hg.1, hkept⟩

end

/-- `X` is gone, and nothing is matched with it. -/
structure Forgets (X : GUID) (s s' : Sedp δ) : Prop where
  matched : ∀ k L R, s'.Matched k L R ↔ s.Matched k L R ∧ L ≠ X ∧ R ≠ X
  others : ∀ k guid, guid ≠ X → s'.seen k guid = s.seen k guid
  gone : ∀ k, s'.seen k X = none
  associated : s'.associatedParticipants = s.associatedParticipants
  defers : ∀ guid ∈ s.deferMatchEndpoints, guid ∈ s'.deferMatchEndpoints

theorem Near.forget (h : Near wildMatch own typeOf S s) (hforgets : Forgets X s s')
    (htopics : Topics typeOf s') (hendpoints : Endpoints own s') :
    Near wildMatch own typeOf S s' := by
  have hjoined : ∀ k L R, Joined k L R s' ↔ Joined k L R s ∧ L ≠ X ∧ R ≠ X := by
    intro k L R
    by_cases hL : L = X
    · subst hL
      simp [Joined, hforgets.gone]
    · by_cases hR : R = X
      · subst hR
        simp [Joined, hforgets.gone]
      · simp [Joined, hforgets.others, hL, hR]
  have hsame : ∀ k L R, L ≠ X → R ≠ X → (((s'.locals k).lookup L).isSome ↔
      ((s.locals k).lookup L).isSome) ∧ (s'.Suits wildMatch k L R ↔ s.Suits wildMatch k L R) ∧
      (s'.Awaits wildMatch k L R ↔ s.Awaits wildMatch k L R) := by
    intro k L R hL hR
    rw [isSome_local_iff, isSome_local_iff]
    simp only [Sedp.Suits, Sedp.Awaits, Sedp.Ready, hforgets.others k L hL,
      hforgets.others k.other R hR, hforgets.associated, and_self]
  refine ⟨htopics, hendpoints, fun k L R hSL hSR => ?_, fun k L R hmatched => ?_,
    fun k L R hSL hSR hjoins hawaits => ?_⟩
  · rw [hforgets.matched, hjoined, h.exact k L R hSL hSR]
    constructor
    · rintro ⟨⟨hlocal, hjoins, hsuits⟩, hL, hR⟩
      obtain ⟨hlocal', hsuits', -⟩ := hsame k L R hL hR
      exact ⟨hlocal'.mpr hlocal, ⟨hjoins, hL, hR⟩, hsuits'.mpr hsuits⟩
    · rintro ⟨hlocal, ⟨hjoins, hL, hR⟩, hsuits⟩
      obtain ⟨hlocal', hsuits', -⟩ := hsame k L R hL hR
      exact ⟨⟨hlocal'.mp hlocal, hjoins, hsuits'.mp hsuits⟩, hL, hR⟩
  · obtain ⟨hbefore, hne⟩ := (hforgets.matched k L R).mp hmatched
    exact (hjoined k L R).mpr ⟨h.joined k L R hbefore, hne⟩
  · obtain ⟨hbefore, hL, hR⟩ := (hjoined k L R).mp hjoins
    exact hforgets.defers R (h.waits k L R hSL hSR hbefore ((hsame k L R hL hR).2.2.mp hawaits))

theorem Near.matched_listed (h : Near wildMatch own typeOf S s) (hd : s.seen (kindOf X) X = some d)
    (hmatched : s.Matched k L X) :
    L ∈ s.endpointsOf d.topic ∧ kindOf L = (kindOf X).other ∧ k = kindOf L := by
  obtain ⟨e, e', he, he', htopic⟩ := h.joined k L X hmatched
  have hL := h.endpoints.kind_of_seen he
  have hX := h.endpoints.kind_of_seen he'
  rw [← hX, hd] at he'
  cases he'
  refine ⟨(h.endpoints.listed _ L).mpr ⟨e, by rwa [hL], htopic⟩, ?_, hL.symm⟩
  rw [hX, Kind.other_other, hL]

theorem Near.undefer (h : Near wildMatch own typeOf S s)
    (hassociated : participantOf guid ∈ s.associatedParticipants) : Near wildMatch own typeOf S
      { s with deferMatchEndpoints := s.deferMatchEndpoints.filter (· ≠ guid) } := by
  refine ⟨h.topics.of_same (fun _ => rfl) fun _ => rfl,
    ⟨h.endpoints.locals, h.endpoints.discovered, h.endpoints.listed⟩, h.exact, h.joined,
    fun k L R hL hR hjoined hawaits => ?_⟩
  have hne : R ≠ guid := by
    rintro rfl
    obtain ⟨-, d', -, -, -, -, hready⟩ := hawaits
    exact hready (.inr hassociated)
  exact List.mem_filter.mpr ⟨h.waits k L R hL hR hjoined hawaits, by simpa using hne⟩

end

section

variable {name : String}

section

variable {α : Type} (maps : Kind → List (GUID × α))

theorem lookup_kind_assign (e : α) :
    (Function.update maps k (assign X e (maps k)) k').lookup guid =
      if k' = k ∧ guid = X then some e else (maps k').lookup guid := by
  by_cases hk : k' = k
  · subst hk
    simp [lookup_assign]
  · simp [hk]

theorem lookup_kind_edit (f : α → α) :
    (Function.update maps k ((maps k).map fun entry =>
      if entry.1 = X then (entry.1, f entry.2) else entry) k').lookup guid =
      ((maps k').lookup guid).map fun e => if k' = k ∧ guid = X then f e else e := by
  by_cases hk : k' = k
  · subst hk
    simp [lookup_edit]
  · simp [hk]

theorem lookup_kind_erase : (Function.update maps k (erase X (maps k)) k').lookup guid =
    if k' = k ∧ guid = X then none else (maps k').lookup guid := by
  by_cases hk : k' = k
  · subst hk
    simp [lookup_erase_key]
  · simp [hk]

end

theorem seen_congr (hlocal : (s'.locals k).lookup guid = (s.locals k).lookup guid)
    (hdiscovered : (s'.discovered k).lookup guid = (s.discovered k).lookup guid)
    (hnames : ∀ e, (s.locals k).lookup guid = some e →
      s'.topicName e.topicId = s.topicName e.topicId) : s'.seen k guid = s.seen k guid := by
  unfold Sedp.seen
  rw [hlocal, hdiscovered]
  cases he : (s.locals k).lookup guid with
  | none => rfl
  | some e => simp only [hnames e he]

theorem lookup_editEndpoints (f : List GUID → List GUID) (n : String) :
    (s.editEndpoints name f).topics.lookup n = (s.topics.lookup n).map fun td =>
      if n = name then { td with endpoints := f td.endpoints } else td :=
  lookup_edit (fun td : TopicDetails => { td with endpoints := f td.endpoints }) s.topics

theorem Topics.editEndpoints (h : Topics typeOf s) (f : List GUID → List GUID) :
    Topics typeOf (s.editEndpoints name f) := by
  refine h.of_same (fun n => ?_) fun id => rfl
  rw [lookup_editEndpoints, Option.map_map]
  congr 1
  funext td
  by_cases hn : n = name
  · simp [hn]
  · simp [hn]

theorem mem_endpointsOf_insert (hname : (s.topics.lookup name).isSome) (n : String) (g : GUID) :
    g ∈ (s.editEndpoints name (List.insert X)).endpointsOf n ↔
      g ∈ s.endpointsOf n ∨ (n = name ∧ g = X) := by
  unfold Sedp.endpointsOf
  rw [lookup_editEndpoints]
  by_cases hn : n = name
  · subst hn
    obtain ⟨td, htd⟩ := Option.isSome_iff_exists.mp hname
    simp [htd, or_comm]
  · cases s.topics.lookup n with
    | none => simp [hn]
    | some td => simp [hn]

theorem mem_endpointsOf_filter (n : String) (g : GUID) :
    g ∈ (s.editEndpoints name (·.filter (· ≠ X))).endpointsOf n ↔
      g ∈ s.endpointsOf n ∧ ¬ (n = name ∧ g = X) := by
  unfold Sedp.endpointsOf
  rw [lookup_editEndpoints]
  by_cases hn : n = name
  · subst hn
    cases s.topics.lookup n with
    | none => simp
    | some td => simp
  · cases s.topics.lookup n with
    | none => simp
    | some td => simp [hn]

section

variable (h : Endpoints own s) (hothers : ∀ k guid, guid ≠ X → s'.seen k guid = s.seen k guid)
include h hothers

theorem Endpoints.listed_add (hnew : ∀ k, s.seen k X = none) (hd : s'.seen (kindOf X) X = some d)
    (hmem : ∀ n g, g ∈ s'.endpointsOf n ↔ g ∈ s.endpointsOf n ∨ (n = d.topic ∧ g = X)) (n : String)
    (g : GUID) : g ∈ s'.endpointsOf n ↔ ∃ d, s'.seen (kindOf g) g = some d ∧ d.topic = n := by
  rw [hmem, h.listed]
  by_cases hg : g = X
  · subst hg
    rw [hd, hnew]
    simp [eq_comm]
  · rw [hothers _ g hg]
    simp [hg]

theorem Endpoints.listed_drop (hgone : ∀ k, s'.seen k X = none) (hd : s.seen (kindOf X) X = some d)
    (hmem : ∀ n g, g ∈ s'.endpointsOf n ↔ g ∈ s.endpointsOf n ∧ ¬ (n = d.topic ∧ g = X))
    (n : String) (g : GUID) :
    g ∈ s'.endpointsOf n ↔ ∃ d, s'.seen (kindOf g) g = some d ∧ d.topic = n := by
  rw [hmem, h.listed]
  by_cases hg : g = X
  · subst hg
    rw [hd, hgone]
    simp [eq_comm]
  · rw [hothers _ g hg]
    simp [hg]

end

theorem Endpoints.unseen (h : Endpoints own s) (hown : X.guidPrefix = own)
    (hnew : (s.locals (kindOf X)).lookup X = none) (k : Kind) : s.seen k X = none := by
  cases hd : s.seen k X with
  | none => rfl
  | some d =>
    have hk := h.kind_of_seen hd
    subst hk
    have hremote : d.isLocal = false := by rw [seen_isLocal hd, hnew]; rfl
    obtain ⟨e, he, -⟩ := discovered_of_seen hd hremote
    exact absurd hown (h.discovered _ X e he).2.1

theorem Endpoints.unseen_remote (h : Endpoints own s) (hremote : X.guidPrefix ≠ own)
    (hnew : (s.discovered (kindOf X)).lookup X = none) (k : Kind) : s.seen k X = none := by
  cases hd : s.seen k X with
  | none => rfl
  | some d =>
    have hk := h.kind_of_seen hd
    subst hk
    cases hlocal : (s.locals (kindOf X)).lookup X with
    | some e => exact absurd (h.locals _ X e hlocal).2.1 hremote
    | none =>
      rw [Sedp.seen, hlocal, hnew] at hd
      cases hd

end

section

variable {topicId : GUID}

theorem Right.relabel (h : Right wildMatch own typeOf s) (htopics : Topics typeOf s')
    (hendpoints : Endpoints own s') (hseen : ∀ k guid, s'.seen k guid = s.seen k guid)
    (hlocals : s'.locals = s.locals)
    (hassociated : s'.associatedParticipants = s.associatedParticipants)
    (hdefers : s'.deferMatchEndpoints = s.deferMatchEndpoints) : Right wildMatch own typeOf s' := by
  have hmatched : ∀ k L R, s'.Matched k L R ↔ s.Matched k L R := by
    intro k L R
    rw [Sedp.Matched, Sedp.Matched, hlocals]
  refine ⟨htopics, hendpoints, fun k L R hL hR => ?_, fun k L R hm => ?_, fun k L R hL hR => ?_⟩
  · simpa only [hmatched, hlocals, Joined, Sedp.Suits, Sedp.Ready, hseen, hassociated]
      using h.exact k L R hL hR
  · simpa only [Joined, hseen] using h.joined k L R ((hmatched k L R).mp hm)
  · simpa only [Joined, Sedp.Awaits, Sedp.Ready, hseen, hassociated, hdefers]
      using h.waits k L R hL hR

def Fresh (topicId : GUID) (s : Sedp δ) : Prop :=
  ∀ n td, s.topics.lookup n = some td → td.repoId ≠ topicId

theorem Topics.names_fresh (h : Topics typeOf s) (hfresh : Fresh topicId s) :
    s.topicNames.lookup topicId = none := by
  cases hname : s.topicNames.lookup topicId with
  | none => rfl
  | some n =>
    obtain ⟨td, htd, hid⟩ := h.names topicId n hname
    exact absurd hid (hfresh n td htd)

theorem Endpoints.relabel (h : Endpoints own s) (hlocals : s'.locals = s.locals)
    (hdiscovered : s'.discovered = s.discovered)
    (hnames : ∀ k guid e, (s.locals k).lookup guid = some e →
      s'.topicNames.lookup e.topicId = s.topicNames.lookup e.topicId)
    (hmem : ∀ n g, g ∈ s'.endpointsOf n ↔ g ∈ s.endpointsOf n) :
    Endpoints own s' ∧ ∀ k guid, s'.seen k guid = s.seen k guid := by
  have hseen : ∀ k guid, s'.seen k guid = s.seen k guid := by
    intro k guid
    refine seen_congr (by rw [hlocals]) (by rw [hdiscovered]) fun e he => ?_
    rw [Sedp.topicName, Sedp.topicName, hnames k guid e he]
  refine ⟨⟨fun k guid e he => ?_, fun k guid e he => ?_, fun n g => ?_⟩, hseen⟩
  · rw [hlocals] at he
    rw [hnames k guid e he]
    exact h.locals k guid e he
  · rw [hdiscovered] at he
    exact h.discovered k guid e he
  · rw [hmem, hseen]
    exact h.listed n g

end

end OpenDDS.Source.EndpointInvariant
