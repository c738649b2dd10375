import OpenDDS.Source.EndpointInvariant

/-!
# The calls keep the pairs right

Each call of `Sedp` with the invariant: what it does to the tables of topics and endpoints, and that
the pairs of all endpoints are right afterwards.
-/
namespace OpenDDS.Source.EndpointInvariant

open Library.AssociationList EndpointDiscovery DataSampleHeader ParticipantDiscovery QosMatching

variable {δ : Type} {own : GuidPrefix} {typeOf : String → String} {s s' : Sedp δ} {k k' : Kind}
  {guid L R topicId rid : GUID} {name : String} {wildMatch : List Char → List Char → Bool}
  {defaultLocators : GUID → Option (List String)} {qos : EndpointQos δ}

section

theorem assertTopic_right {dataType : String} (h : Right wildMatch own typeOf s)
    (htype : dataType = typeOf name) (hfresh : s.topics.lookup name = none → Fresh topicId s) :
    Right wildMatch own typeOf (s.assertTopic topicId name dataType) := by
  have htopics := h.topics
  unfold Sedp.assertTopic
  cases htd : s.topics.lookup name with
  | some td =>
    -- The id has the name already, if it has one.
    have hnames : ∀ id, (s.topicNames.lookup id).isSome →
        (assign td.repoId name s.topicNames).lookup id = s.topicNames.lookup id := by
      intro id hsome
      rw [lookup_assign]
      split_ifs with hid
      · obtain ⟨n, hn⟩ := Option.isSome_iff_exists.mp hsome
        obtain ⟨td', htd', hrepo⟩ := htopics.names id n hn
        rw [hn, htopics.ids n td' name td htd' htd (hrepo.trans hid)]
      · rfl
    let s₁ : Sedp δ := { s with topicNames := assign td.repoId name s.topicNames }
    obtain ⟨hendpoints, hseen⟩ : Endpoints own s₁ ∧ ∀ k guid, s₁.seen k guid = s.seen k guid :=
      h.endpoints.relabel rfl rfl
        (fun k guid e he => hnames _ (h.endpoints.locals k guid e he).2.2) fun n g => Iff.rfl
    refine h.relabel ⟨fun id n hid => ?_, htopics.ids, htopics.types⟩ hendpoints hseen rfl rfl rfl
    rw [lookup_assign] at hid
    split_ifs at hid with hrepo
    · cases hid
      exact ⟨td, htd, hrepo.symm⟩
    · exact htopics.names id n hid
  | none =>
    have hlookup : ∀ n, (s.topics ++ [(name, TopicDetails.mk dataType topicId [])]).lookup n =
        if n = name then some ⟨dataType, topicId, []⟩ else s.topics.lookup n :=
      fun n => lookup_concat htd
    have hunused := htopics.names_fresh (hfresh htd)
    let s₁ : Sedp δ := { s with
      topics := s.topics ++ [(name, ⟨dataType, topicId, []⟩)]
      topicNames := assign topicId name s.topicNames }
    obtain ⟨hendpoints, hseen⟩ : Endpoints own s₁ ∧ ∀ k guid, s₁.seen k guid = s.seen k guid := by
      refine h.endpoints.relabel rfl rfl (fun k guid e he => ?_) fun n g => ?_
      · have hsome := (h.endpoints.locals k guid e he).2.2
        rw [lookup_assign, if_neg]
        intro hid
        rw [hid, hunused] at hsome
        cases hsome
      · unfold Sedp.endpointsOf
        rw [hlookup]
        by_cases hn : n = name
        · simp [hn, htd]
        · simp [hn]
    refine h.relabel ⟨fun id n hid => ?_, fun n td n' td' => ?_, fun n td => ?_⟩ hendpoints hseen
      rfl rfl rfl
    · rw [lookup_assign] at hid
      rw [hlookup]
      split_ifs at hid with hrepo
      · cases hid
        exact ⟨_, by rw [if_pos rfl], hrepo.symm⟩
      · obtain ⟨td, htd', hid'⟩ := htopics.names id n hid
        have hne : n ≠ name := by
          rintro rfl
          rw [htd] at htd'
          cases htd'
        exact ⟨td, by rw [if_neg hne, htd'], hid'⟩
    · rw [hlookup, hlookup]
      intro hn hn' hids
      split_ifs at hn hn' with h1 h2 h2
      · rw [h1, h2]
      · cases hn
        exact absurd hids.symm (hfresh htd n' td' hn')
      · cases hn'
        exact absurd hids (hfresh htd n td hn)
      · exact htopics.ids n td n' td' hn hn' hids
    · rw [hlookup]
      intro hn
      split_ifs at hn with h1
      · cases hn
        rw [h1, htype]
      · exact htopics.types n td hn

theorem removeTopic_right (h : Right wildMatch own typeOf s)
    (hname : s.topicNames.lookup topicId = some name)
    (hunused : ∀ k guid e, (s.locals k).lookup guid = some e → e.topicId ≠ topicId) :
    Right wildMatch own typeOf (s.removeTopic topicId) := by
  have htopics := h.topics
  obtain ⟨td, htd, hrepo⟩ := htopics.names topicId name hname
  have hlookup : ∀ n, (s.removeTopic topicId).topics.lookup n =
      if n = name ∧ td.endpoints = [] then none else s.topics.lookup n := by
    simp only [Sedp.removeTopic, Sedp.topicName, hname, Option.getD_some, htd]
    by_cases hempty : td.endpoints = []
    · simp [hempty, lookup_erase_key]
    · simp [hempty]
  have hnames : ∀ id, (s.removeTopic topicId).topicNames.lookup id =
      if id = topicId then none else s.topicNames.lookup id :=
    fun id => lookup_erase_key
  obtain ⟨hendpoints, hseen⟩ : Endpoints own (s.removeTopic topicId) ∧
      ∀ k guid, (s.removeTopic topicId).seen k guid = s.seen k guid := by
    refine h.endpoints.relabel rfl rfl (fun k guid e he => ?_) fun n g => ?_
    · rw [hnames, if_neg (hunused k guid e he)]
    · unfold Sedp.endpointsOf
      rw [hlookup]
      split_ifs with hn
      · rw [hn.1, htd]
        simp [hn.2]
      · rfl
  have hbefore : ∀ n td', (s.removeTopic topicId).topics.lookup n = some td' →
      s.topics.lookup n = some td' := by
    intro n td' hn
    rw [hlookup] at hn
    split_ifs at hn
    exact hn
  refine h.relabel ⟨fun id n hid => ?_, fun n td n' td' hn hn' => ?_, fun n td hn => ?_⟩ hendpoints
    hseen rfl rfl rfl
  · rw [hnames] at hid
    split_ifs at hid with hne
    obtain ⟨td', htd', hrepo'⟩ := htopics.names id n hid
    -- A topic that is erased has no other id.
    have hother : n ≠ name := by
      rintro rfl
      rw [htd] at htd'
      cases htd'
      exact hne (hrepo'.symm.trans hrepo)
    exact ⟨td', by rw [hlookup, if_neg fun h => hother h.1, htd'], hrepo'⟩
  · exact htopics.ids n td n' td' (hbefore n td hn) (hbefore n' td' hn')
  · exact htopics.types n td (hbefore n td hn)

end

section

variable (defaultLocators qos) in
theorem addLocal_right (h : Right wildMatch own typeOf s) (hown : rid.guidPrefix = own)
    (hnew : (s.locals (kindOf rid)).lookup rid = none)
    (hname : s.topicNames.lookup topicId = some name) :
    Right wildMatch own typeOf (s.addLocal wildMatch defaultLocators rid topicId qos) ∧
      (s.addLocal wildMatch defaultLocators rid topicId qos).discovered = s.discovered ∧
      (s.addLocal wildMatch defaultLocators rid topicId qos).ignoredGuids = s.ignoredGuids := by
  obtain ⟨td, htd, -⟩ := h.topics.names topicId name hname
  have htopic : s.topicName topicId = name := by rw [Sedp.topicName, hname]; rfl
  let e : LocalEndpoint δ := ⟨topicId, qos, []⟩
  let s₁ := s.setLocals (kindOf rid) (assign rid e (s.locals (kindOf rid)))
  let s₂ := s₁.editEndpoints name (List.insert rid)
  have heq : s.addLocal wildMatch defaultLocators rid topicId qos =
      s₂.matchOn wildMatch defaultLocators rid name := by
    have htopic₁ : s₁.topicName topicId = name := htopic
    simp only [Sedp.addLocal, hnew, Option.elim_none]
    rw [show (s.setLocals (kindOf rid) (assign rid ⟨topicId, qos, []⟩ (s.locals (kindOf rid)))).topicName
      topicId = name from htopic₁]
  have hlookup : ∀ k g, (s₂.locals k).lookup g =
      if k = kindOf rid ∧ g = rid then some e else (s.locals k).lookup g :=
    fun _ _ => lookup_kind_assign s.locals e
  have hunseen := h.endpoints.unseen hown hnew
  have hothers : ∀ k g, g ≠ rid → s₂.seen k g = s.seen k g := by
    intro k g hg
    exact seen_congr (by rw [hlookup, if_neg fun h => hg h.2]) rfl fun e he => rfl
  have hseen : s₂.seen (kindOf rid) rid = some ⟨true, name, qos⟩ := by
    have hrid : (s₂.locals (kindOf rid)).lookup rid = some e := by rw [hlookup, if_pos ⟨rfl, rfl⟩]
    rw [seen_of_local hrid]
    exact congrArg (fun n => some (Seen.mk true n qos)) htopic
  have hrevises : Revises rid s s₂ := by
    refine ⟨fun k L R => ?_, hothers, fun k d hd => ?_, rfl, rfl⟩
    · unfold Sedp.Matched
      rw [hlookup]
      split_ifs with hL
      · obtain ⟨rfl, rfl⟩ := hL
        simp [e, hnew]
      · rfl
    · rw [hunseen] at hd
      cases hd
  have hendpoints : Endpoints own s₂ := by
    refine ⟨fun k g e' he' => ?_, h.endpoints.discovered, h.endpoints.listed_add hothers hunseen hseen
      fun n g => mem_endpointsOf_insert (by change (s.topics.lookup name).isSome; rw [htd]; rfl) n g⟩
    rw [hlookup] at he'
    split_ifs at he' with hg
    · obtain ⟨rfl, rfl⟩ := hg
      cases he'
      refine ⟨rfl, hown, ?_⟩
      change (s.topicNames.lookup topicId).isSome
      rw [hname]
      rfl
    · exact h.endpoints.locals k g e' he'
  have htopics : Topics typeOf s₁ := h.topics.of_same (fun _ => rfl) fun _ => rfl
  obtain ⟨hright, hkept⟩ := h.rematch hrevises (htopics.editEndpoints _) hendpoints hseen
  rw [heq]
  exact ⟨hright, hkept.discovered, hkept.ignoredGuids⟩

variable (defaultLocators rid qos) in
theorem updateLocalQos_right (h : Right wildMatch own typeOf s) :
    Right wildMatch own typeOf (s.updateLocalQos wildMatch defaultLocators rid qos) ∧
      (s.updateLocalQos wildMatch defaultLocators rid qos).discovered = s.discovered ∧
      (s.updateLocalQos wildMatch defaultLocators rid qos).ignoredGuids = s.ignoredGuids := by
  cases he : (s.locals (kindOf rid)).lookup rid with
  | none =>
    have heq : s.updateLocalQos wildMatch defaultLocators rid qos = s := by
      simp only [Sedp.updateLocalQos, he]
    rw [heq]
    exact ⟨h, rfl, rfl⟩
  | some e =>
    let qos' := { qos with transports := e.qos.transports }
    let s₁ := s.setLocals (kindOf rid) ((s.locals (kindOf rid)).map fun entry =>
      if entry.1 = rid then (entry.1, { entry.2 with qos := qos' }) else entry)
    have heq : s.updateLocalQos wildMatch defaultLocators rid qos =
        s₁.matchOn wildMatch defaultLocators rid (s.topicName e.topicId) := by
      simp only [Sedp.updateLocalQos, he]
      rfl
    have hlookup : ∀ k g, (s₁.locals k).lookup g = ((s.locals k).lookup g).map fun e =>
        if k = kindOf rid ∧ g = rid then { e with qos := qos' } else e :=
      fun _ _ => lookup_kind_edit s.locals fun e => { e with qos := qos' }
    have hothers : ∀ k g, g ≠ rid → s₁.seen k g = s.seen k g := by
      intro k g hg
      refine seen_congr ?_ rfl fun e he => rfl
      simp [hlookup, hg]
    have hseen : s₁.seen (kindOf rid) rid = some ⟨true, s.topicName e.topicId, qos'⟩ := by
      have hrid : (s₁.locals (kindOf rid)).lookup rid = some { e with qos := qos' } := by
        simp [hlookup, he]
      exact seen_of_local hrid
    have hrevises : Revises rid s s₁ := by
      refine ⟨fun k L R => ?_, hothers, fun k d hd => ?_, rfl, rfl⟩
      · unfold Sedp.Matched
        rw [hlookup]
        cases (s.locals k).lookup L with
        | none => simp
        | some e' =>
          by_cases hL : k = kindOf rid ∧ L = rid
          · simp [hL]
          · simp [hL]
      · have hk := h.endpoints.kind_of_seen hd
        subst hk
        rw [seen_of_local he] at hd
        cases hd
        exact ⟨_, hseen, rfl, rfl⟩
    have htopics : Topics typeOf s₁ := h.topics.of_same (fun _ => rfl) fun _ => rfl
    have hendpoints : Endpoints own s₁ := by
      refine ⟨fun k g e' he' => ?_, h.endpoints.discovered, fun n g => ?_⟩
      · rw [hlookup] at he'
        obtain ⟨e₀, he₀, rfl⟩ := Option.map_eq_some_iff.mp he'
        have hbefore := h.endpoints.locals k g e₀ he₀
        split_ifs
        · exact hbefore
        · exact hbefore
      · change g ∈ s.endpointsOf n ↔ _
        rw [h.endpoints.listed]
        by_cases hg : g = rid
        · subst hg
          simp [hseen, seen_of_local he]
        · rw [hothers _ g hg]
    obtain ⟨hright, hkept⟩ := h.rematch hrevises htopics hendpoints hseen
    rw [heq]
    exact ⟨hright, hkept.discovered, hkept.ignoredGuids⟩

variable (rid) in
theorem removeLocal_right (h : Right wildMatch own typeOf s) :
    Right wildMatch own typeOf (s.removeLocal rid) ∧ (s.removeLocal rid).discovered = s.discovered ∧
      (s.removeLocal rid).ignoredGuids = s.ignoredGuids := by
  cases he : (s.locals (kindOf rid)).lookup rid with
  | none =>
    have heq : s.removeLocal rid = s := by simp only [Sedp.removeLocal, he]
    rw [heq]
    exact ⟨h, rfl, rfl⟩
  | some e =>
    let name := s.topicName e.topicId
    let s₁ := s.setLocals (kindOf rid) (erase rid (s.locals (kindOf rid)))
    let s₂ := (s₁.unmatchOn rid name).editEndpoints name (·.filter (· ≠ rid))
    have heq : s.removeLocal rid = s₂ := by
      simp only [Sedp.removeLocal, he]
      rfl
    obtain ⟨hkept, hmatched⟩ := unmatchOn_drops rid name s₁
    have hseen := seen_of_local he
    have hlookup : ∀ k g, (s₁.locals k).lookup g =
        if k = kindOf rid ∧ g = rid then none else (s.locals k).lookup g :=
      fun _ _ => lookup_kind_erase s.locals
    have hothers : ∀ k g, g ≠ rid → s₂.seen k g = s.seen k g := by
      intro k g hg
      change (s₁.unmatchOn rid name).seen k g = _
      rw [hkept.seen]
      exact seen_congr (by rw [hlookup, if_neg fun h => hg h.2]) rfl fun e he => rfl
    have hgone : ∀ k, s₂.seen k rid = none := by
      intro k
      change (s₁.unmatchOn rid name).seen k rid = _
      rw [hkept.seen, seen_eq_none, hlookup]
      have hdiscovered : (s.discovered k).lookup rid = none := by
        cases hd : (s.discovered k).lookup rid with
        | none => rfl
        | some d => exact absurd (h.endpoints.locals _ rid e he).2.1 (h.endpoints.discovered k rid d hd).2.1
      refine ⟨?_, hdiscovered⟩
      split_ifs with hk
      · rfl
      · cases he' : (s.locals k).lookup rid with
        | none => rfl
        | some e' => exact absurd ⟨(h.endpoints.locals k rid e' he').1.symm, rfl⟩ hk
    have hbefore : ∀ k L R, s₁.Matched k L R ↔ s.Matched k L R ∧ L ≠ rid := by
      intro k L R
      unfold Sedp.Matched
      rw [hlookup]
      by_cases hL : L = rid
      · subst hL
        refine iff_of_false ?_ fun h => h.2 rfl
        rintro ⟨e', he', -⟩
        split_ifs at he' with hk
        exact hk ⟨(h.endpoints.locals k L e' he').1.symm, rfl⟩
      · simp [hL]
    have hforgets : Forgets rid s s₂ := by
      refine ⟨fun k L R => ?_, hothers, hgone, hkept.associatedParticipants, hkept.defers⟩
      change (s₁.unmatchOn rid name).Matched k L R ↔ _
      rw [hmatched, hbefore]
      constructor
      · rintro ⟨⟨hm, hL⟩, hnot⟩
        refine ⟨hm, hL, ?_⟩
        rintro rfl
        obtain ⟨hlisted, hkinds⟩ := h.matched_listed hseen hm
        exact hnot ⟨hlisted, hkinds.1, hkinds.2, rfl⟩
      · rintro ⟨hm, hL, hR⟩
        exact ⟨⟨hm, hL⟩, fun hlisted => hR hlisted.2.2.2⟩
    have hendpoints : Endpoints own s₂ := by
      refine ⟨fun k g e' he' => ?_, fun k g e' he' => ?_,
        h.endpoints.listed_drop hothers hgone hseen fun n g => ?_⟩
      · obtain ⟨e₀, he₀, htopic, -⟩ := hkept.local_before he'
        rw [hlookup] at he₀
        split_ifs at he₀
        change _ ∧ _ ∧ ((s₁.unmatchOn rid name).topicNames.lookup e'.topicId).isSome
        rw [hkept.topicNames, ← htopic]
        exact h.endpoints.locals k g e₀ he₀
      · change ((s₁.unmatchOn rid name).discovered k).lookup g = some e' at he'
        rw [hkept.discovered] at he'
        exact h.endpoints.discovered k g e' he'
      · rw [mem_endpointsOf_filter, hkept.endpointsOf]
        rfl
    have htopics : Topics typeOf s₁ := h.topics.of_same (fun _ => rfl) fun _ => rfl
    rw [heq]
    exact ⟨h.forget hforgets ((htopics.of_kept hkept).editEndpoints _) hendpoints,
      hkept.discovered, hkept.ignoredGuids⟩

end

variable {S : GUID → Prop}

section

variable {data : DiscoveredEndpoint δ}

/-- `data_received` after the topic is known. -/
theorem dataReceived_new [DecidableEq δ] (hignored : ¬ (s.ignoredGuids.contains guid = true ∨
      s.ignoredGuids.contains (participantOf guid) = true))
    (hnew : (s.discovered k).lookup guid = none) (htopics : Topics typeOf s)
    (htype : data.typeName = typeOf data.topicName) :
    let s₁ := s.assertTopic topicId data.topicName data.typeName
    s.dataReceived wildMatch defaultLocators k guid topicId data =
      ((s₁.setDiscovered k (assign guid data (s₁.discovered k))).editEndpoints data.topicName
        (List.insert guid)).matchOn wildMatch defaultLocators guid data.topicName := by
  cases htd : s.topics.lookup data.topicName with
  | some td =>
    have hsame : ¬ td.dataType ≠ data.typeName := by
      rw [htopics.types _ td htd, htype]
      exact not_not.mpr rfl
    have htd' : (s.setDiscovered k (assign guid data (s.discovered k))).topics.lookup
        data.topicName = some td := htd
    simp only [Sedp.dataReceived, if_neg hignored, hnew, htd', if_neg hsame, Sedp.assertTopic, htd]
    rfl
  | none =>
    have htd' : (s.setDiscovered k (assign guid data (s.discovered k))).topics.lookup
        data.topicName = none := htd
    have hunlisted := edit_of_lookup_none (fun td : TopicDetails =>
      { td with endpoints := List.insert guid td.endpoints }) htd
    simp only [Sedp.dataReceived, if_neg hignored, hnew, htd', Sedp.assertTopic, htd]
    simp only [Sedp.editEndpoints, Sedp.setDiscovered, List.map_append, hunlisted, List.map_cons,
      List.map_nil, if_true, List.insert_nil]

variable (defaultLocators) in
theorem addDiscovered_right {td : TopicDetails} (h : Right wildMatch own typeOf s)
    (hkind : kindOf guid = k) (hremote : guid.guidPrefix ≠ own) (hcarried : data.qos.transports ≠ [])
    (hnew : (s.discovered k).lookup guid = none) (htd : s.topics.lookup data.topicName = some td) :
    let s₁ := (s.setDiscovered k (assign guid data (s.discovered k))).editEndpoints data.topicName
      (List.insert guid)
    Right wildMatch own typeOf (s₁.matchOn wildMatch defaultLocators guid data.topicName) ∧
      Kept s₁ (s₁.matchOn wildMatch defaultLocators guid data.topicName) := by
  intro s₁
  subst hkind
  have hlookup : ∀ k g, (s₁.discovered k).lookup g =
      if k = kindOf guid ∧ g = guid then some data else (s.discovered k).lookup g :=
    fun _ _ => lookup_kind_assign s.discovered data
  have hunseen := h.endpoints.unseen_remote hremote hnew
  have hothers : ∀ k g, g ≠ guid → s₁.seen k g = s.seen k g := by
    intro k g hg
    exact seen_congr rfl (by rw [hlookup, if_neg fun h => hg h.2]) fun e he => rfl
  have hseen : s₁.seen (kindOf guid) guid = some ⟨false, data.topicName, data.qos⟩ := by
    refine seen_of_discovered (seen_eq_none.mp (hunseen (kindOf guid))).1 ?_
    rw [hlookup, if_pos ⟨rfl, rfl⟩]
  have hrevises : Revises guid s s₁ := by
    refine ⟨fun k L R => Iff.rfl, hothers, fun k d hd => ?_, rfl, rfl⟩
    rw [hunseen] at hd
    cases hd
  have hendpoints : Endpoints own s₁ := by
    refine ⟨h.endpoints.locals, fun k g e he => ?_, h.endpoints.listed_add hothers hunseen hseen
      fun n g => mem_endpointsOf_insert (by change (s.topics.lookup _).isSome; rw [htd]; rfl) n g⟩
    rw [hlookup] at he
    split_ifs at he with hg
    · obtain ⟨rfl, rfl⟩ := hg
      cases he
      exact ⟨rfl, hremote, hcarried⟩
    · exact h.endpoints.discovered k g e he
  have htopics : Topics typeOf (s.setDiscovered (kindOf guid)
      (assign guid data (s.discovered (kindOf guid)))) := h.topics.of_same (fun _ => rfl) fun _ => rfl
  exact h.rematch hrevises (htopics.editEndpoints _) hendpoints hseen

variable (defaultLocators) in
theorem updateDiscovered_right {e : DiscoveredEndpoint δ} (h : Right wildMatch own typeOf s)
    (he : (s.discovered (kindOf guid)).lookup guid = some e)
    (htransports : qos.transports = e.qos.transports) :
    let s₁ := s.setDiscovered (kindOf guid) ((s.discovered (kindOf guid)).map fun entry =>
      if entry.1 = guid then (entry.1, { entry.2 with qos := qos }) else entry)
    Right wildMatch own typeOf (s₁.matchOn wildMatch defaultLocators guid e.topicName) ∧
      Kept s₁ (s₁.matchOn wildMatch defaultLocators guid e.topicName) := by
  intro s₁
  have hlookup : ∀ k g, (s₁.discovered k).lookup g = ((s.discovered k).lookup g).map fun e =>
      if k = kindOf guid ∧ g = guid then { e with qos := qos } else e :=
    fun _ _ => lookup_kind_edit s.discovered fun e => { e with qos := qos }
  have hothers : ∀ k g, g ≠ guid → s₁.seen k g = s.seen k g := by
    intro k g hg
    refine seen_congr rfl ?_ fun e he => rfl
    simp [hlookup, hg]
  have hbefore := h.endpoints.seen_discovered he
  have hseen : s₁.seen (kindOf guid) guid = some ⟨false, e.topicName, qos⟩ := by
    have hguid : (s₁.discovered (kindOf guid)).lookup guid = some { e with qos := qos } := by
      simp [hlookup, he]
    have hnone : (s₁.locals (kindOf guid)).lookup guid = none := h.endpoints.not_local he
    exact seen_of_discovered hnone hguid
  have hrevises : Revises guid s s₁ := by
    refine ⟨fun k L R => Iff.rfl, hothers, fun k d hd => ?_, rfl, rfl⟩
    have hk := h.endpoints.kind_of_seen hd
    subst hk
    rw [hbefore] at hd
    cases hd
    exact ⟨_, hseen, rfl, rfl⟩
  have hendpoints : Endpoints own s₁ := by
    refine ⟨h.endpoints.locals, fun k g e' he' => ?_, fun n g => ?_⟩
    · rw [hlookup] at he'
      obtain ⟨e₀, he₀, rfl⟩ := Option.map_eq_some_iff.mp he'
      obtain ⟨hkind, hremote, hcarried⟩ := h.endpoints.discovered k g e₀ he₀
      split_ifs with hg
      · obtain ⟨rfl, rfl⟩ := hg
        rw [he] at he₀
        cases he₀
        exact ⟨rfl, hremote, by rwa [htransports]⟩
      · exact ⟨hkind, hremote, hcarried⟩
    · change g ∈ s.endpointsOf n ↔ _
      rw [h.endpoints.listed]
      by_cases hg : g = guid
      · subst hg
        simp [hseen, hbefore]
      · rw [hothers _ g hg]
  have htopics : Topics typeOf s₁ := h.topics.of_same (fun _ => rfl) fun _ => rfl
  exact h.rematch hrevises htopics hendpoints hseen

theorem lookup_assertTopic (topicId : GUID) (name dataType : String) (s : Sedp δ) :
    ((s.assertTopic topicId name dataType).topics.lookup name).isSome := by
  unfold Sedp.assertTopic
  cases htd : s.topics.lookup name with
  | some td =>
    change (s.topics.lookup name).isSome
    rw [htd]
    rfl
  | none =>
    rw [lookup_concat htd, if_pos rfl]
    rfl

theorem assertTopic_discovered (topicId : GUID) (name dataType : String) (s : Sedp δ) :
    (s.assertTopic topicId name dataType).discovered = s.discovered ∧
      (s.assertTopic topicId name dataType).ignoredGuids = s.ignoredGuids := by
  unfold Sedp.assertTopic
  cases s.topics.lookup name with
  | some td => exact ⟨rfl, rfl⟩
  | none => exact ⟨rfl, rfl⟩

/-- The QoS that is kept after an update is the one that was announced. -/
theorem qosChanged_snd [DecidableEq δ] {dest src : EndpointQos δ} (h : Changeable dest src) :
    (qosChanged dest src).2 = src := by
  obtain ⟨⟨_, _, _, _, _, _, _, _⟩, ⟨_, _, _, _, _⟩, _⟩ := dest
  obtain ⟨h1, h2, h3, h4, h5, h6, h7, h8, h9⟩ := h
  subst h1 h2 h3 h4 h5 h6 h7 h8 h9
  rfl

theorem eq_of_not_qosChanged [DecidableEq δ] {dest src : EndpointQos δ} (h : Changeable dest src)
    (hsame : (qosChanged dest src).1 = false) : dest = src := by
  obtain ⟨⟨_, _, _, _, _, _, _, _⟩, ⟨_, _, _, _, _⟩, _⟩ := dest
  obtain ⟨h1, h2, h3, h4, h5, h6, h7, h8, h9⟩ := h
  subst h1 h2 h3 h4 h5 h6 h7 h8 h9
  simp only [qosChanged, Bool.or_eq_false_iff, bne_eq_false_iff_eq] at hsame
  obtain ⟨⟨⟨⟨h10, h11⟩, h12⟩, h13⟩, h14⟩ := hsame
  subst h10 h11 h12 h13 h14
  rfl

variable (defaultLocators) in
theorem dataReceived_right [DecidableEq δ] (h : Right wildMatch own typeOf s)
    (hguid : guid ∈ s.ignoredGuids → (s.discovered k).lookup guid = none)
    (hpart : participantOf guid ∉ s.ignoredGuids) (hkind : kindOf guid = k)
    (hremote : guid.guidPrefix ≠ own) (hcarried : data.qos.transports ≠ [])
    (htype : data.typeName = typeOf data.topicName)
    (hupdate : ∀ e, (s.discovered k).lookup guid = some e → Changeable e.qos data.qos)
    (hfresh : s.topics.lookup data.topicName = none → Fresh topicId s) :
    Right wildMatch own typeOf (s.dataReceived wildMatch defaultLocators k guid topicId data) ∧
      (s.dataReceived wildMatch defaultLocators k guid topicId data).ignoredGuids = s.ignoredGuids ∧
      ∀ k' g e, ((s.dataReceived wildMatch defaultLocators k guid topicId data).discovered k').lookup
        g = some e → (k' = k ∧ g = guid ∧ guid ∉ s.ignoredGuids ∧ e.qos = data.qos) ∨
          (¬ (k' = k ∧ g = guid) ∧ (s.discovered k').lookup g = some e) := by
  subst hkind
  by_cases hignored : s.ignoredGuids.contains guid = true ∨
      s.ignoredGuids.contains (participantOf guid) = true
  · have heq : s.dataReceived wildMatch defaultLocators (kindOf guid) guid topicId data = s := by
      simp only [Sedp.dataReceived, if_pos hignored]
    rw [heq]
    refine ⟨h, rfl, fun k' g e he => .inr ⟨?_, he⟩⟩
    rintro ⟨rfl, rfl⟩
    obtain hmem | hmem := hignored
    · rw [hguid (by simpa using hmem)] at he
      cases he
    · exact hpart (by simpa using hmem)
  have hheeds : guid ∉ s.ignoredGuids := fun hmem => hignored (.inl (by simpa using hmem))
  cases he : (s.discovered (kindOf guid)).lookup guid with
  | none =>
    rw [dataReceived_new hignored he h.topics htype]
    have htopic : Right wildMatch own typeOf (s.assertTopic topicId data.topicName data.typeName) :=
      assertTopic_right h htype hfresh
    obtain ⟨td, htd⟩ := Option.isSome_iff_exists.mp
      (lookup_assertTopic topicId data.topicName data.typeName s)
    obtain ⟨hdiscovered, hignores⟩ := assertTopic_discovered topicId data.topicName data.typeName s
    obtain ⟨hright, hkept⟩ := addDiscovered_right defaultLocators htopic rfl hremote hcarried
      (by rw [hdiscovered, he]) htd
    refine ⟨hright, hkept.ignoredGuids.trans hignores, fun k' g e' he' => ?_⟩
    rw [hkept.discovered] at he'
    replace he' := (lookup_kind_assign _ data).symm.trans he'
    rw [hdiscovered] at he'
    split_ifs at he' with hboth
    · cases he'
      exact .inl ⟨hboth.1, hboth.2, hheeds, rfl⟩
    · exact .inr ⟨hboth, he'⟩
  | some e =>
    have hchange := hupdate e he
    cases hchanged : qosChanged e.qos data.qos with
    | mk changed qos =>
      cases changed with
      | false =>
        have heq : s.dataReceived wildMatch defaultLocators (kindOf guid) guid topicId data = s := by
          simp only [Sedp.dataReceived, if_neg hignored, he, hchanged]
        have hqos := eq_of_not_qosChanged hchange (by rw [hchanged])
        rw [heq]
        refine ⟨h, rfl, fun k' g e' he' => ?_⟩
        by_cases hboth : k' = kindOf guid ∧ g = guid
        · obtain ⟨rfl, rfl⟩ := hboth
          rw [he] at he'
          cases he'
          exact .inl ⟨rfl, rfl, hheeds, hqos⟩
        · exact .inr ⟨hboth, he'⟩
      | true =>
        have heq : s.dataReceived wildMatch defaultLocators (kindOf guid) guid topicId data =
            (s.setDiscovered (kindOf guid) ((s.discovered (kindOf guid)).map fun entry =>
              if entry.1 = guid then (entry.1, { entry.2 with qos := qos }) else entry)).matchOn
                wildMatch defaultLocators guid e.topicName := by
          simp only [Sedp.dataReceived, if_neg hignored, he, hchanged]
        have hqos : qos = data.qos := by
          rw [← qosChanged_snd hchange, hchanged]
        obtain ⟨hright, hkept⟩ := updateDiscovered_right defaultLocators h he
          (hqos ▸ hchange.transports.symm)
        rw [heq]
        refine ⟨hright, hkept.ignoredGuids, fun k' g e' he' => ?_⟩
        rw [hkept.discovered] at he'
        replace he' := (lookup_kind_edit _ fun e : DiscoveredEndpoint δ =>
          { e with qos := qos }).symm.trans he'
        obtain ⟨e₀, he₀, rfl⟩ := Option.map_eq_some_iff.mp he'
        split_ifs with hboth
        · exact .inl ⟨hboth.1, hboth.2, hheeds, hqos⟩
        · exact .inr ⟨hboth, he₀⟩

theorem dropDiscovered_near (h : Near wildMatch own typeOf S s) (k : Kind) (guid : GUID) :
    Near wildMatch own typeOf S (s.dropDiscovered k guid) ∧
      (∀ k' g, ((s.dropDiscovered k guid).discovered k').lookup g =
        if k' = k ∧ g = guid then none else (s.discovered k').lookup g) ∧
      (s.dropDiscovered k guid).ignoredGuids = s.ignoredGuids := by
  cases he : (s.discovered k).lookup guid with
  | none =>
    have heq : s.dropDiscovered k guid = s := by simp only [Sedp.dropDiscovered, he]
    rw [heq]
    refine ⟨h, fun k' g => ?_, rfl⟩
    split_ifs with hg
    · rw [hg.1, hg.2, he]
    · rfl
  | some e =>
    obtain ⟨hkind, hremote, -⟩ := h.endpoints.discovered k guid e he
    subst hkind
    let name := e.topicName
    let s₁ := s.editEndpoints name (·.filter (· ≠ guid))
    let s₂ := s₁.unmatchOn guid name
    let s₃ := s₂.setDiscovered (kindOf guid) (erase guid (s₂.discovered (kindOf guid)))
    have heq : s.dropDiscovered (kindOf guid) guid = s₃ := by
      simp only [Sedp.dropDiscovered, he]
      rfl
    obtain ⟨hkept, hmatched⟩ := unmatchOn_drops guid name s₁
    have hseen := h.endpoints.seen_discovered he
    have hlookup : ∀ k g, (s₃.discovered k).lookup g =
        if k = kindOf guid ∧ g = guid then none else (s.discovered k).lookup g := by
      intro k g
      rw [show s.discovered = s₂.discovered from hkept.discovered.symm]
      exact lookup_kind_erase s₂.discovered
    have hnone : ∀ k, (s.locals k).lookup guid = none := fun k => h.endpoints.not_local he
    have hothers : ∀ k g, g ≠ guid → s₃.seen k g = s.seen k g := by
      intro k g hg
      have hsame : s₃.seen k g = s₂.seen k g :=
        seen_congr rfl (by rw [hlookup, if_neg fun h => hg h.2, hkept.discovered]; rfl) fun e he => rfl
      rw [hsame, hkept.seen]
      rfl
    have hgone : ∀ k, s₃.seen k guid = none := by
      intro k
      rw [seen_eq_none, hlookup]
      constructor
      · have hisSome := hkept.local_isSome k guid
        change ((s₃.locals k).lookup guid).isSome = ((s.locals k).lookup guid).isSome at hisSome
        rw [hnone k] at hisSome
        simpa using hisSome
      · split_ifs with hk
        · rfl
        · cases he' : (s.discovered k).lookup guid with
          | none => rfl
          | some e' => exact absurd ⟨(h.endpoints.discovered k guid e' he').1.symm, rfl⟩ hk
    have hforgets : Forgets guid s s₃ := by
      refine ⟨fun k L R => ?_, hothers, hgone, hkept.associatedParticipants, hkept.defers⟩
      change s₂.Matched k L R ↔ _
      rw [hmatched]
      have hL : s.Matched k L R → L ≠ guid := by
        rintro ⟨e', he', -⟩ rfl
        rw [hnone k] at he'
        cases he'
      constructor
      · rintro ⟨hm, hnot⟩
        refine ⟨hm, hL hm, ?_⟩
        rintro rfl
        obtain ⟨hlisted, hkinds⟩ := h.matched_listed hseen hm
        refine hnot ⟨(mem_endpointsOf_filter _ L).mpr ⟨hlisted, fun heq => hL hm heq.2⟩, hkinds.1,
          hkinds.2, rfl⟩
      · rintro ⟨hm, -, hR⟩
        exact ⟨hm, fun hlisted => hR hlisted.2.2.2⟩
    have hendpoints : Endpoints own s₃ := by
      refine ⟨fun k g e' he' => ?_, fun k g e' he' => ?_,
        h.endpoints.listed_drop hothers hgone hseen fun n g => ?_⟩
      · obtain ⟨e₀, he₀, htopic, -⟩ := hkept.local_before he'
        change _ ∧ _ ∧ (s₂.topicNames.lookup e'.topicId).isSome
        rw [hkept.topicNames, ← htopic]
        exact h.endpoints.locals k g e₀ he₀
      · rw [hlookup] at he'
        split_ifs at he'
        exact h.endpoints.discovered k g e' he'
      · change g ∈ s₂.endpointsOf n ↔ _
        rw [hkept.endpointsOf, mem_endpointsOf_filter]
    have htopics : Topics typeOf s₂ := (h.topics.editEndpoints _).of_kept hkept
    rw [heq]
    exact ⟨h.forget hforgets (htopics.of_same (fun _ => rfl) fun _ => rfl) hendpoints, hlookup,
      hkept.ignoredGuids⟩

theorem drop_loop (k : Kind) (guids : List GUID) (h : Near wildMatch own typeOf S s) :
    let s' := guids.foldl (fun s guid => s.dropDiscovered k guid) s
    Near wildMatch own typeOf S s' ∧
      (∀ k' g, (s'.discovered k').lookup g =
        if k' = k ∧ g ∈ guids then none else (s.discovered k').lookup g) ∧
      s'.ignoredGuids = s.ignoredGuids := by
  induction guids generalizing s with
  | nil => exact ⟨h, fun k' g => by simp, rfl⟩
  | cons guid guids ih =>
    obtain ⟨hnear, hlookup, hignored⟩ := dropDiscovered_near h k guid
    obtain ⟨hnear', hlookup', hignored'⟩ := ih hnear
    refine ⟨hnear', fun k' g => ?_, hignored'.trans hignored⟩
    rw [List.foldl_cons, hlookup', hlookup]
    by_cases hk : k' = k
    · by_cases hg : g = guid
      · simp [hk, hg]
      · simp [hk, hg]
    · simp [hk]

theorem removeEntitiesBelongingTo_near (k : Kind) (guidPrefix : GuidPrefix)
    (h : Near wildMatch own typeOf S s) :
    Near wildMatch own typeOf S (s.removeEntitiesBelongingTo k guidPrefix) ∧
      (∀ k' g, ((s.removeEntitiesBelongingTo k guidPrefix).discovered k').lookup g =
        if k' = k ∧ g.guidPrefix = guidPrefix then none else (s.discovered k').lookup g) ∧
      (s.removeEntitiesBelongingTo k guidPrefix).ignoredGuids = s.ignoredGuids := by
  obtain ⟨hnear, hlookup, hignored⟩ := drop_loop k
    (((s.discovered k).map Prod.fst).filter fun guid => guid.guidPrefix = guidPrefix) h
  refine ⟨hnear, fun k' g => ?_, hignored⟩
  rw [Sedp.removeEntitiesBelongingTo, hlookup]
  by_cases hk : k' = k
  · subst hk
    by_cases hg : g.guidPrefix = guidPrefix
    · cases he : (s.discovered k').lookup g with
      | none => simp
      | some e =>
        have hmem : g ∈ (s.discovered k').map Prod.fst :=
          List.mem_map.mpr ⟨(g, e), mem_of_lookup he, rfl⟩
        simp [hg, hmem]
    · simp [hg]
  · simp [hk]

end

section

variable {guidPrefix : GuidPrefix}

variable (defaultLocators) in
theorem matchDeferred_near (h : Near wildMatch own typeOf S s) (hready : AllReady s)
    (hassociated : participantOf guid ∈ s.associatedParticipants)
    (hnamed : S guid → ∃ e, (s.discovered (kindOf guid)).lookup guid = some e ∧ e.topicName ≠ "") :
    let s' := s.matchDeferred wildMatch defaultLocators guid
    Near wildMatch own typeOf (fun g => S g ∧ g ≠ guid) s' ∧ AllReady s' ∧
      s'.associatedParticipants = s.associatedParticipants ∧ s'.discovered = s.discovered ∧
      s'.ignoredGuids = s.ignoredGuids := by
  intro s'
  by_cases htopic : ((s.discovered (kindOf guid)).lookup guid).elim "" DiscoveredEndpoint.topicName = ""
  · have heq : s' = { s with deferMatchEndpoints := s.deferMatchEndpoints.filter (· ≠ guid) } := by
      simp only [s', Sedp.matchDeferred, htopic, ne_eq, not_true, if_false]
    have hout : ¬ S guid := by
      intro hS
      obtain ⟨e, he, hname⟩ := hnamed hS
      rw [he] at htopic
      exact hname htopic
    rw [heq]
    exact ⟨(h.mono fun g hg => ⟨hg, fun heq => hout (heq ▸ hg)⟩).undefer hassociated, hready, rfl, rfl,
      rfl⟩
  · obtain ⟨e, he⟩ : ∃ e, (s.discovered (kindOf guid)).lookup guid = some e := by
      cases he : (s.discovered (kindOf guid)).lookup guid with
      | none =>
        rw [he] at htopic
        exact absurd rfl htopic
      | some e => exact ⟨e, rfl⟩
    have hname : e.topicName ≠ "" := by
      rw [he] at htopic
      exact htopic
    let s₁ := s.matchOn wildMatch defaultLocators guid e.topicName
    have heq : s' = { s₁ with deferMatchEndpoints := s₁.deferMatchEndpoints.filter (· ≠ guid) } := by
      simp only [s', Sedp.matchDeferred, he, Option.elim_some, if_pos hname]
      rfl
    obtain ⟨hnear, hready', hkept⟩ := h.matchOn hready (h.endpoints.seen_discovered he)
    rw [heq]
    refine ⟨hnear.undefer ?_, hready', hkept.associatedParticipants, hkept.discovered,
      hkept.ignoredGuids⟩
    rw [hkept.associatedParticipants]
    exact hassociated

theorem matchDeferred_loop (guids : List GUID) (h : Near wildMatch own typeOf S s)
    (hready : AllReady s) (hassociated : ∀ g ∈ guids, participantOf g ∈ s.associatedParticipants)
    (hnamed : ∀ g, S g → ∃ e, (s.discovered (kindOf g)).lookup g = some e ∧ e.topicName ≠ "")
    (hall : ∀ g, S g → g ∈ guids) :
    let s' := guids.foldl (fun s guid => s.matchDeferred wildMatch defaultLocators guid) s
    Right wildMatch own typeOf s' ∧ s'.discovered = s.discovered ∧
      s'.ignoredGuids = s.ignoredGuids := by
  induction guids generalizing s S with
  | nil => exact ⟨h.mono fun g hg => absurd (hall g hg) List.not_mem_nil, rfl, rfl⟩
  | cons guid guids ih =>
    obtain ⟨hnear, hready', hassociated', hdiscovered, hignored⟩ := matchDeferred_near
      defaultLocators h hready (hassociated guid List.mem_cons_self) (hnamed guid)
    obtain ⟨hright, hdiscovered', hignored'⟩ := ih hnear hready'
      (fun g hg => hassociated' ▸ hassociated g (List.mem_cons_of_mem guid hg))
      (fun g hg => hdiscovered ▸ hnamed g hg.1)
      fun g hg => (List.mem_cons.mp (hall g hg.1)).resolve_left hg.2
    exact ⟨hright, hdiscovered'.trans hdiscovered, hignored'.trans hignored⟩

/-- No endpoint of the participant that waits, on the topic with the empty name, is compatible with
a local endpoint of that topic. -/
def Named (wildMatch : List Char → List Char → Bool) (guidPrefix : GuidPrefix) (s : Sedp δ) : Prop :=
  ∀ guid ∈ s.deferMatchEndpoints, guid.guidPrefix = guidPrefix →
    ∀ e, (s.discovered (kindOf guid)).lookup guid = some e → e.topicName = "" →
      ∀ L e', (s.locals (kindOf guid).other).lookup L = some e' → s.topicName e'.topicId = "" →
        compatible wildMatch (kindOf guid) e.qos e'.qos = false

theorem participantOf_eq : participantOf guid = participantGuid guidPrefix ↔
    guid.guidPrefix = guidPrefix := by
  simp [participantOf, participantGuid]

variable (defaultLocators) in
theorem svcI_right (h : Right wildMatch own typeOf s) (hnamed : Named wildMatch guidPrefix s) :
    Right wildMatch own typeOf (s.svcI wildMatch defaultLocators guidPrefix) ∧
      (s.svcI wildMatch defaultLocators guidPrefix).discovered = s.discovered ∧
      (s.svcI wildMatch defaultLocators guidPrefix).ignoredGuids = s.ignoredGuids := by
  let s₁ : Sedp δ := { s with
    associatedParticipants := s.associatedParticipants.insert (participantGuid guidPrefix) }
  let S : GUID → Prop := fun g => g ∈ s.deferMatchEndpoints ∧ g.guidPrefix = guidPrefix ∧
    ∃ e, (s.discovered (kindOf g)).lookup g = some e ∧ e.topicName ≠ ""
  have hmono : ∀ g d, s.Ready g d → s₁.Ready g d := by
    rintro g d (hlocal | hmem)
    · exact .inl hlocal
    · exact .inr (List.mem_insert_of_mem hmem)
  have hnear : Near wildMatch own typeOf S s₁ := by
    refine ⟨h.topics.of_same (fun _ => rfl) fun _ => rfl,
      ⟨h.endpoints.locals, h.endpoints.discovered, h.endpoints.listed⟩, fun k L R hL hR => ?_, h.joined,
      fun k L R hL hR hjoined hawaits => ?_⟩
    · refine (h.exact k L R id id).trans ⟨fun hwanted => ?_, fun hwanted => ?_⟩
      · obtain ⟨hlocal, hjoined, d, d', hd, hd', hcompat, hready, hready'⟩ := hwanted
        exact ⟨hlocal, hjoined, d, d', hd, hd', hcompat, hmono L d hready, hmono R d' hready'⟩
      · obtain ⟨hlocal, hjoined, d, d', hd, hd', hcompat, -, hready'⟩ := hwanted
        have hisLocal : d.isLocal = true := by
          rw [seen_isLocal hd]
          exact hlocal
        refine ⟨hlocal, hjoined, d, d', hd, hd', hcompat, .inl hisLocal, ?_⟩
        by_contra hnot
        -- The endpoint waits for the participant, on the topic with the empty name.
        have hwaits := h.waits k L R id id hjoined ⟨d, d', hd, hd', hisLocal, hcompat, hnot⟩
        have hbegins : R.guidPrefix = guidPrefix := by
          obtain hlocal' | hmem := hready'
          · exact absurd (.inl hlocal') hnot
          · obtain heq | hmem := List.mem_insert_iff.mp hmem
            · exact participantOf_eq.mp heq
            · exact absurd (.inr hmem) hnot
        have hremote : d'.isLocal = false := by
          by_contra hlocal'
          exact hnot (.inl (by simpa using hlocal'))
        obtain ⟨e, he, rfl⟩ := discovered_of_seen hd' hremote
        have hkind := h.endpoints.kind_of_seen hd'
        obtain ⟨e', he'⟩ := Option.isSome_iff_exists.mp hlocal
        have hd₁ := seen_of_local he'
        rw [hd] at hd₁
        cases hd₁
        rw [← hkind] at he
        have hempty : e.topicName = "" := by
          by_contra hne
          exact hR ⟨hwaits, hbegins, e, he, hne⟩
        obtain ⟨d₁, d₁', hd₁, hd₁', htopic⟩ := hjoined
        rw [hd] at hd₁
        rw [hd'] at hd₁'
        cases hd₁
        cases hd₁'
        have hk : k = (kindOf R).other := by rw [hkind, Kind.other_other]
        have hbad := hnamed R hwaits hbegins e he hempty L e' (hk ▸ he') (htopic.trans hempty)
        rw [hkind, compatible_other] at hbad
        rw [hcompat] at hbad
        cases hbad
    · obtain ⟨d, d', hd, hd', hlocal, hcompat, hnot⟩ := hawaits
      exact h.waits k L R id id hjoined ⟨d, d', hd, hd', hlocal, hcompat, fun hready =>
        hnot (hmono R d' hready)⟩
  have hready : AllReady s₁ := by
    intro k L R hmatched d d' hd hd'
    obtain ⟨hL, hR⟩ := Right.allReady h k L R hmatched d d' hd hd'
    exact ⟨hmono L d hL, hmono R d' hR⟩
  refine matchDeferred_loop (s := s₁) _ hnear hready ?_ (fun g hg => hg.2.2) fun g hg =>
    List.mem_filter.mpr ⟨hg.1, by simpa using hg.2.1⟩
  intro g hg
  have hbegins : g.guidPrefix = guidPrefix := by simpa using (List.mem_filter.mp hg).2
  rw [participantOf_eq.mpr hbegins]
  exact List.mem_insert_self

variable (guidPrefix) in
theorem disassociate_right (h : Right wildMatch own typeOf s) :
    Right wildMatch own typeOf (s.disassociate guidPrefix) ∧
      (∀ k g e, ((s.disassociate guidPrefix).discovered k).lookup g = some e →
        (s.discovered k).lookup g = some e) ∧
      (s.disassociate guidPrefix).ignoredGuids = s.ignoredGuids := by
  let s₁ : Sedp δ := { s with
    associatedParticipants := s.associatedParticipants.filter (· ≠ participantGuid guidPrefix) }
  let S : GUID → Prop := fun g => g.guidPrefix = guidPrefix ∧ g.guidPrefix ≠ own
  have hready : ∀ k g d, ¬ S g → s.seen k g = some d → (s₁.Ready g d ↔ s.Ready g d) := by
    intro k g d hS hd
    cases hlocal : d.isLocal with
    | true => exact iff_of_true (.inl hlocal) (.inl hlocal)
    | false =>
      obtain ⟨e, he, -⟩ := discovered_of_seen hd hlocal
      have hother : participantOf g ≠ participantGuid guidPrefix := fun heq =>
        hS ⟨participantOf_eq.mp heq, (h.endpoints.discovered k g e he).2.1⟩
      simp [Sedp.Ready, s₁, hlocal, hother]
  have hnear : Near wildMatch own typeOf S s₁ := by
    refine ⟨h.topics.of_same (fun _ => rfl) fun _ => rfl,
      ⟨h.endpoints.locals, h.endpoints.discovered, h.endpoints.listed⟩, fun k L R hL hR => ?_, h.joined,
      fun k L R hL hR hjoined hawaits => ?_⟩
    · refine (h.exact k L R id id).trans ⟨fun hwanted => ?_, fun hwanted => ?_⟩
      · obtain ⟨hlocal, hjoined, d, d', hd, hd', hcompat, hreadyL, hreadyR⟩ := hwanted
        exact ⟨hlocal, hjoined, d, d', hd, hd', hcompat, (hready k L d hL hd).mpr hreadyL,
          (hready k.other R d' hR hd').mpr hreadyR⟩
      · obtain ⟨hlocal, hjoined, d, d', hd, hd', hcompat, hreadyL, hreadyR⟩ := hwanted
        exact ⟨hlocal, hjoined, d, d', hd, hd', hcompat, (hready k L d hL hd).mp hreadyL,
          (hready k.other R d' hR hd').mp hreadyR⟩
    · obtain ⟨d, d', hd, hd', hlocal, hcompat, hnot⟩ := hawaits
      exact h.waits k L R id id hjoined ⟨d, d', hd, hd', hlocal, hcompat, fun hR' =>
        hnot ((hready k.other R d' hR hd').mpr hR')⟩
  obtain ⟨hwriters, hlookupW, hignoredW⟩ := removeEntitiesBelongingTo_near .writer guidPrefix hnear
  obtain ⟨hreaders, hlookupR, hignoredR⟩ := removeEntitiesBelongingTo_near .reader guidPrefix hwriters
  have hlookup : ∀ k g, ((s.disassociate guidPrefix).discovered k).lookup g =
      if g.guidPrefix = guidPrefix then none else (s.discovered k).lookup g := by
    intro k g
    change (((s₁.removeEntitiesBelongingTo .writer guidPrefix).removeEntitiesBelongingTo .reader
      guidPrefix).discovered k).lookup g = _
    rw [hlookupR, hlookupW]
    by_cases hg : g.guidPrefix = guidPrefix
    · cases k <;> simp [hg]
    · simp [hg, s₁]
  refine ⟨hreaders.unseen ?_, fun k g e he => ?_, hignoredR.trans hignoredW⟩
  · rintro g ⟨hbegins, hremote⟩ - k
    cases hd : Sedp.seen k g _ with
    | none => rfl
    | some d =>
      exfalso
      cases hlocal : d.isLocal with
      | true =>
        obtain ⟨e, he⟩ := Option.isSome_iff_exists.mp (isSome_local_iff.mpr ⟨d, hd, hlocal⟩)
        exact hremote (hreaders.endpoints.locals k g e he).2.1
      | false =>
        obtain ⟨e, he, -⟩ := discovered_of_seen hd hlocal
        change ((s.disassociate guidPrefix).discovered k).lookup g = some e at he
        rw [hlookup, if_pos hbegins] at he
        cases he
  · rw [hlookup] at he
    split_ifs at he
    exact he

variable (guid) in
theorem ignore_right (h : Right wildMatch own typeOf s) :
    Right wildMatch own typeOf (s.ignore guid) ∧
      (∀ k g e, ((s.ignore guid).discovered k).lookup g = some e →
        g ≠ guid ∧ (s.discovered k).lookup g = some e) ∧
      (s.ignore guid).ignoredGuids = s.ignoredGuids.insert guid := by
  let s₁ : Sedp δ := { s with ignoredGuids := s.ignoredGuids.insert guid }
  have hright : Right wildMatch own typeOf s₁ :=
    ⟨h.topics.of_same (fun _ => rfl) fun _ => rfl,
      ⟨h.endpoints.locals, h.endpoints.discovered, h.endpoints.listed⟩, h.exact, h.joined, h.waits⟩
  -- The endpoint is in the map of its kind only.
  have hgone : ∀ k, (((s.discovered .writer).lookup guid).isSome → k = .writer) →
      (((s.discovered .writer).lookup guid).isSome = false → k = .reader) →
      ∀ k' g e, ((s₁.dropDiscovered k guid).discovered k').lookup g = some e →
        g ≠ guid ∧ (s.discovered k').lookup g = some e := by
    intro k hwriter hreader k' g e he
    rw [(dropDiscovered_near hright k guid).2.1] at he
    split_ifs at he with hboth
    refine ⟨?_, he⟩
    rintro rfl
    have hkind := (h.endpoints.discovered k' g e he).1
    cases hsome : ((s.discovered .writer).lookup g).isSome with
    | true =>
      obtain ⟨e', he'⟩ := Option.isSome_iff_exists.mp hsome
      exact hboth ⟨by rw [hwriter hsome, ← hkind, (h.endpoints.discovered _ g e' he').1], rfl⟩
    | false =>
      have hk : k' ≠ .writer := by
        rintro rfl
        rw [he] at hsome
        cases hsome
      exact hboth ⟨by rw [hreader hsome, Kind.ne_iff.mp hk]; rfl, rfl⟩
  by_cases hwriter : ((s.discovered .writer).lookup guid).isSome
  · have heq : s.ignore guid = s₁.dropDiscovered .writer guid := if_pos hwriter
    obtain ⟨hnear, -, hignored⟩ := dropDiscovered_near hright .writer guid
    rw [heq]
    refine ⟨hnear, hgone .writer (fun _ => rfl) fun hnone => ?_, hignored⟩
    rw [hwriter] at hnone
    cases hnone
  · have heq : s.ignore guid = s₁.dropDiscovered .reader guid := if_neg hwriter
    obtain ⟨hnear, -, hignored⟩ := dropDiscovered_near hright .reader guid
    rw [heq]
    exact ⟨hnear, hgone .reader (fun hsome => absurd hsome hwriter) fun _ => rfl, hignored⟩

end

end OpenDDS.Source.EndpointInvariant
