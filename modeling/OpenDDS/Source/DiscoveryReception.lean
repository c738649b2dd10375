import OpenDDS.Source.EndpointEffects
import OpenDDS.Source.WriterInfo

/-!
# Reception of discovery data

`Sedp::data_received` of publications and of subscriptions (dds/DCPS/RTPS/Sedp.cpp) with all its
checks: over `Sedp` lie the ignored topics, the keys of the built-in topics, the parameters of
content filters and the associations of local writers. The two functions are one with the kind of
the endpoint as an argument. Left out are the calls to local endpoints, what is stored in the
readers of the built-in topics and the handles that these give.
-/
namespace OpenDDS.Source.EndpointDiscovery

open DataSampleHeader QosMatching ParticipantDiscovery

variable {δ : Type}

/-- `DDS::BuiltinTopicKey_t`. -/
structure BuiltinTopicKey where
  value0 : BitVec 32
  value1 : BitVec 32
  value2 : BitVec 32
  deriving DecidableEq

/-- `increment_key`, from the first word to the last. After the last key comes zero. -/
def incrementKey (key : BuiltinTopicKey) : BuiltinTopicKey :=
  if key.value0 ≠ 0xffffffff#32 then { key with value0 := key.value0 + 1 }
  else if key.value1 ≠ 0xffffffff#32 then { key with value0 := 0, value1 := key.value1 + 1 }
  else if key.value2 ≠ 0xffffffff#32 then
    { value0 := 0, value1 := 0, value2 := key.value2 + 1 }
  else ⟨0, 0, 0⟩

/-- What the record of an endpoint has besides `DiscoveredEndpoint`. -/
structure RecordDetails where
  key : BuiltinTopicKey
  expressionParameters : List String
  deriving DecidableEq

/-- `DiscoveredWriterData` and `DiscoveredReaderData`, without the guid. A writer has neither
parameters nor associated writers. -/
structure DiscoveredData (δ : Type) where
  endpoint : DiscoveredEndpoint δ
  details : RecordDetails
  associatedWriters : List GUID

/-- `details` of an endpoint means something while it has a record; `associations` are the
`remote_opendds_associations_` of local writers. -/
structure Reception (δ : Type) where
  sedp : Sedp δ
  shuttingDown : Bool
  ignoredTopics : List String
  details : Kind → GUID → RecordDetails
  bitKey : Kind → BuiltinTopicKey
  keyToId : Kind → List (BuiltinTopicKey × GUID)
  associations : GUID → List GUID

/-- `paramsChanged`. The parameters become those of `src` if they differ. -/
def paramsChanged (dest src : List String) : Bool :=
  dest.length != src.length || (dest.zip src).any fun param => param.1 != param.2

def Reception.setDetails (k : Kind) (guid : GUID) (details : RecordDetails) (s : Reception δ) :
    Reception δ :=
  { s with details := Function.update s.details k (Function.update (s.details k) guid details) }

/-- `ignoring` of the endpoint, its participant or its topic. -/
def Reception.ignoring (guid : GUID) (topicName : String) (s : Reception δ) : Bool :=
  s.sedp.ignoredGuids.contains guid || s.sedp.ignoredGuids.contains (participantOf guid) ||
    s.ignoredTopics.contains topicName

def Reception.inconsistent (data : DiscoveredData δ) (s : Reception δ) : Bool :=
  match s.sedp.topics.lookup data.endpoint.topicName with
  | some td => td.dataType != data.endpoint.typeName
  | none => false

def Reception.assignBitKey (k : Kind) (guid : GUID) (s : Reception δ) : Reception δ :=
  let key := incrementKey (s.bitKey k)
  { s.setDetails k guid { s.details k guid with key } with
    bitKey := Function.update s.bitKey k key
    keyToId := Function.update s.keyToId k (assign key guid (s.keyToId k)) }

def Reception.removeFromBit (k : Kind) (guid : GUID) (s : Reception δ) : Reception δ :=
  { s with keyToId := Function.update s.keyToId k (erase (s.details k guid).key (s.keyToId k)) }

def Reception.associate (guid : GUID) (associatedWriters : List GUID) (s : Reception δ) :
    Reception δ :=
  associatedWriters.foldl (fun s writerGuid =>
    if ((s.sedp.locals .writer).lookup writerGuid).isSome then
      { s with associations :=
          Function.update s.associations writerGuid ((s.associations writerGuid).insert guid) }
    else s) s

section

variable [DecidableEq δ] (wildMatch : List Char → List Char → Bool)
  (defaultLocators : GUID → Option (List String))

/-- A new endpoint; false if the type is not that of the topic. The record stays then. -/
def Reception.addNew (k : Kind) (guid topicId : GUID) (data : DiscoveredData δ) (s : Reception δ) :
    Bool × Reception δ :=
  let s' := { s.setDetails k guid data.details with
    sedp := s.sedp.dataReceived wildMatch defaultLocators k guid topicId data.endpoint }
  if s.inconsistent data then (false, s') else (true, s'.assignBitKey k guid)

/-- An endpoint that has a record. -/
def Reception.updateExisting (k : Kind) (guid topicId : GUID) (data : DiscoveredData δ)
    (s : Reception δ) : Reception δ :=
  let s' := { s with
    sedp := s.sedp.dataReceived wildMatch defaultLocators k guid topicId data.endpoint }
  if k = .reader ∧ paramsChanged (s.details k guid).expressionParameters
      data.details.expressionParameters then
    s'.setDetails k guid
      { s.details k guid with expressionParameters := data.details.expressionParameters }
  else s'

/-- An endpoint that is unregistered or disposed of, and has a record. -/
def Reception.removeExisting (k : Kind) (guid : GUID) (s : Reception δ) : Reception δ :=
  { s.removeFromBit k guid with sedp := s.sedp.disposeReceived k guid }

/-- The messages that end an endpoint. -/
def disposes (messageId : MessageId) : Bool :=
  messageId = .unregisterInstance || messageId = .disposeInstance ||
    messageId = .disposeUnregisterInstance

/-- `data_received`; `topicId` is what `make_topic_guid` gives if the topic is new. -/
def Reception.dataReceived (k : Kind) (guid : GUID) (messageId : MessageId) (topicId : GUID)
    (data : DiscoveredData δ) (s : Reception δ) : Reception δ :=
  if s.shuttingDown then s
  else if s.ignoring guid data.endpoint.topicName then s
  else
    let recorded := ((s.sedp.discovered k).lookup guid).isSome
    if messageId = .sampleData then
      let (goesOn, s) :=
        if recorded then
          (true, s.updateExisting wildMatch defaultLocators k guid topicId data)
        else s.addNew wildMatch defaultLocators k guid topicId data
      if goesOn ∧ k = .reader then s.associate guid data.associatedWriters else s
    else if disposes messageId then
      if recorded then s.removeExisting k guid else s
    else s

end

section

variable {s : Reception δ} {guid : GUID} {associatedWriters : List GUID}

theorem associate_eq (guid : GUID) (associatedWriters : List GUID) (s : Reception δ) :
    ∃ associations, s.associate guid associatedWriters = { s with associations } := by
  unfold Reception.associate
  induction associatedWriters generalizing s with
  | nil => exact ⟨s.associations, rfl⟩
  | cons writerGuid rest ih =>
    rw [List.foldl_cons]
    split_ifs
    · obtain ⟨associations, heq⟩ := ih _
      exact ⟨associations, heq⟩
    · exact ih s

@[simp]
theorem associate_sedp : (s.associate guid associatedWriters).sedp = s.sedp := by
  obtain ⟨associations, heq⟩ := associate_eq guid associatedWriters s
  rw [heq]

@[simp]
theorem associate_details : (s.associate guid associatedWriters).details = s.details := by
  obtain ⟨associations, heq⟩ := associate_eq guid associatedWriters s
  rw [heq]

end

section

variable {s s' : Sedp δ} {wildMatch : List Char → List Char → Bool}
  {defaultLocators : GUID → Option (List String)} {k k' : Kind} {guid g : GUID} {name : String}

def Sedp.policies (k : Kind) (guid : GUID) (s : Sedp δ) : Option (DataQos δ × GroupQos δ) :=
  ((s.discovered k).lookup guid).map fun endpoint => (endpoint.qos.data, endpoint.qos.group)

/-- Topics stay, and the records but for their transports. -/
structure Recorded (s s' : Sedp δ) : Prop where
  topics : s'.topics = s.topics
  topicNames : s'.topicNames = s.topicNames
  policies : ∀ k guid, s'.policies k guid = s.policies k guid

theorem Recorded.refl (s : Sedp δ) : Recorded s s := ⟨rfl, rfl, fun _ _ => rfl⟩

theorem Recorded.trans {s'' : Sedp δ} (h : Recorded s s') (h' : Recorded s' s'') : Recorded s s'' :=
  ⟨h'.topics.trans h.topics, h'.topicNames.trans h.topicNames,
    fun k guid => (h'.policies k guid).trans (h.policies k guid)⟩

theorem defer_recorded (guid : GUID) (s : Sedp δ) : Recorded s (s.defer guid) :=
  ⟨rfl, rfl, fun _ _ => rfl⟩

theorem editMatched_recorded (f : List GUID → List GUID) : Recorded s (s.editMatched k guid f) :=
  ⟨rfl, rfl, fun _ _ => rfl⟩

theorem policies_edit (f : DiscoveredEndpoint δ → DiscoveredEndpoint δ) :
    (s.setDiscovered k ((s.discovered k).map fun entry =>
        if entry.1 = guid then (entry.1, f entry.2) else entry)).policies k' g =
      ((s.discovered k').lookup g).map fun endpoint =>
        let found := if k' = k ∧ g = guid then f endpoint else endpoint
        (found.qos.data, found.qos.group) := by
  unfold Sedp.policies Sedp.setDiscovered
  by_cases hk : k' = k
  · subst hk
    simp only [Function.update_self, Library.AssociationList.lookup_edit, Option.map_map, true_and]
    rfl
  · simp [hk]

theorem policies_of_details {d : Details δ} (h : s.details k guid = some d)
    (hlocal : d.isLocal = false) : s.policies k guid = some (d.qos.data, d.qos.group) := by
  unfold Sedp.details at h
  unfold Sedp.policies
  cases he : (s.locals k).lookup guid with
  | some endpoint =>
    rw [he] at h
    cases h
    cases hlocal
  | none =>
    rw [he] at h
    obtain ⟨endpoint, hrecord, rfl⟩ := Option.map_eq_some_iff.mp h
    rw [hrecord]
    rfl

theorem locators_recorded {d : Details δ}
    (h : d.isLocal = false → s.policies k guid = some (d.qos.data, d.qos.group)) :
    Recorded s (s.locators defaultLocators k guid d).2 := by
  unfold Sedp.locators
  by_cases hgiven : d.isLocal ∨ d.qos.transports ≠ []
  · rw [if_pos hgiven]
    exact .refl s
  · have hlocal : d.isLocal = false := by
      cases hd : d.isLocal with
      | false => rfl
      | true => exact absurd (.inl hd) hgiven
    rw [if_neg hgiven]
    match defaultLocators (participantOf guid) with
    | none => exact defer_recorded guid s
    | some [] => exact .refl s
    | some (_ :: _) =>
      refine ⟨rfl, rfl, fun k' g => ?_⟩
      refine (policies_edit fun endpoint =>
        { endpoint with qos := { d.qos with transports := ["rtps_udp"] } }).trans ?_
      by_cases hsame : k' = k ∧ g = guid
      · -- the record has the policies that it had
        obtain ⟨rfl, rfl⟩ := hsame
        have hpolicies := h hlocal
        obtain ⟨endpoint, hrecord, -⟩ := Option.map_eq_some_iff.mp hpolicies
        rw [hpolicies, hrecord]
        simp
      · simp only [hsame, if_false]
        rfl

theorem matchPair_recorded (writer reader : GUID) :
    Recorded s (s.matchPair wildMatch defaultLocators writer reader) := by
  unfold Sedp.matchPair
  cases hw : s.details .writer writer with
  | none => exact .refl s
  | some w =>
    cases hr : s.details .reader reader with
    | none => exact .refl s
    | some r =>
      have hreader : Recorded s (s.locators defaultLocators .reader reader r).2 :=
        locators_recorded (policies_of_details hr)
      have hwriter : Recorded (s.locators defaultLocators .reader reader r).2
          ((s.locators defaultLocators .reader reader r).2.locators defaultLocators .writer writer
            w).2 := by
        refine locators_recorded fun hlocal => ?_
        rw [hreader.policies]
        exact policies_of_details hw hlocal
      rcases hfound : s.locators defaultLocators .reader reader r with ⟨rd, s₁⟩
      simp only [hfound] at hreader hwriter ⊢
      cases rd with
      | none =>
        split_ifs
        · exact .refl s
        · exact hreader
      | some r' =>
        rcases hfound' : s₁.locators defaultLocators .writer writer w with ⟨wd, s₂⟩
        simp only [hfound'] at hwriter ⊢
        have hboth := hreader.trans hwriter
        cases wd with
        | none =>
          split_ifs
          · exact .refl s
          · exact hboth
        | some w' =>
          dsimp only
          split_ifs
          · exact .refl s
          · exact hboth.trans (defer_recorded _ _)
          · exact hboth.trans (defer_recorded _ _)
          · exact hboth.trans ((editMatched_recorded _).trans (editMatched_recorded _))
          · exact hboth.trans ((editMatched_recorded _).trans (editMatched_recorded _))
          · exact hboth

theorem matchOn_recorded (guid : GUID) (name : String) (s : Sedp δ) :
    Recorded s (s.matchOn wildMatch defaultLocators guid name) := by
  unfold Sedp.matchOn
  cases s.topics.lookup name with
  | none => exact .refl s
  | some td =>
    unfold Sedp.matchEndpoints
    dsimp only
    generalize opposite guid td = guids
    induction guids generalizing s with
    | nil => exact .refl s
    | cons g guids ih =>
      refine Recorded.trans ?_ (ih _)
      cases kindOf guid with
      | reader => exact matchPair_recorded g guid
      | writer => exact matchPair_recorded guid g

end

section

variable [DecidableEq δ] {s : Sedp δ} {wildMatch : List Char → List Char → Bool}
  {defaultLocators : GUID → Option (List String)} {k : Kind} {guid topicId : GUID}
  {data record : DiscoveredEndpoint δ}

omit [DecidableEq δ] in
theorem policies_assign (k : Kind) (guid : GUID) (endpoint : DiscoveredEndpoint δ) (s : Sedp δ) :
    (s.setDiscovered k (assign guid endpoint (s.discovered k))).policies k guid =
      some (endpoint.qos.data, endpoint.qos.group) := by
  simp [Sedp.policies, Sedp.setDiscovered, lookup_assign]

theorem qosChanged_differs {dest src : EndpointQos δ} (h : (qosChanged dest src).1 = true) :
    ((qosChanged dest src).2.data, (qosChanged dest src).2.group) ≠ (dest.data, dest.group) := by
  intro heq
  obtain ⟨hdata, hgroup⟩ := Prod.mk.inj heq
  have hdeadline : src.data.deadline = dest.data.deadline := by
    simpa [qosChanged] using congrArg DataQos.deadline hdata
  have hbudget : src.data.latencyBudget = dest.data.latencyBudget := by
    simpa [qosChanged] using congrArg DataQos.latencyBudget hdata
  have hother : src.data.other = dest.data.other := by
    simpa [qosChanged] using congrArg DataQos.other hdata
  have hpartition : src.group.partition = dest.group.partition := by
    simpa [qosChanged] using congrArg GroupQos.partition hgroup
  have hgroupOther : src.group.other = dest.group.other := by
    simpa [qosChanged] using congrArg GroupQos.other hgroup
  simp [qosChanged, hdeadline, hbudget, hother, hpartition, hgroupOther] at h

section

variable (hignored : ¬ (s.ignoredGuids.contains guid = true ∨
    s.ignoredGuids.contains (participantOf guid) = true))
  (hnew : (s.discovered k).lookup guid = none)
include hignored hnew

theorem dataReceived_new_policies :
    (s.dataReceived wildMatch defaultLocators k guid topicId data).policies k guid =
      some (data.qos.data, data.qos.group) := by
  rw [← policies_assign k guid data s]
  unfold Sedp.dataReceived
  rw [if_neg hignored, hnew]
  dsimp only
  split
  · exact (matchOn_recorded ..).policies k guid
  · split_ifs
    · rfl
    · exact (matchOn_recorded ..).policies k guid

theorem dataReceived_inconsistent {td : TopicDetails}
    (htd : s.topics.lookup data.topicName = some td) (htype : td.dataType ≠ data.typeName) :
    s.dataReceived wildMatch defaultLocators k guid topicId data =
      s.setDiscovered k (assign guid data (s.discovered k)) := by
  have htd' : (s.setDiscovered k (assign guid data (s.discovered k))).topics.lookup data.topicName =
    some td := htd
  simp only [Sedp.dataReceived, if_neg hignored, hnew, htd', if_pos htype]

end

theorem dataReceived_same (hrecord : (s.discovered k).lookup guid = some record)
    (hqos : (qosChanged record.qos data.qos).1 = false) :
    s.dataReceived wildMatch defaultLocators k guid topicId data = s := by
  obtain ⟨qos, hqos⟩ : ∃ qos, qosChanged record.qos data.qos = (false, qos) := ⟨_, Prod.ext hqos rfl⟩
  unfold Sedp.dataReceived
  split_ifs
  · rfl
  · simp only [hrecord, hqos]

theorem dataReceived_update (hignored : ¬ (s.ignoredGuids.contains guid = true ∨
    s.ignoredGuids.contains (participantOf guid) = true))
    (hrecord : (s.discovered k).lookup guid = some record)
    (hqos : (qosChanged record.qos data.qos).1 = true) :
    let s' := s.dataReceived wildMatch defaultLocators k guid topicId data
    s'.topics = s.topics ∧ s'.topicNames = s.topicNames ∧ s'.policies k guid ≠ s.policies k guid := by
  have hqos' : qosChanged record.qos data.qos = (true, (qosChanged record.qos data.qos).2) :=
    Prod.ext hqos rfl
  have hedit := @policies_edit _ s k k guid guid
    fun endpoint => { endpoint with qos := (qosChanged record.qos data.qos).2 }
  unfold Sedp.dataReceived
  rw [if_neg hignored, hrecord]
  dsimp only
  rw [hqos']
  have hmatch := @matchOn_recorded _ wildMatch defaultLocators guid record.topicName
    (s.setDiscovered k ((s.discovered k).map fun entry => if entry.1 = guid then
      (entry.1, { entry.2 with qos := (qosChanged record.qos data.qos).2 }) else entry))
  refine ⟨hmatch.topics, hmatch.topicNames, ?_⟩
  rw [hmatch.policies, hedit, hrecord]
  intro heq
  simp only [Sedp.policies, hrecord, Option.map_some, and_self, if_true, Option.some.injEq] at heq
  exact qosChanged_differs hqos heq

omit [DecidableEq δ] in
theorem disposeReceived_removes (hignored : ¬ (s.ignoredGuids.contains guid = true ∨
    s.ignoredGuids.contains (participantOf guid) = true)) :
    ((s.disposeReceived k guid).discovered k).lookup guid = none := by
  unfold Sedp.disposeReceived Sedp.dropDiscovered
  rw [if_neg hignored]
  cases hrecord : (s.discovered k).lookup guid with
  | none => exact hrecord
  | some record => simp [Sedp.setDiscovered, lookup_erase_key]

omit [DecidableEq δ] in
theorem editEndpoints_off (hoff : ∀ entry ∈ s.topics, guid ∉ entry.2.endpoints) (name : String) :
    s.editEndpoints name (·.filter (· ≠ guid)) = s := by
  have hsame : (s.topics.map fun entry =>
      if entry.1 = name then
        (entry.1, { entry.2 with endpoints := entry.2.endpoints.filter (· ≠ guid) })
      else entry) = s.topics := by
    refine (List.map_congr_left fun entry hentry => ?_).trans (List.map_id s.topics)
    have hfilter : entry.2.endpoints.filter (· ≠ guid) = entry.2.endpoints := by
      apply List.filter_eq_self.mpr
      intro g hg
      exact decide_eq_true fun heq => hoff entry hentry (heq ▸ hg)
    rw [hfilter]
    exact ite_self entry
  unfold Sedp.editEndpoints
  rw [hsame]

omit [DecidableEq δ] in
theorem disposeReceived_topics (hoff : ∀ entry ∈ s.topics, guid ∉ entry.2.endpoints) :
    (s.disposeReceived k guid).topics = s.topics ∧
      (s.disposeReceived k guid).topicNames = s.topicNames := by
  unfold Sedp.disposeReceived Sedp.dropDiscovered
  split_ifs
  · exact ⟨rfl, rfl⟩
  · cases hrecord : (s.discovered k).lookup guid with
    | none => exact ⟨rfl, rfl⟩
    | some record =>
      dsimp only
      rw [editEndpoints_off hoff]
      have hkept := (unmatchOn_drops guid record.topicName s).1
      exact ⟨hkept.topics, hkept.topicNames⟩

end

section

variable [DecidableEq δ] {s : Reception δ} {wildMatch : List Char → List Char → Bool}
  {defaultLocators : GUID → Option (List String)} {k : Kind} {guid topicId : GUID}
  {messageId : MessageId} {data : DiscoveredData δ}

theorem paramsChanged_differs {dest src : List String} (h : paramsChanged dest src = true) :
    dest ≠ src := by
  rintro rfl
  have hsame : (dest.zip dest).any (fun param => param.1 != param.2) = false := by
    clear h
    induction dest with
    | nil => rfl
    | cons param rest ih => simp [ih]
  simp [paramsChanged, hsame] at h

section

variable (hdown : s.shuttingDown ≠ true)
  (hignoring : s.ignoring guid data.endpoint.topicName ≠ true)
include hdown hignoring

theorem dataReceived_sedp :
    (s.dataReceived wildMatch defaultLocators k guid messageId topicId data).sedp =
      if messageId = .sampleData then
        s.sedp.dataReceived wildMatch defaultLocators k guid topicId data.endpoint
      else if disposes messageId then s.sedp.disposeReceived k guid
      else s.sedp := by
  unfold Reception.dataReceived
  rw [if_neg hdown, if_neg hignoring]
  by_cases hid : messageId = .sampleData
  · have hupdate : (s.updateExisting wildMatch defaultLocators k guid topicId data).sedp =
        s.sedp.dataReceived wildMatch defaultLocators k guid topicId data.endpoint := by
      unfold Reception.updateExisting
      split_ifs <;> rfl
    have hadd : (s.addNew wildMatch defaultLocators k guid topicId data).2.sedp =
        s.sedp.dataReceived wildMatch defaultLocators k guid topicId data.endpoint := by
      unfold Reception.addNew
      split_ifs <;> rfl
    simp only [if_pos hid]
    split_ifs <;> simp [hupdate, hadd]
  · simp only [if_neg hid]
    by_cases hends : disposes messageId = true
    · simp only [hends, if_true]
      cases hrecord : (s.sedp.discovered k).lookup guid with
      | none => simp [Sedp.disposeReceived, Sedp.dropDiscovered, hrecord]
      | some record => rfl
    · simp only [hends, if_false, Bool.false_eq_true]

theorem dataReceived_params (hid : messageId = .sampleData)
    (hrecord : ((s.sedp.discovered k).lookup guid).isSome) (hk : k = .reader)
    (hchanged : paramsChanged (s.details k guid).expressionParameters
      data.details.expressionParameters = true) :
    ((s.dataReceived wildMatch defaultLocators k guid messageId topicId data).details k
      guid).expressionParameters = data.details.expressionParameters := by
  subst hk hid
  unfold Reception.dataReceived
  rw [if_neg hdown, if_neg hignoring]
  simp [hrecord, hchanged, Reception.updateExisting, Reception.setDetails]

end

end

end OpenDDS.Source.EndpointDiscovery
