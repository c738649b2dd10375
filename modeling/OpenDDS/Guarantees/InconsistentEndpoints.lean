import OpenDDS.Source.DiscoveryReception
import Mathlib.Data.List.Induction

/-!
# Endpoints with an inconsistent type

An endpoint whose topic is known with another type is ignored, `data_received` says in its log. The
topics are indeed left as they are, whatever comes from it. But its record is there before the types
are compared, and after that it is an endpoint like any other: new QoS is taken over and matched,
and its disposal removes it.
-/
namespace OpenDDS.Guarantees.InconsistentEndpoints

open Source Source.EndpointDiscovery Source.DataSampleHeader Source.QosMatching
open Source.ParticipantDiscovery
open Source.QosHelper (durationInfinite)

variable {δ : Type} [DecidableEq δ]

structure Message (δ : Type) where
  messageId : MessageId
  topicId : GUID
  data : DiscoveredData δ

/-- What was there before is there afterwards, and nothing else. -/
structure Untouched (s s' : Reception δ) : Prop where
  discovered : ∀ k guid, (s'.sedp.discovered k).lookup guid = (s.sedp.discovered k).lookup guid
  details : ∀ k guid, ((s.sedp.discovered k).lookup guid).isSome →
    s'.details k guid = s.details k guid
  topics : s'.sedp.topics = s.sedp.topics
  topicNames : s'.sedp.topicNames = s.sedp.topicNames
  keyToId : s'.keyToId = s.keyToId
  matched : ∀ k L R, s'.sedp.Matched k L R ↔ s.sedp.Matched k L R

/-- It says what is known. -/
def Repeats (k : Kind) (guid : GUID) (data : DiscoveredData δ) (s : Reception δ) : Prop :=
  ∃ record, (s.sedp.discovered k).lookup guid = some record ∧
    (qosChanged record.qos data.endpoint.qos).1 = false ∧
    (k = .reader → paramsChanged (s.details k guid).expressionParameters
      data.details.expressionParameters = false)

/-- The message is dropped, says what is known or takes away what is not there. -/
def Silent (k : Kind) (guid : GUID) (m : Message δ) (s : Reception δ) : Prop :=
  s.shuttingDown = true ∨ s.ignoring guid m.data.endpoint.topicName = true ∨
    (m.messageId = .sampleData → Repeats k guid m.data s) ∧
      (disposes m.messageId = true → (s.sedp.discovered k).lookup guid = none)

section

variable (wildMatch : List Char → List Char → Bool) (defaultLocators : GUID → Option (List String))

def step (k : Kind) (guid : GUID) (s : Reception δ) (m : Message δ) : Reception δ :=
  s.dataReceived wildMatch defaultLocators k guid m.messageId m.topicId m.data

def run (k : Kind) (guid : GUID) (s : Reception δ) (messages : List (Message δ)) : Reception δ :=
  messages.foldl (step wildMatch defaultLocators k guid) s

/-- Each message leaves everything as it was. -/
def EachUntouched (k : Kind) (guid : GUID) : Reception δ → List (Message δ) → Prop
  | _, [] => True
  | s, m :: messages => Untouched s (step wildMatch defaultLocators k guid s m) ∧
      EachUntouched k guid (step wildMatch defaultLocators k guid s m) messages

variable {wildMatch defaultLocators} {k : Kind} {guid : GUID} {s : Reception δ} {m : Message δ}

omit [DecidableEq δ] in
theorem not_ignored {topicName : String} (h : ¬ s.ignoring guid topicName = true) :
    ¬ (s.sedp.ignoredGuids.contains guid = true ∨
      s.sedp.ignoredGuids.contains (participantOf guid) = true) := by
  simp only [Reception.ignoring, Bool.or_eq_true] at h
  tauto

theorem updateExisting_repeats {topicId : GUID} {data : DiscoveredData δ}
    (h : Repeats k guid data s) :
    s.updateExisting wildMatch defaultLocators k guid topicId data = s := by
  obtain ⟨record, hrecord, hqos, hparams⟩ := h
  unfold Reception.updateExisting
  rw [dataReceived_same hrecord hqos, if_neg]
  rintro ⟨hk, hchanged⟩
  rw [hparams hk] at hchanged
  cases hchanged

/-- A silent message leaves at most new associations. -/
theorem step_silent (h : Silent k guid m s) :
    ∃ associations, step wildMatch defaultLocators k guid s m = { s with associations } := by
  have hsame : ∃ associations, s = { s with associations } := ⟨s.associations, rfl⟩
  unfold step Reception.dataReceived
  by_cases hdown : s.shuttingDown = true
  · rwa [if_pos hdown]
  rw [if_neg hdown]
  by_cases hignoring : s.ignoring guid m.data.endpoint.topicName = true
  · rwa [if_pos hignoring]
  obtain ⟨hsample, hdispose⟩ := (h.resolve_left hdown).resolve_left hignoring
  by_cases hid : m.messageId = .sampleData
  · obtain ⟨record, hrecord, -⟩ := hsample hid
    simp only [hid, if_true, hrecord, Option.isSome_some, updateExisting_repeats (hsample hid),
      true_and]
    split_ifs
    · exact associate_eq ..
    · exact hsame
  · simp only [if_neg hid]
    by_cases hends : disposes m.messageId = true
    · simpa [hends, hdispose hends] using hsame
    · simpa [hends] using hsame

theorem silent_of_untouched (h : Untouched s (step wildMatch defaultLocators k guid s m)) :
    Silent k guid m s := by
  by_cases hdown : s.shuttingDown = true
  · exact .inl hdown
  by_cases hignoring : s.ignoring guid m.data.endpoint.topicName = true
  · exact .inr (.inl hignoring)
  have hignored := not_ignored hignoring
  have hsedp : (step wildMatch defaultLocators k guid s m).sedp = _ :=
    dataReceived_sedp hdown hignoring
  have hdiscovered := h.discovered k guid
  have hpolicies : (step wildMatch defaultLocators k guid s m).sedp.policies k guid =
      s.sedp.policies k guid := congrArg (Option.map _) hdiscovered
  refine .inr (.inr ⟨fun hid => ?_, fun hends => ?_⟩)
  · rw [if_pos hid] at hsedp
    rw [hsedp] at hpolicies
    cases hrecord : (s.sedp.discovered k).lookup guid with
    | none =>
      rw [dataReceived_new_policies hignored hrecord] at hpolicies
      simp [Sedp.policies, hrecord] at hpolicies
    | some record =>
      refine ⟨record, hrecord, ?_, fun hk => ?_⟩
      · by_contra hqos
        exact (dataReceived_update hignored hrecord (Bool.eq_true_of_not_eq_false hqos)).2.2
          hpolicies
      · by_contra hchanged
        have hsome : ((s.sedp.discovered k).lookup guid).isSome := by simp [hrecord]
        have hparams := Bool.eq_true_of_not_eq_false hchanged
        have hlater : ((step wildMatch defaultLocators k guid s m).details k
            guid).expressionParameters = _ :=
          dataReceived_params hdown hignoring hid hsome hk hparams
        rw [h.details k guid hsome] at hlater
        exact paramsChanged_differs hparams hlater
  · have hid : m.messageId ≠ .sampleData := by
      rintro hid
      rw [hid] at hends
      cases hends
    rw [if_neg hid, if_pos hends] at hsedp
    rw [← hdiscovered, hsedp]
    exact disposeReceived_removes hignored

theorem step_untouched_iff :
    Untouched s (step wildMatch defaultLocators k guid s m) ↔ Silent k guid m s := by
  refine ⟨silent_of_untouched, fun h => ?_⟩
  obtain ⟨associations, heq⟩ := step_silent h
  rw [heq]
  exact ⟨fun _ _ => rfl, fun _ _ _ => rfl, rfl, rfl, rfl, fun _ _ _ => Iff.rfl⟩

end

section

variable {wildMatch : List Char → List Char → Bool} {defaultLocators : GUID → Option (List String)}
  {k : Kind} {guid : GUID} {s : Reception δ} {m : Message δ} {messages : List (Message δ)}

theorem eachUntouched_iff :
    EachUntouched wildMatch defaultLocators k guid s messages ↔
      ∀ m ∈ messages, Silent k guid m s := by
  induction messages generalizing s with
  | nil => simp [EachUntouched]
  | cons m messages ih =>
    rw [EachUntouched, step_untouched_iff, ih, List.forall_mem_cons]
    refine and_congr_right fun h => ?_
    obtain ⟨associations, heq⟩ := step_silent h
    rw [heq]
    exact Iff.rfl

/-- The endpoint is in no topic, so that no topic is of its type. -/
def Off (guid : GUID) (s : Reception δ) : Prop := ∀ entry ∈ s.sedp.topics, guid ∉ entry.2.endpoints

/-- The topic that a message names is known with another type. -/
def Foreign (m : Message δ) (s : Reception δ) : Prop :=
  m.messageId = .sampleData → s.inconsistent m.data = true

theorem step_topics (hoff : Off guid s) (hforeign : Foreign m s) :
    (step wildMatch defaultLocators k guid s m).sedp.topics = s.sedp.topics ∧
      (step wildMatch defaultLocators k guid s m).sedp.topicNames = s.sedp.topicNames := by
  unfold step
  by_cases hdropped : s.shuttingDown = true ∨ s.ignoring guid m.data.endpoint.topicName = true
  · have hsame : s.dataReceived wildMatch defaultLocators k guid m.messageId m.topicId m.data = s := by
      unfold Reception.dataReceived
      split_ifs <;> tauto
    rw [hsame]
    exact ⟨rfl, rfl⟩
  obtain ⟨hdown, hignoring⟩ := not_or.mp hdropped
  have hignored := not_ignored hignoring
  rw [dataReceived_sedp hdown hignoring]
  split_ifs with hid hends
  · cases hrecord : (s.sedp.discovered k).lookup guid with
    | none =>
      have htype := hforeign hid
      unfold Reception.inconsistent at htype
      cases htd : s.sedp.topics.lookup m.data.endpoint.topicName with
      | none => simp [htd] at htype
      | some td =>
        rw [dataReceived_inconsistent hignored hrecord htd (by simpa [htd] using htype)]
        exact ⟨rfl, rfl⟩
    | some record =>
      cases hqos : (qosChanged record.qos m.data.endpoint.qos).1 with
      | false =>
        rw [dataReceived_same hrecord hqos]
        exact ⟨rfl, rfl⟩
      | true =>
        obtain ⟨htopics, hnames, -⟩ := dataReceived_update hignored hrecord hqos
        exact ⟨htopics, hnames⟩
  · exact disposeReceived_topics hoff
  · exact ⟨rfl, rfl⟩

theorem run_topics (hoff : Off guid s) (hforeign : ∀ m ∈ messages, Foreign m s) :
    (run wildMatch defaultLocators k guid s messages).sedp.topics = s.sedp.topics ∧
      (run wildMatch defaultLocators k guid s messages).sedp.topicNames = s.sedp.topicNames := by
  induction messages using List.reverseRecOn with
  | nil => exact ⟨rfl, rfl⟩
  | append_singleton messages m ih =>
    obtain ⟨htopics, hnames⟩ := ih fun m hm => hforeign m (List.mem_append_left _ hm)
    have hoff' : Off guid (run wildMatch defaultLocators k guid s messages) := by
      unfold Off
      rwa [htopics]
    have hforeign' : Foreign m (run wildMatch defaultLocators k guid s messages) := by
      have hm := hforeign m (by simp)
      unfold Foreign Reception.inconsistent at hm ⊢
      rwa [htopics]
    obtain ⟨htopics', hnames'⟩ := step_topics hoff' hforeign'
    rw [run, List.foldl_append]
    exact ⟨htopics'.trans htopics, hnames'.trans hnames⟩

/-- The topics stay as they were, and the rest just as long as every message is silent. -/
theorem foreign_untouched_iff (hoff : Off guid s) (hforeign : ∀ m ∈ messages, Foreign m s) :
    (∀ n, (run wildMatch defaultLocators k guid s (messages.take n)).sedp.topics = s.sedp.topics ∧
      (run wildMatch defaultLocators k guid s (messages.take n)).sedp.topicNames =
        s.sedp.topicNames) ∧
    (EachUntouched wildMatch defaultLocators k guid s messages ↔
      ∀ m ∈ messages, Silent k guid m s) :=
  ⟨fun _ => run_topics hoff fun m hm => hforeign m (List.mem_of_mem_take hm), eachUntouched_iff⟩

end

section

def here : GuidPrefix := .replicate 12 0

def there : GuidPrefix := .replicate 12 1

def topicGuid : GUID := ⟨here, .replicate 3 0, 5⟩

def readerGuid : GUID := ⟨here, .replicate 3 0, 7⟩

def writerGuid : GUID := ⟨there, .replicate 3 0, 2⟩

def endpointQos (latencyBudget : Duration_t) : EndpointQos Unit where
  data := ⟨.reliable, .volatile, .automatic, durationInfinite, durationInfinite, latencyBudget,
    .shared, ()⟩
  group := ⟨.instancePresentation, false, false, [], ()⟩
  transports := ["rtps_udp"]

def squares : Reception Unit where
  sedp := {
    topics := [("Square", ⟨"Square", topicGuid, [readerGuid]⟩)]
    topicNames := [(topicGuid, "Square")]
    locals := fun k => match k with
      | .writer => []
      | .reader => [(readerGuid, ⟨topicGuid, endpointQos ⟨0, 0⟩, []⟩)]
    discovered := fun _ => []
    ignoredGuids := []
    associatedParticipants := [participantOf writerGuid]
    deferMatchEndpoints := [] }
  shuttingDown := false
  ignoredTopics := []
  details := fun _ _ => ⟨⟨0, 0, 0⟩, []⟩
  bitKey := fun _ => ⟨0, 0, 0⟩
  keyToId := fun _ => []
  associations := fun _ => []

def circles (latencyBudget : Duration_t) : Message Unit :=
  ⟨.sampleData, topicGuid, ⟨⟨"Square", "Circle", endpointQos latencyBudget⟩, ⟨⟨0, 0, 0⟩, []⟩, []⟩⟩

def received (messages : List (Message Unit)) : Reception Unit :=
  run (fun _ _ => false) (fun _ => none) .writer writerGuid squares messages

theorem circles_repeated :
    EachUntouched (fun _ _ => false) (fun _ => none) .writer writerGuid (received [circles ⟨0, 0⟩])
      [circles ⟨0, 0⟩, circles ⟨0, 0⟩] := by
  refine (foreign_untouched_iff ?_ ?_).2.mpr ?_
  · unfold Off
    decide
  · intro m hm
    obtain rfl | rfl : m = circles ⟨0, 0⟩ ∨ m = circles ⟨0, 0⟩ := by simpa using hm
    all_goals exact fun _ => by decide
  · intro m hm
    obtain rfl | rfl : m = circles ⟨0, 0⟩ ∨ m = circles ⟨0, 0⟩ := by simpa using hm
    all_goals
      exact .inr (.inr ⟨fun _ => ⟨⟨"Square", "Circle", endpointQos ⟨0, 0⟩⟩, rfl, by decide,
        by decide⟩, by decide⟩)

/-- The writer is recorded, and with a smaller latency budget it is matched with the reader. -/
theorem circles_matched :
    (∀ latencyBudget, Foreign (circles latencyBudget) squares) ∧
    ¬ EachUntouched (fun _ _ => false) (fun _ => none) .writer writerGuid squares
      [circles ⟨1, 0⟩, circles ⟨0, 0⟩] ∧
    (((received [circles ⟨1, 0⟩]).sedp.discovered .writer).lookup writerGuid).isSome ∧
    (((received [circles ⟨1, 0⟩, circles ⟨0, 0⟩]).sedp.locals .reader).lookup readerGuid).map
      LocalEndpoint.matchedEndpoints = some [writerGuid] := by
  refine ⟨fun _ _ => rfl, fun h => ?_, rfl, by decide⟩
  have hdiscovered := h.1.discovered .writer writerGuid
  cases hdiscovered

end

end OpenDDS.Guarantees.InconsistentEndpoints
