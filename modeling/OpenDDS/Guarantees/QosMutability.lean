import OpenDDS.Source.QosChanges

/-!
# Comparison and mutability of QoS

`operator==` compares every policy of a topic and of a data writer, and every policy of a data
reader except its ownership. `changeable` looks at every immutable policy of a data reader, and
at every one of a topic and of a data writer except its reliability. So a data reader that is
asked for another ownership only reports success and does nothing, and an enabled topic or data
writer takes another reliability.
-/
namespace OpenDDS.Guarantees.QosMutability

open Source

/-- The policies that DDS defines as immutable after enable. -/
structure Immutable where
  durability : DurabilityQosPolicy
  liveliness : LivelinessQosPolicy
  reliability : ReliabilityQosPolicy
  destinationOrder : DestinationOrderQosPolicy
  history : HistoryQosPolicy
  resourceLimits : ResourceLimitsQosPolicy
  ownership : OwnershipQosPolicy

def ofReader (qos : DataReaderQos) : Immutable where
  durability := qos.durability
  liveliness := qos.liveliness
  reliability := qos.reliability
  destinationOrder := qos.destinationOrder
  history := qos.history
  resourceLimits := qos.resourceLimits
  ownership := qos.ownership

def ofWriter (qos : DataWriterQos) : Immutable where
  durability := qos.durability
  liveliness := qos.liveliness
  reliability := qos.reliability
  destinationOrder := qos.destinationOrder
  history := qos.history
  resourceLimits := qos.resourceLimits
  ownership := qos.ownership

def ofTopic (qos : TopicQos) : Immutable where
  durability := qos.durability
  liveliness := qos.liveliness
  reliability := qos.reliability
  destinationOrder := qos.destinationOrder
  history := qos.history
  resourceLimits := qos.resourceLimits
  ownership := qos.ownership

section

variable {Q : Type}

/-- The comparison sees every policy, and what may be changed leaves the immutable ones. -/
structure Covers (same changeable : Q → Q → Bool) (immutable : Q → Immutable) (qos1 qos2 : Q) :
    Prop where
  compared : same qos1 qos2 ↔ qos1 = qos2
  kept : changeable qos1 qos2 → immutable qos1 = immutable qos2

/-- An enabled entity ignores no policy of the QoS it accepts and keeps the immutable ones. -/
def Obeys (setQos : Entity Q → Q → Bool → ReturnCode_t × Entity Q) (immutable : Q → Immutable)
    (qos1 qos2 : Q) : Prop :=
  ∀ (e : Entity Q) (updated : Bool), e.qos = qos1 → e.enabled →
    ((setQos e qos2 updated).1 = .ok → (setQos e qos2 updated).2.qos = qos2) ∧
    immutable (setQos e qos2 updated).2.qos = immutable qos1

variable {immutable : Q → Immutable} {setQos : Entity Q → Q → Bool → ReturnCode_t × Entity Q}
  {same changeable : Q → Q → Bool} {qos1 qos2 : Q}

/-- What one call of `set_qos` on an enabled entity can do. -/
inductive Outcome (same changeable : Q → Q → Bool) (e : Entity Q) (qos : Q) :
    ReturnCode_t × Entity Q → Prop where
  | same : same e.qos qos → Outcome same changeable e qos (.ok, e)
  | refused (ret : ReturnCode_t) : ret ≠ .ok → Outcome same changeable e qos (ret, e)
  | stored (ret : ReturnCode_t) (e' : Entity Q) : changeable e.qos qos → e'.qos = qos →
      Outcome same changeable e qos (ret, e')

theorem Covers.obeys (h : Covers same changeable immutable qos1 qos2)
    (houtcome : ∀ (e : Entity Q) (updated : Bool), e.enabled →
      Outcome same changeable e qos2 (setQos e qos2 updated)) :
    Obeys setQos immutable qos1 qos2 := by
  intro e updated hqos henabled
  subst hqos
  have hcall := houtcome e updated henabled
  generalize setQos e qos2 updated = r at hcall ⊢
  cases hcall with
  | same hsame => exact ⟨fun _ => h.compared.1 hsame, rfl⟩
  | refused ret hret => exact ⟨fun hok => absurd hok hret, rfl⟩
  | stored ret e' hchange hqos => exact ⟨fun _ => hqos, hqos ▸ (h.kept hchange).symm⟩

end

theorem setReaderQos_outcome (e : Entity DataReaderQos) (qos : DataReaderQos) (updated : Bool)
    (henabled : e.enabled) :
    Outcome DataReaderQos.same DataReaderQos.changeable e qos (e.setReaderQos qos updated) := by
  unfold Entity.setReaderQos
  split
  · split
    · exact .same ‹_›
    · split
      · exact .refused _ (by decide)
      · rename_i hchange
        simp only [henabled, Bool.and_true, Bool.not_eq_true', Bool.not_eq_false] at hchange
        split
        · exact .refused _ (by decide)
        · exact .stored _ _ hchange rfl
  · exact .refused _ (by decide)

theorem setWriterQos_outcome (e : Entity DataWriterQos) (qos : DataWriterQos) (updated : Bool)
    (henabled : e.enabled) :
    Outcome DataWriterQos.same DataWriterQos.changeable e qos (e.setWriterQos qos updated) := by
  unfold Entity.setWriterQos
  split
  · split
    · exact .same ‹_›
    · split
      · exact .refused _ (by decide)
      · rename_i hsame hchange
        simp only [henabled, Bool.and_true, Bool.not_eq_true', Bool.not_eq_false] at hchange
        simp only [hsame, Bool.not_false, if_true]
        split
        · exact .refused _ (by decide)
        · exact .stored _ _ hchange rfl
  · exact .refused _ (by decide)

theorem setTopicQos_outcome (e : Entity TopicQos) (qos : TopicQos) (updated : Bool)
    (henabled : e.enabled) :
    Outcome TopicQos.same TopicQos.changeable e qos (e.setTopicQos qos updated) := by
  unfold Entity.setTopicQos
  split
  · split
    · exact .same ‹_›
    · split
      · exact .refused _ (by decide)
      · rename_i hchange
        simp only [henabled, Bool.and_true, Bool.not_eq_true', Bool.not_eq_false] at hchange
        split
        · exact .stored _ _ hchange rfl
        · exact .stored _ _ hchange rfl
  · exact .refused _ (by decide)

/-- The two differ in their ownership and in nothing else. -/
def OnlyOwnership (qos1 qos2 : DataReaderQos) : Prop :=
  qos1.ownership ≠ qos2.ownership ∧ { qos1 with ownership := qos2.ownership } = qos2

theorem reader_same_iff (qos1 qos2 : DataReaderQos) :
    qos1.same qos2 ↔ { qos1 with ownership := qos2.ownership } = qos2 := by
  cases qos2
  simp [DataReaderQos.same, and_assoc]

theorem writer_same_iff (qos1 qos2 : DataWriterQos) : qos1.same qos2 ↔ qos1 = qos2 := by
  cases qos1
  cases qos2
  simp [DataWriterQos.same, and_assoc]

theorem topic_same_iff (qos1 qos2 : TopicQos) : qos1.same qos2 ↔ qos1 = qos2 := by
  cases qos1
  cases qos2
  simp [TopicQos.same, and_assoc]

attribute [simp] changeableAlways changeableNever TopicDataQosPolicy.changeable
  DurabilityQosPolicy.changeable DurabilityServiceQosPolicy.changeable DeadlineQosPolicy.changeable
  LatencyBudgetQosPolicy.changeable LivelinessQosPolicy.changeable ReliabilityQosPolicy.changeable
  DestinationOrderQosPolicy.changeable HistoryQosPolicy.changeable ResourceLimitsQosPolicy.changeable
  TransportPriorityQosPolicy.changeable LifespanQosPolicy.changeable UserDataQosPolicy.changeable
  OwnershipQosPolicy.changeable OwnershipStrengthQosPolicy.changeable
  TimeBasedFilterQosPolicy.changeable WriterDataLifecycleQosPolicy.changeable
  ReaderDataLifecycleQosPolicy.changeable

theorem reader_changeable_iff (qos1 qos2 : DataReaderQos) :
    qos1.changeable qos2 ↔ ofReader qos1 = ofReader qos2 := by
  simp [DataReaderQos.changeable, ofReader, and_assoc]

/-- The policies that `changeable` asks a topic or a data writer to keep. -/
structure Guarded where
  durability : DurabilityQosPolicy
  durabilityService : DurabilityServiceQosPolicy
  liveliness : LivelinessQosPolicy
  destinationOrder : DestinationOrderQosPolicy
  history : HistoryQosPolicy
  resourceLimits : ResourceLimitsQosPolicy
  transportPriority : TransportPriorityQosPolicy
  ownership : OwnershipQosPolicy

def guardedWriter (qos : DataWriterQos) : Guarded where
  durability := qos.durability
  durabilityService := qos.durabilityService
  liveliness := qos.liveliness
  destinationOrder := qos.destinationOrder
  history := qos.history
  resourceLimits := qos.resourceLimits
  transportPriority := qos.transportPriority
  ownership := qos.ownership

def guardedTopic (qos : TopicQos) : Guarded where
  durability := qos.durability
  durabilityService := qos.durabilityService
  liveliness := qos.liveliness
  destinationOrder := qos.destinationOrder
  history := qos.history
  resourceLimits := qos.resourceLimits
  transportPriority := qos.transportPriority
  ownership := qos.ownership

theorem writer_changeable_iff (qos1 qos2 : DataWriterQos) :
    qos1.changeable qos2 ↔ guardedWriter qos1 = guardedWriter qos2 := by
  simp [DataWriterQos.changeable, guardedWriter, and_assoc]

theorem topic_changeable_iff (qos1 qos2 : TopicQos) :
    qos1.changeable qos2 ↔ guardedTopic qos1 = guardedTopic qos2 := by
  simp [TopicQos.changeable, guardedTopic, and_assoc]

theorem reader_covers_iff (qos1 qos2 : DataReaderQos) :
    Covers DataReaderQos.same DataReaderQos.changeable ofReader qos1 qos2 ↔
      ¬ OnlyOwnership qos1 qos2 := by
  constructor
  · rintro hcovers ⟨hne, honly⟩
    exact hne (congrArg _ (hcovers.compared.1 ((reader_same_iff qos1 qos2).2 honly)))
  · intro honly
    refine ⟨?_, (reader_changeable_iff qos1 qos2).1⟩
    rw [reader_same_iff]
    constructor
    · intro hsame
      by_cases howner : qos1.ownership = qos2.ownership
      · rw [← hsame, ← howner]
      · exact absurd ⟨howner, hsame⟩ honly
    · rintro rfl
      rfl

theorem immutable_kept_iff {g1 g2 : Guarded} {r1 r2 : ReliabilityQosPolicy} :
    (g1 = g2 → Immutable.mk g1.durability g1.liveliness r1 g1.destinationOrder g1.history
      g1.resourceLimits g1.ownership = Immutable.mk g2.durability g2.liveliness r2
        g2.destinationOrder g2.history g2.resourceLimits g2.ownership) ↔ (g1 = g2 → r1 = r2) := by
  constructor
  · intro hkept hguarded
    exact congrArg Immutable.reliability (hkept hguarded)
  · rintro hreliability rfl
    rw [hreliability rfl]

theorem writer_kept_iff (qos1 qos2 : DataWriterQos) :
    (qos1.changeable qos2 → ofWriter qos1 = ofWriter qos2) ↔
      (guardedWriter qos1 = guardedWriter qos2 → qos1.reliability = qos2.reliability) := by
  rw [writer_changeable_iff]
  exact immutable_kept_iff

theorem topic_kept_iff (qos1 qos2 : TopicQos) :
    (qos1.changeable qos2 → ofTopic qos1 = ofTopic qos2) ↔
      (guardedTopic qos1 = guardedTopic qos2 → qos1.reliability = qos2.reliability) := by
  rw [topic_changeable_iff]
  exact immutable_kept_iff

/-- The comparison and the mutability cover every policy, and `set_qos` obeys them, for data
readers that do not differ in their ownership only, and for topics and data writers with the
same reliability or with another difference that `changeable` refuses. -/
theorem qos_covered_iff (reader1 reader2 : DataReaderQos) (writer1 writer2 : DataWriterQos)
    (topic1 topic2 : TopicQos) :
    (Covers DataReaderQos.same DataReaderQos.changeable ofReader reader1 reader2 ∧
      Obeys Entity.setReaderQos ofReader reader1 reader2 ↔ ¬ OnlyOwnership reader1 reader2) ∧
    (Covers DataWriterQos.same DataWriterQos.changeable ofWriter writer1 writer2 ∧
      Obeys Entity.setWriterQos ofWriter writer1 writer2 ↔
        (writer1.reliability = writer2.reliability ∨ guardedWriter writer1 ≠ guardedWriter writer2)) ∧
    (Covers TopicQos.same TopicQos.changeable ofTopic topic1 topic2 ∧
      Obeys Entity.setTopicQos ofTopic topic1 topic2 ↔
        (topic1.reliability = topic2.reliability ∨ guardedTopic topic1 ≠ guardedTopic topic2)) := by
  refine ⟨?_, ?_, ?_⟩
  · rw [← reader_covers_iff]
    exact and_iff_left_of_imp fun h =>
      h.obeys fun e updated => setReaderQos_outcome e reader2 updated
  · rw [and_iff_left_of_imp fun h : Covers DataWriterQos.same _ _ _ _ =>
      h.obeys fun e updated => setWriterQos_outcome e writer2 updated]
    rw [or_comm, ← imp_iff_not_or, ← writer_kept_iff]
    exact ⟨Covers.kept, fun hkept => ⟨writer_same_iff writer1 writer2, hkept⟩⟩
  · rw [and_iff_left_of_imp fun h : Covers TopicQos.same _ _ _ _ =>
      h.obeys fun e updated => setTopicQos_outcome e topic2 updated]
    rw [or_comm, ← imp_iff_not_or, ← topic_kept_iff]
    exact ⟨Covers.kept, fun hkept => ⟨topic_same_iff topic1 topic2, hkept⟩⟩

/-- An enabled data reader asked for exclusive ownership reports success and stays shared; an
enabled data writer asked for best effort takes it. -/
theorem qos_slips :
    let exclusive := { initialDataReaderQos with ownership := ⟨exclusiveOwnershipQos⟩ }
    let bestEffort := { initialDataWriterQos with
      reliability := ⟨bestEffortReliabilityQos, ⟨0, 100000000⟩⟩ }
    exclusive ≠ initialDataReaderQos ∧ initialDataReaderQos.same exclusive ∧
    Entity.setReaderQos ⟨initialDataReaderQos, true, none⟩ exclusive true =
      (.ok, ⟨initialDataReaderQos, true, none⟩) ∧
    ofWriter bestEffort ≠ ofWriter initialDataWriterQos ∧ initialDataWriterQos.changeable bestEffort ∧
    Entity.setWriterQos ⟨initialDataWriterQos, true, none⟩ bestEffort true =
      (.ok, ⟨bestEffort, true, none⟩) := by
  refine ⟨by decide, by decide, by rfl, fun h => ?_, by decide, by rfl⟩
  exact absurd (congrArg (fun qos => qos.reliability.kind) h) (by decide)

end OpenDDS.Guarantees.QosMutability
