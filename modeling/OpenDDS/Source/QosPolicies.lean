import OpenDDS.Source.QosHelper

/-!
# QoS policies

The policies of topics, data writers and data readers (dds/DdsDcpsInfrastructure.idl) with the
comparisons of dds/DCPS/Qos_Helper.inl. A kind is an enumeration of C++: 32 bits that need not be
one of its enumerators, which is what `Qos_Helper::valid` is there to check. The build is the
default one, with ownership, persistence and the other optional profiles.
-/
namespace OpenDDS.Source

abbrev PolicyKind := BitVec 32

/-- `LENGTH_UNLIMITED`. -/
def QosHelper.lengthUnlimited : Int := -1

def volatileDurabilityQos : PolicyKind := 0
def transientLocalDurabilityQos : PolicyKind := 1
def transientDurabilityQos : PolicyKind := 2
def persistentDurabilityQos : PolicyKind := 3

def sharedOwnershipQos : PolicyKind := 0
def exclusiveOwnershipQos : PolicyKind := 1

def automaticLivelinessQos : PolicyKind := 0
def manualByParticipantLivelinessQos : PolicyKind := 1
def manualByTopicLivelinessQos : PolicyKind := 2

def bestEffortReliabilityQos : PolicyKind := 0
def reliableReliabilityQos : PolicyKind := 1

def byReceptionTimestampDestinationorderQos : PolicyKind := 0
def bySourceTimestampDestinationorderQos : PolicyKind := 1

def keepLastHistoryQos : PolicyKind := 0
def keepAllHistoryQos : PolicyKind := 1

private theorem lawful_of_iff {α : Type} [BEq α] (h : ∀ qos1 qos2 : α, qos1 == qos2 ↔ qos1 = qos2) :
    LawfulBEq α where
  eq_of_beq := (h _ _).1
  rfl := (h _ _).2 rfl

structure UserDataQosPolicy where
  value : List (BitVec 8)
  deriving DecidableEq

instance : BEq UserDataQosPolicy where
  beq qos1 qos2 := qos1.value == qos2.value

instance : LawfulBEq UserDataQosPolicy := lawful_of_iff fun ⟨value1⟩ ⟨value2⟩ => by
  change value1 == value2 ↔ _
  simp

structure TopicDataQosPolicy where
  value : List (BitVec 8)
  deriving DecidableEq

instance : BEq TopicDataQosPolicy where
  beq qos1 qos2 := qos1.value == qos2.value

instance : LawfulBEq TopicDataQosPolicy := lawful_of_iff fun ⟨value1⟩ ⟨value2⟩ => by
  change value1 == value2 ↔ _
  simp

structure TransportPriorityQosPolicy where
  value : Int
  deriving DecidableEq

instance : BEq TransportPriorityQosPolicy where
  beq qos1 qos2 := qos1.value == qos2.value

instance : LawfulBEq TransportPriorityQosPolicy := lawful_of_iff fun ⟨_⟩ ⟨_⟩ => by
  simp [BEq.beq]

structure LifespanQosPolicy where
  duration : Duration_t
  deriving DecidableEq

instance : BEq LifespanQosPolicy where
  beq qos1 qos2 := qos1.duration == qos2.duration

instance : LawfulBEq LifespanQosPolicy := lawful_of_iff fun ⟨_⟩ ⟨_⟩ => by
  simp [BEq.beq]

structure DurabilityQosPolicy where
  kind : PolicyKind
  deriving DecidableEq

instance : BEq DurabilityQosPolicy where
  beq qos1 qos2 := qos1.kind == qos2.kind

instance : LawfulBEq DurabilityQosPolicy := lawful_of_iff fun ⟨_⟩ ⟨_⟩ => by
  simp [BEq.beq]

structure DurabilityServiceQosPolicy where
  serviceCleanupDelay : Duration_t
  historyKind : PolicyKind
  historyDepth : Int
  maxSamples : Int
  maxInstances : Int
  maxSamplesPerInstance : Int
  deriving DecidableEq

instance : BEq DurabilityServiceQosPolicy where
  beq qos1 qos2 :=
    qos1.serviceCleanupDelay == qos2.serviceCleanupDelay &&
    qos1.historyKind == qos2.historyKind &&
    qos1.historyDepth == qos2.historyDepth &&
    qos1.maxSamples == qos2.maxSamples &&
    qos1.maxInstances == qos2.maxInstances &&
    qos1.maxSamplesPerInstance == qos2.maxSamplesPerInstance

instance : LawfulBEq DurabilityServiceQosPolicy := lawful_of_iff fun ⟨_, _, _, _, _, _⟩ ⟨_, _, _, _, _, _⟩ => by
  simp [BEq.beq, and_assoc]

structure DeadlineQosPolicy where
  period : Duration_t
  deriving DecidableEq

instance : BEq DeadlineQosPolicy where
  beq qos1 qos2 := qos1.period == qos2.period

instance : LawfulBEq DeadlineQosPolicy := lawful_of_iff fun ⟨_⟩ ⟨_⟩ => by
  simp [BEq.beq]

structure LatencyBudgetQosPolicy where
  duration : Duration_t
  deriving DecidableEq

instance : BEq LatencyBudgetQosPolicy where
  beq qos1 qos2 := qos1.duration == qos2.duration

instance : LawfulBEq LatencyBudgetQosPolicy := lawful_of_iff fun ⟨_⟩ ⟨_⟩ => by
  simp [BEq.beq]

structure OwnershipQosPolicy where
  kind : PolicyKind
  deriving DecidableEq

instance : BEq OwnershipQosPolicy where
  beq qos1 qos2 := qos1.kind == qos2.kind

instance : LawfulBEq OwnershipQosPolicy := lawful_of_iff fun ⟨_⟩ ⟨_⟩ => by
  simp [BEq.beq]

structure OwnershipStrengthQosPolicy where
  value : Int
  deriving DecidableEq

instance : BEq OwnershipStrengthQosPolicy where
  beq qos1 qos2 := qos1.value == qos2.value

instance : LawfulBEq OwnershipStrengthQosPolicy := lawful_of_iff fun ⟨_⟩ ⟨_⟩ => by
  simp [BEq.beq]

structure LivelinessQosPolicy where
  kind : PolicyKind
  leaseDuration : Duration_t
  deriving DecidableEq

instance : BEq LivelinessQosPolicy where
  beq qos1 qos2 := qos1.kind == qos2.kind && qos1.leaseDuration == qos2.leaseDuration

instance : LawfulBEq LivelinessQosPolicy := lawful_of_iff fun ⟨_, _⟩ ⟨_, _⟩ => by
  simp [BEq.beq]

structure TimeBasedFilterQosPolicy where
  minimumSeparation : Duration_t
  deriving DecidableEq

instance : BEq TimeBasedFilterQosPolicy where
  beq qos1 qos2 := qos1.minimumSeparation == qos2.minimumSeparation

instance : LawfulBEq TimeBasedFilterQosPolicy := lawful_of_iff fun ⟨_⟩ ⟨_⟩ => by
  simp [BEq.beq]

structure ReliabilityQosPolicy where
  kind : PolicyKind
  maxBlockingTime : Duration_t
  deriving DecidableEq

instance : BEq ReliabilityQosPolicy where
  beq qos1 qos2 := qos1.kind == qos2.kind && qos1.maxBlockingTime == qos2.maxBlockingTime

instance : LawfulBEq ReliabilityQosPolicy := lawful_of_iff fun ⟨_, _⟩ ⟨_, _⟩ => by
  simp [BEq.beq]

structure DestinationOrderQosPolicy where
  kind : PolicyKind
  deriving DecidableEq

instance : BEq DestinationOrderQosPolicy where
  beq qos1 qos2 := qos1.kind == qos2.kind

instance : LawfulBEq DestinationOrderQosPolicy := lawful_of_iff fun ⟨_⟩ ⟨_⟩ => by
  simp [BEq.beq]

structure HistoryQosPolicy where
  kind : PolicyKind
  depth : Int
  deriving DecidableEq

instance : BEq HistoryQosPolicy where
  beq qos1 qos2 := qos1.kind == qos2.kind && qos1.depth == qos2.depth

instance : LawfulBEq HistoryQosPolicy := lawful_of_iff fun ⟨_, _⟩ ⟨_, _⟩ => by
  simp [BEq.beq]

structure ResourceLimitsQosPolicy where
  maxSamples : Int
  maxInstances : Int
  maxSamplesPerInstance : Int
  deriving DecidableEq

instance : BEq ResourceLimitsQosPolicy where
  beq qos1 qos2 :=
    qos1.maxSamples == qos2.maxSamples &&
    qos1.maxInstances == qos2.maxInstances &&
    qos1.maxSamplesPerInstance == qos2.maxSamplesPerInstance

instance : LawfulBEq ResourceLimitsQosPolicy := lawful_of_iff fun ⟨_, _, _⟩ ⟨_, _, _⟩ => by
  simp [BEq.beq, and_assoc]

structure WriterDataLifecycleQosPolicy where
  autodisposeUnregisteredInstances : Bool
  deriving DecidableEq

instance : BEq WriterDataLifecycleQosPolicy where
  beq qos1 qos2 := qos1.autodisposeUnregisteredInstances == qos2.autodisposeUnregisteredInstances

instance : LawfulBEq WriterDataLifecycleQosPolicy := lawful_of_iff fun ⟨_⟩ ⟨_⟩ => by
  simp [BEq.beq]

structure ReaderDataLifecycleQosPolicy where
  autopurgeNowriterSamplesDelay : Duration_t
  autopurgeDisposedSamplesDelay : Duration_t
  deriving DecidableEq

instance : BEq ReaderDataLifecycleQosPolicy where
  beq qos1 qos2 :=
    qos1.autopurgeNowriterSamplesDelay == qos2.autopurgeNowriterSamplesDelay &&
    qos1.autopurgeDisposedSamplesDelay == qos2.autopurgeDisposedSamplesDelay

instance : LawfulBEq ReaderDataLifecycleQosPolicy := lawful_of_iff fun ⟨_, _⟩ ⟨_, _⟩ => by
  simp [BEq.beq]

structure TopicQos where
  topicData : TopicDataQosPolicy
  durability : DurabilityQosPolicy
  durabilityService : DurabilityServiceQosPolicy
  deadline : DeadlineQosPolicy
  latencyBudget : LatencyBudgetQosPolicy
  liveliness : LivelinessQosPolicy
  reliability : ReliabilityQosPolicy
  destinationOrder : DestinationOrderQosPolicy
  history : HistoryQosPolicy
  resourceLimits : ResourceLimitsQosPolicy
  transportPriority : TransportPriorityQosPolicy
  lifespan : LifespanQosPolicy
  ownership : OwnershipQosPolicy
  deriving DecidableEq

structure DataWriterQos where
  durability : DurabilityQosPolicy
  durabilityService : DurabilityServiceQosPolicy
  deadline : DeadlineQosPolicy
  latencyBudget : LatencyBudgetQosPolicy
  liveliness : LivelinessQosPolicy
  reliability : ReliabilityQosPolicy
  destinationOrder : DestinationOrderQosPolicy
  history : HistoryQosPolicy
  resourceLimits : ResourceLimitsQosPolicy
  transportPriority : TransportPriorityQosPolicy
  lifespan : LifespanQosPolicy
  userData : UserDataQosPolicy
  ownership : OwnershipQosPolicy
  ownershipStrength : OwnershipStrengthQosPolicy
  writerDataLifecycle : WriterDataLifecycleQosPolicy
  deriving DecidableEq

structure DataReaderQos where
  durability : DurabilityQosPolicy
  deadline : DeadlineQosPolicy
  latencyBudget : LatencyBudgetQosPolicy
  liveliness : LivelinessQosPolicy
  reliability : ReliabilityQosPolicy
  destinationOrder : DestinationOrderQosPolicy
  history : HistoryQosPolicy
  resourceLimits : ResourceLimitsQosPolicy
  userData : UserDataQosPolicy
  ownership : OwnershipQosPolicy
  timeBasedFilter : TimeBasedFilterQosPolicy
  readerDataLifecycle : ReaderDataLifecycleQosPolicy
  deriving DecidableEq

/-- `operator==` of `TopicQos`. -/
def TopicQos.same (qos1 qos2 : TopicQos) : Bool :=
  qos1.topicData == qos2.topicData &&
  qos1.durability == qos2.durability &&
  qos1.durabilityService == qos2.durabilityService &&
  qos1.deadline == qos2.deadline &&
  qos1.latencyBudget == qos2.latencyBudget &&
  qos1.liveliness == qos2.liveliness &&
  qos1.reliability == qos2.reliability &&
  qos1.destinationOrder == qos2.destinationOrder &&
  qos1.history == qos2.history &&
  qos1.resourceLimits == qos2.resourceLimits &&
  qos1.transportPriority == qos2.transportPriority &&
  qos1.lifespan == qos2.lifespan &&
  qos1.ownership == qos2.ownership

/-- `operator==` of `DataWriterQos`. -/
def DataWriterQos.same (qos1 qos2 : DataWriterQos) : Bool :=
  qos1.durability == qos2.durability &&
  qos1.durabilityService == qos2.durabilityService &&
  qos1.deadline == qos2.deadline &&
  qos1.latencyBudget == qos2.latencyBudget &&
  qos1.liveliness == qos2.liveliness &&
  qos1.reliability == qos2.reliability &&
  qos1.destinationOrder == qos2.destinationOrder &&
  qos1.history == qos2.history &&
  qos1.resourceLimits == qos2.resourceLimits &&
  qos1.transportPriority == qos2.transportPriority &&
  qos1.lifespan == qos2.lifespan &&
  qos1.userData == qos2.userData &&
  qos1.ownership == qos2.ownership &&
  qos1.ownershipStrength == qos2.ownershipStrength &&
  qos1.writerDataLifecycle == qos2.writerDataLifecycle

/-- `operator==` of `DataReaderQos`. -/
def DataReaderQos.same (qos1 qos2 : DataReaderQos) : Bool :=
  qos1.durability == qos2.durability &&
  qos1.deadline == qos2.deadline &&
  qos1.latencyBudget == qos2.latencyBudget &&
  qos1.liveliness == qos2.liveliness &&
  qos1.reliability == qos2.reliability &&
  qos1.destinationOrder == qos2.destinationOrder &&
  qos1.history == qos2.history &&
  qos1.resourceLimits == qos2.resourceLimits &&
  qos1.userData == qos2.userData &&
  qos1.timeBasedFilter == qos2.timeBasedFilter &&
  qos1.readerDataLifecycle == qos2.readerDataLifecycle

/-! The initial values that `Service_Participant` gives to the policies and the QoS. -/

section

open QosHelper

def initialUserDataQosPolicy : UserDataQosPolicy := ⟨[]⟩

def initialTopicDataQosPolicy : TopicDataQosPolicy := ⟨[]⟩

def initialTransportPriorityQosPolicy : TransportPriorityQosPolicy := ⟨0⟩

def initialLifespanQosPolicy : LifespanQosPolicy := ⟨durationInfinite⟩

def initialDurabilityQosPolicy : DurabilityQosPolicy := ⟨volatileDurabilityQos⟩

def initialDurabilityServiceQosPolicy : DurabilityServiceQosPolicy where
  serviceCleanupDelay := ⟨0, 0⟩
  historyKind := keepLastHistoryQos
  historyDepth := 1
  maxSamples := lengthUnlimited
  maxInstances := lengthUnlimited
  maxSamplesPerInstance := lengthUnlimited

def initialDeadlineQosPolicy : DeadlineQosPolicy := ⟨durationInfinite⟩

def initialLatencyBudgetQosPolicy : LatencyBudgetQosPolicy := ⟨⟨0, 0⟩⟩

def initialOwnershipQosPolicy : OwnershipQosPolicy := ⟨sharedOwnershipQos⟩

def initialOwnershipStrengthQosPolicy : OwnershipStrengthQosPolicy := ⟨0⟩

def initialLivelinessQosPolicy : LivelinessQosPolicy := ⟨automaticLivelinessQos, durationInfinite⟩

def initialTimeBasedFilterQosPolicy : TimeBasedFilterQosPolicy := ⟨⟨0, 0⟩⟩

def initialReliabilityQosPolicy : ReliabilityQosPolicy := ⟨bestEffortReliabilityQos, durationInfinite⟩

def initialDestinationOrderQosPolicy : DestinationOrderQosPolicy :=
  ⟨byReceptionTimestampDestinationorderQos⟩

def initialHistoryQosPolicy : HistoryQosPolicy := ⟨keepLastHistoryQos, 1⟩

def initialResourceLimitsQosPolicy : ResourceLimitsQosPolicy :=
  ⟨lengthUnlimited, lengthUnlimited, lengthUnlimited⟩

def initialWriterDataLifecycleQosPolicy : WriterDataLifecycleQosPolicy := ⟨true⟩

def initialReaderDataLifecycleQosPolicy : ReaderDataLifecycleQosPolicy :=
  ⟨durationInfinite, durationInfinite⟩

def initialDataWriterQos : DataWriterQos where
  durability := initialDurabilityQosPolicy
  durabilityService := initialDurabilityServiceQosPolicy
  deadline := initialDeadlineQosPolicy
  latencyBudget := initialLatencyBudgetQosPolicy
  liveliness := initialLivelinessQosPolicy
  reliability := ⟨reliableReliabilityQos, ⟨0, 100000000⟩⟩
  destinationOrder := initialDestinationOrderQosPolicy
  history := initialHistoryQosPolicy
  resourceLimits := initialResourceLimitsQosPolicy
  transportPriority := initialTransportPriorityQosPolicy
  lifespan := initialLifespanQosPolicy
  userData := initialUserDataQosPolicy
  ownership := initialOwnershipQosPolicy
  ownershipStrength := initialOwnershipStrengthQosPolicy
  writerDataLifecycle := initialWriterDataLifecycleQosPolicy

def initialDataReaderQos : DataReaderQos where
  durability := initialDurabilityQosPolicy
  deadline := initialDeadlineQosPolicy
  latencyBudget := initialLatencyBudgetQosPolicy
  liveliness := initialLivelinessQosPolicy
  reliability := initialReliabilityQosPolicy
  destinationOrder := initialDestinationOrderQosPolicy
  history := initialHistoryQosPolicy
  resourceLimits := initialResourceLimitsQosPolicy
  userData := initialUserDataQosPolicy
  ownership := initialOwnershipQosPolicy
  timeBasedFilter := initialTimeBasedFilterQosPolicy
  readerDataLifecycle := initialReaderDataLifecycleQosPolicy

end

end OpenDDS.Source
