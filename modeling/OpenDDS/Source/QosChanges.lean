import OpenDDS.Source.QosPolicies

/-!
# Changing the QoS of an entity

`Qos_Helper::valid`, `Qos_Helper::consistent` and `Qos_Helper::changeable`
(dds/DCPS/Qos_Helper.inl) and `set_qos` of TopicImpl.cpp, DataWriterImpl.cpp and
DataReaderImpl.cpp. Whether the discovery takes the update is a parameter; the watchdog of the
deadline is given by its interval.
-/
namespace OpenDDS.Source

namespace QosHelper

def nonNegativeDuration (t : Duration_t) : Bool :=
  (t.sec == 0 && t.nanosec == 0) || validDuration t

end QosHelper

open QosHelper

section

def UserDataQosPolicy.valid (_ : UserDataQosPolicy) : Bool := true

def TopicDataQosPolicy.valid (_ : TopicDataQosPolicy) : Bool := true

def TransportPriorityQosPolicy.valid (_ : TransportPriorityQosPolicy) : Bool := true

def LifespanQosPolicy.valid (qos : LifespanQosPolicy) : Bool := validDuration qos.duration

def DurabilityQosPolicy.valid (qos : DurabilityQosPolicy) : Bool :=
  qos.kind == volatileDurabilityQos || qos.kind == transientLocalDurabilityQos ||
  qos.kind == transientDurabilityQos || qos.kind == persistentDurabilityQos

def DeadlineQosPolicy.valid (qos : DeadlineQosPolicy) : Bool := validDuration qos.period

def LatencyBudgetQosPolicy.valid (_ : LatencyBudgetQosPolicy) : Bool := true

def OwnershipQosPolicy.valid (qos : OwnershipQosPolicy) : Bool :=
  qos.kind == sharedOwnershipQos || qos.kind == exclusiveOwnershipQos

def OwnershipStrengthQosPolicy.valid (_ : OwnershipStrengthQosPolicy) : Bool := true

def LivelinessQosPolicy.valid (qos : LivelinessQosPolicy) : Bool :=
  (qos.kind == automaticLivelinessQos || qos.kind == manualByParticipantLivelinessQos ||
    qos.kind == manualByTopicLivelinessQos) && validDuration qos.leaseDuration

def TimeBasedFilterQosPolicy.valid (_ : TimeBasedFilterQosPolicy) : Bool := true

def ReliabilityQosPolicy.valid (qos : ReliabilityQosPolicy) : Bool :=
  qos.kind == bestEffortReliabilityQos || qos.kind == reliableReliabilityQos

def DestinationOrderQosPolicy.valid (qos : DestinationOrderQosPolicy) : Bool :=
  qos.kind == byReceptionTimestampDestinationorderQos ||
  qos.kind == bySourceTimestampDestinationorderQos

def HistoryQosPolicy.valid (qos : HistoryQosPolicy) : Bool :=
  (qos.kind == keepLastHistoryQos || qos.kind == keepAllHistoryQos) &&
    (qos.depth == lengthUnlimited || decide (0 < qos.depth))

def ResourceLimitsQosPolicy.valid (qos : ResourceLimitsQosPolicy) : Bool :=
  (qos.maxSamples == lengthUnlimited || decide (0 < qos.maxSamples)) &&
  (qos.maxInstances == lengthUnlimited || decide (0 < qos.maxInstances)) &&
  (qos.maxSamplesPerInstance == lengthUnlimited || decide (0 < qos.maxSamplesPerInstance))

def DurabilityServiceQosPolicy.history (qos : DurabilityServiceQosPolicy) : HistoryQosPolicy :=
  ⟨qos.historyKind, qos.historyDepth⟩

def DurabilityServiceQosPolicy.resourceLimits (qos : DurabilityServiceQosPolicy) :
    ResourceLimitsQosPolicy :=
  ⟨qos.maxSamples, qos.maxInstances, qos.maxSamplesPerInstance⟩

def DurabilityServiceQosPolicy.valid (qos : DurabilityServiceQosPolicy) : Bool :=
  nonNegativeDuration qos.serviceCleanupDelay && qos.history.valid && qos.resourceLimits.valid

def WriterDataLifecycleQosPolicy.valid (_ : WriterDataLifecycleQosPolicy) : Bool := true

def ReaderDataLifecycleQosPolicy.valid (_ : ReaderDataLifecycleQosPolicy) : Bool := true

-- The reliability of topics and writers is not looked at, that of readers is.
def TopicQos.valid (qos : TopicQos) : Bool :=
  qos.topicData.valid && qos.durability.valid && qos.durabilityService.valid &&
  qos.deadline.valid && qos.latencyBudget.valid && qos.liveliness.valid &&
  qos.destinationOrder.valid && qos.history.valid && qos.resourceLimits.valid &&
  qos.transportPriority.valid && qos.lifespan.valid && qos.ownership.valid

def DataWriterQos.valid (qos : DataWriterQos) : Bool :=
  qos.durability.valid && qos.durabilityService.valid && qos.deadline.valid &&
  qos.latencyBudget.valid && qos.liveliness.valid && qos.destinationOrder.valid &&
  qos.history.valid && qos.resourceLimits.valid && qos.transportPriority.valid &&
  qos.lifespan.valid && qos.userData.valid && qos.ownership.valid &&
  qos.ownershipStrength.valid && qos.writerDataLifecycle.valid

def DataReaderQos.valid (qos : DataReaderQos) : Bool :=
  qos.durability.valid && qos.deadline.valid && qos.latencyBudget.valid &&
  qos.liveliness.valid && qos.reliability.valid && qos.destinationOrder.valid &&
  qos.history.valid && qos.resourceLimits.valid && qos.userData.valid &&
  qos.timeBasedFilter.valid && qos.readerDataLifecycle.valid && qos.ownership.valid

end

section

def consistentLimits (resourceLimits : ResourceLimitsQosPolicy) (history : HistoryQosPolicy) : Bool :=
  resourceLimits.maxSamplesPerInstance == lengthUnlimited ||
    (decide (history.depth ≤ resourceLimits.maxSamplesPerInstance) &&
      (resourceLimits.maxSamples == lengthUnlimited ||
        decide (resourceLimits.maxSamplesPerInstance ≤ resourceLimits.maxSamples)))

def consistentDeadline (deadline : DeadlineQosPolicy) (timeBasedFilter : TimeBasedFilterQosPolicy) :
    Bool :=
  !durationLess deadline.period timeBasedFilter.minimumSeparation

def TopicQos.consistent (qos : TopicQos) : Bool :=
  consistentLimits qos.resourceLimits qos.history &&
  consistentLimits qos.durabilityService.resourceLimits qos.durabilityService.history

def DataWriterQos.consistent (qos : DataWriterQos) : Bool :=
  consistentLimits qos.resourceLimits qos.history &&
  consistentLimits qos.durabilityService.resourceLimits qos.durabilityService.history

def DataReaderQos.consistent (qos : DataReaderQos) : Bool :=
  consistentDeadline qos.deadline qos.timeBasedFilter &&
  consistentLimits qos.resourceLimits qos.history

end

section

/-- `changeable` of the policies that may be changed: user and topic data, lifespan, deadline,
latency budget, ownership strength, time based filter and the data lifecycles. -/
def changeableAlways {P : Type} (_ _ : P) : Bool := true

/-- `changeable` of the other policies. -/
def changeableNever {P : Type} [BEq P] (qos1 qos2 : P) : Bool := qos1 == qos2

def UserDataQosPolicy.changeable : UserDataQosPolicy → UserDataQosPolicy → Bool := changeableAlways

def TopicDataQosPolicy.changeable : TopicDataQosPolicy → TopicDataQosPolicy → Bool :=
  changeableAlways

def TransportPriorityQosPolicy.changeable :
    TransportPriorityQosPolicy → TransportPriorityQosPolicy → Bool :=
  changeableNever

def LifespanQosPolicy.changeable : LifespanQosPolicy → LifespanQosPolicy → Bool := changeableAlways

def DurabilityQosPolicy.changeable : DurabilityQosPolicy → DurabilityQosPolicy → Bool :=
  changeableNever

def DurabilityServiceQosPolicy.changeable :
    DurabilityServiceQosPolicy → DurabilityServiceQosPolicy → Bool :=
  changeableNever

def DeadlineQosPolicy.changeable : DeadlineQosPolicy → DeadlineQosPolicy → Bool := changeableAlways

def LatencyBudgetQosPolicy.changeable : LatencyBudgetQosPolicy → LatencyBudgetQosPolicy → Bool :=
  changeableAlways

def OwnershipQosPolicy.changeable : OwnershipQosPolicy → OwnershipQosPolicy → Bool :=
  changeableNever

def OwnershipStrengthQosPolicy.changeable :
    OwnershipStrengthQosPolicy → OwnershipStrengthQosPolicy → Bool :=
  changeableAlways

def LivelinessQosPolicy.changeable : LivelinessQosPolicy → LivelinessQosPolicy → Bool :=
  changeableNever

def TimeBasedFilterQosPolicy.changeable :
    TimeBasedFilterQosPolicy → TimeBasedFilterQosPolicy → Bool :=
  changeableAlways

def ReliabilityQosPolicy.changeable : ReliabilityQosPolicy → ReliabilityQosPolicy → Bool :=
  changeableNever

def DestinationOrderQosPolicy.changeable :
    DestinationOrderQosPolicy → DestinationOrderQosPolicy → Bool :=
  changeableNever

def HistoryQosPolicy.changeable : HistoryQosPolicy → HistoryQosPolicy → Bool := changeableNever

def ResourceLimitsQosPolicy.changeable : ResourceLimitsQosPolicy → ResourceLimitsQosPolicy → Bool :=
  changeableNever

def WriterDataLifecycleQosPolicy.changeable :
    WriterDataLifecycleQosPolicy → WriterDataLifecycleQosPolicy → Bool :=
  changeableAlways

def ReaderDataLifecycleQosPolicy.changeable :
    ReaderDataLifecycleQosPolicy → ReaderDataLifecycleQosPolicy → Bool :=
  changeableAlways

def TopicQos.changeable (qos1 qos2 : TopicQos) : Bool :=
  qos1.topicData.changeable qos2.topicData &&
  qos1.durability.changeable qos2.durability &&
  qos1.durabilityService.changeable qos2.durabilityService &&
  qos1.deadline.changeable qos2.deadline &&
  qos1.latencyBudget.changeable qos2.latencyBudget &&
  qos1.liveliness.changeable qos2.liveliness &&
  qos1.destinationOrder.changeable qos2.destinationOrder &&
  qos1.history.changeable qos2.history &&
  qos1.resourceLimits.changeable qos2.resourceLimits &&
  qos1.transportPriority.changeable qos2.transportPriority &&
  qos1.lifespan.changeable qos2.lifespan &&
  qos1.ownership.changeable qos2.ownership

def DataWriterQos.changeable (qos1 qos2 : DataWriterQos) : Bool :=
  qos1.durability.changeable qos2.durability &&
  qos1.durabilityService.changeable qos2.durabilityService &&
  qos1.deadline.changeable qos2.deadline &&
  qos1.latencyBudget.changeable qos2.latencyBudget &&
  qos1.liveliness.changeable qos2.liveliness &&
  qos1.destinationOrder.changeable qos2.destinationOrder &&
  qos1.history.changeable qos2.history &&
  qos1.resourceLimits.changeable qos2.resourceLimits &&
  qos1.transportPriority.changeable qos2.transportPriority &&
  qos1.lifespan.changeable qos2.lifespan &&
  qos1.userData.changeable qos2.userData &&
  qos1.ownership.changeable qos2.ownership &&
  qos1.ownershipStrength.changeable qos2.ownershipStrength &&
  qos1.writerDataLifecycle.changeable qos2.writerDataLifecycle

def DataReaderQos.changeable (qos1 qos2 : DataReaderQos) : Bool :=
  qos1.durability.changeable qos2.durability &&
  qos1.deadline.changeable qos2.deadline &&
  qos1.latencyBudget.changeable qos2.latencyBudget &&
  qos1.liveliness.changeable qos2.liveliness &&
  qos1.reliability.changeable qos2.reliability &&
  qos1.destinationOrder.changeable qos2.destinationOrder &&
  qos1.history.changeable qos2.history &&
  qos1.resourceLimits.changeable qos2.resourceLimits &&
  qos1.userData.changeable qos2.userData &&
  qos1.timeBasedFilter.changeable qos2.timeBasedFilter &&
  qos1.readerDataLifecycle.changeable qos2.readerDataLifecycle &&
  qos1.ownership.changeable qos2.ownership

end

section

inductive ReturnCode_t where
  | ok
  | error
  | immutablePolicy
  | inconsistentPolicy
  deriving DecidableEq

/-- A topic, a data writer or a data reader. -/
structure Entity (Q : Type) where
  qos : Q
  enabled : Bool
  /-- The interval of the watchdog, if there is one. A topic has none. -/
  watchdog : Option Duration_t

/-- The deadline timer is reset if the period has changed. -/
def resetWatchdog (watchdog : Option Duration_t) (period period' : Duration_t) : Option Duration_t :=
  if period.sec ≠ period'.sec ∨ period.nanosec ≠ period'.nanosec then
    if period = durationInfinite then some period'
    else if period' = durationInfinite then none
    else watchdog.map fun _ => period'
  else watchdog

/-- `DataReaderImpl::set_qos`. -/
def Entity.setReaderQos (e : Entity DataReaderQos) (qos : DataReaderQos) (updated : Bool) :
    ReturnCode_t × Entity DataReaderQos :=
  if qos.valid && qos.consistent then
    if e.qos.same qos then (.ok, e)
    else if !e.qos.changeable qos && e.enabled then (.immutablePolicy, e)
    else if !updated then (.error, e)
    else (.ok, { e with
      qos, watchdog := resetWatchdog e.watchdog e.qos.deadline.period qos.deadline.period })
  else (.inconsistentPolicy, e)

/-- `DataWriterImpl::set_qos`, which compares a second time. -/
def Entity.setWriterQos (e : Entity DataWriterQos) (qos : DataWriterQos) (updated : Bool) :
    ReturnCode_t × Entity DataWriterQos :=
  if qos.valid && qos.consistent then
    if e.qos.same qos then (.ok, e)
    else if !e.qos.changeable qos && e.enabled then (.immutablePolicy, e)
    else if !updated then (.error, e)
    else if !e.qos.same qos then (.ok, { e with
      qos, watchdog := resetWatchdog e.watchdog e.qos.deadline.period qos.deadline.period })
    else (.ok, e)
  else (.inconsistentPolicy, e)

/-- `TopicImpl::set_qos`, which stores the QoS before the update. -/
def Entity.setTopicQos (e : Entity TopicQos) (qos : TopicQos) (updated : Bool) :
    ReturnCode_t × Entity TopicQos :=
  if qos.valid && qos.consistent then
    if e.qos.same qos then (.ok, e)
    else if !e.qos.changeable qos && e.enabled then (.immutablePolicy, e)
    else if !updated then (.error, { e with qos })
    else (.ok, { e with qos })
  else (.inconsistentPolicy, e)

end

end OpenDDS.Source
