import OpenDDS.Source.QosHelper
import Mathlib.Data.List.Basic

/-!
# Compatibility of endpoints

`compatibleQOS`, `matching_partitions` and `should_check_association_upon_change`
(dds/DCPS/DCPS_Utils.cpp) with the comparisons of dds/DCPS/Qos_Helper.inl. The counts of
incompatible policies are only reported and left out. `ACE::wild_match` is a parameter.

The policies of `DataWriterQos` and of `DataReaderQos` that are compared are the same, and so are
those of `PublisherQos` and `SubscriberQos`; `other` stands for the policies of an endpoint that
may be changed and are not compared.
-/
namespace OpenDDS.Source.QosMatching

open QosHelper (durationLess)

/-- Writers and publications, readers and subscriptions. -/
inductive Kind where
  | writer
  | reader
  deriving DecidableEq

def Kind.other : Kind → Kind
  | .writer => .reader
  | .reader => .writer

@[simp] theorem Kind.other_other (k : Kind) : k.other.other = k := by
  cases k <;> rfl

theorem Kind.ne_iff {k k' : Kind} : k ≠ k' ↔ k = k'.other := by
  cases k <;> cases k' <;> decide

inductive Reliability where
  | bestEffort
  | reliable
  deriving DecidableEq

inductive Durability where
  | volatile
  | transientLocal
  | transient
  | persistent
  deriving DecidableEq

inductive Liveliness where
  | automatic
  | manualByParticipant
  | manualByTopic
  deriving DecidableEq

inductive Ownership where
  | shared
  | exclusive
  deriving DecidableEq

inductive AccessScope where
  | instancePresentation
  | topicPresentation
  | groupPresentation
  deriving DecidableEq

/-- `DataWriterQos` and `DataReaderQos`. -/
structure DataQos (δ : Type) where
  reliability : Reliability
  durability : Durability
  liveliness : Liveliness
  leaseDuration : Duration_t
  deadline : Duration_t
  latencyBudget : Duration_t
  ownership : Ownership
  other : δ
  deriving DecidableEq

/-- `PublisherQos` and `SubscriberQos`. -/
structure GroupQos (δ : Type) where
  accessScope : AccessScope
  coherentAccess : Bool
  orderedAccess : Bool
  partition : List (List Char)
  other : δ
  deriving DecidableEq

structure EndpointQos (δ : Type) where
  data : DataQos δ
  group : GroupQos δ
  transports : List String
  deriving DecidableEq

variable {δ : Type}

section

def wild : List Char := ['?', '*', '[']

/-- The loop of `is_wildcard`, with the character before the rest, if it was looked at. -/
def isWildcardFrom (last : Option Char) : List Char → Bool
  | [] => false
  | c :: rest =>
    if c ∈ wild then
      if last = some '\\' then isWildcardFrom none rest else true
    else isWildcardFrom (some c) rest

def isWildcard (str : List Char) : Bool := isWildcardFrom none str

variable (wildMatch : List Char → List Char → Bool)

/-- `PartitionName::matches`. -/
def partitionMatches (name n : List Char) : Bool :=
  if isWildcard name && isWildcard n then false
  else if isWildcard name then wildMatch n name
  else if isWildcard n then wildMatch name n
  else name == n

def matchesName (qos : List (List Char)) (name : List Char) : Bool :=
  qos.any fun qosName => partitionMatches wildMatch qosName name

def matchesDefault (qos : List (List Char)) : Bool :=
  qos.length == 0 || qos.any fun name => name == []

def matchingPartitions (pub sub : List (List Char)) : Bool :=
  if matchesDefault pub && matchesDefault sub then true
  else if matchesDefault pub && pub.length == 0 then matchesName wildMatch sub []
  else pub.any fun name => matchesName wildMatch sub name

end

def compatibleTransports (s1 s2 : List String) : Bool :=
  s1.any fun type1 => s2.any fun type2 => type1 == type2

/-- `compatibleQOS` of a `DataWriterQos` and a `DataReaderQos`. -/
def compatibleData (writerQos readerQos : DataQos δ) : Bool :=
  !decide (writerQos.reliability.ctorIdx < readerQos.reliability.ctorIdx) &&
  !decide (writerQos.durability.ctorIdx < readerQos.durability.ctorIdx) &&
  !(decide (writerQos.liveliness.ctorIdx < readerQos.liveliness.ctorIdx) ||
    durationLess readerQos.leaseDuration writerQos.leaseDuration) &&
  !durationLess readerQos.deadline writerQos.deadline &&
  !durationLess readerQos.latencyBudget writerQos.latencyBudget &&
  writerQos.ownership == readerQos.ownership

/-- `compatibleQOS` of a `PublisherQos` and a `SubscriberQos`. -/
def compatibleGroup (pubQos subQos : GroupQos δ) : Bool :=
  !(decide (pubQos.accessScope.ctorIdx < subQos.accessScope.ctorIdx) ||
    (!pubQos.coherentAccess && subQos.coherentAccess) ||
    (!pubQos.orderedAccess && subQos.orderedAccess))

/-- `compatibleQOS` of two endpoints. -/
def compatibleQOS (wildMatch : List Char → List Char → Bool) (writer reader : EndpointQos δ) : Bool :=
  compatibleTransports writer.transports reader.transports &&
  compatibleData writer.data reader.data &&
  compatibleGroup writer.group reader.group &&
  matchingPartitions wildMatch writer.group.partition reader.group.partition

/-- `compatibleQOS` of endpoints of which the first is of the kind `k`. -/
def compatible (wildMatch : List Char → List Char → Bool) : Kind → EndpointQos δ → EndpointQos δ → Bool
  | .writer, qos, qos' => compatibleQOS wildMatch qos qos'
  | .reader, qos, qos' => compatibleQOS wildMatch qos' qos

theorem compatible_other (wildMatch : List Char → List Char → Bool) (k : Kind) (qos qos' : EndpointQos δ) :
    compatible wildMatch k.other qos' qos = compatible wildMatch k qos qos' := by
  cases k <;> rfl

/-- `should_check_association_upon_change` of a `DataWriterQos` or a `DataReaderQos`. -/
def shouldCheckData (qos1 qos2 : DataQos δ) : Bool :=
  !(qos1.deadline == qos2.deadline && qos1.latencyBudget == qos2.latencyBudget)

/-- `should_check_association_upon_change` of a `PublisherQos` or a `SubscriberQos`. -/
def shouldCheckGroup (qos1 qos2 : GroupQos δ) : Bool := !(qos1.partition == qos2.partition)

/-- Only policies that `Qos_Helper::changeable` lets change are different. -/
structure Changeable (qos1 qos2 : EndpointQos δ) : Prop where
  reliability : qos1.data.reliability = qos2.data.reliability
  durability : qos1.data.durability = qos2.data.durability
  liveliness : qos1.data.liveliness = qos2.data.liveliness
  leaseDuration : qos1.data.leaseDuration = qos2.data.leaseDuration
  ownership : qos1.data.ownership = qos2.data.ownership
  accessScope : qos1.group.accessScope = qos2.group.accessScope
  coherentAccess : qos1.group.coherentAccess = qos2.group.coherentAccess
  orderedAccess : qos1.group.orderedAccess = qos2.group.orderedAccess
  transports : qos1.transports = qos2.transports

end OpenDDS.Source.QosMatching
