import OpenDDS.Source.ReaderAccess

/-!
`SubscriberImpl::get_datareaders` (dds/DCPS/SubscriberImpl.cpp) and the searches it makes in each
reader (dds/DCPS/DataReaderImpl.cpp): `have_sample_states`, `have_view_states`,
`have_instance_states` and, with ordered access to a GROUP, `get_ordered_data`. `contains_sample`
is the search of a read condition. Of `GroupRakeData` only the times of the samples and their
readers are kept, and the copy of it that each reader keeps is not.
-/
namespace OpenDDS.Source.ReaderCache
open Library.LinkedList

namespace Cache

variable {δ : Type} (c : Cache δ)

/-- The samples of an instance, from the head on. -/
def items (inst : SubscriptionInstance) : Except Fault (List Nat) :=
  match walk c.links.nextDataSample inst.rcvdSamples.size.toNat inst.rcvdSamples.head with
  | none => .error .brokenList
  | some items => .ok items

/-- A search of the instances `handles` that ends with the first that has what is searched for. -/
def anySubscription (holds : SubscriptionInstance → Except Fault Bool) : List Nat → Except Fault Bool
  | [] => .ok false
  | handle :: rest => do
    let inst ← c.deref handle
    let found ← holds inst
    if found then .ok true else anySubscription holds rest

def haveSampleStates (sampleStates : Nat) : Except Fault Bool :=
  c.anySubscription (fun inst => (c.items inst).map fun items =>
    items.any fun item => decide ((c.element item).sampleState.bits &&& sampleStates ≠ 0))
    c.handlesInOrder

def haveViewStates (viewStates : Nat) : Except Fault Bool :=
  c.anySubscription (fun inst =>
    .ok (decide (inst.instanceState.viewState.bits &&& viewStates ≠ 0))) c.handlesInOrder

def haveInstanceStates (instanceStates : Nat) : Except Fault Bool :=
  c.anySubscription (fun inst =>
    .ok (decide (inst.instanceState.instanceState.bits &&& instanceStates ≠ 0))) c.handlesInOrder

def containsSample (masks : Masks) : Except Fault Bool :=
  c.anySubscription (fun inst =>
    if masks.admitsInstance inst.instanceState then
      (c.items inst).map fun items => items.any fun item => masks.admitsSample (c.element item)
    else .ok false) c.handlesInOrder

end Cache

structure Presentation where
  group : Bool
  coherentAccess : Bool
  orderedAccess : Bool

/-- A subscriber with its readers, each of them known by its address. -/
structure Subscriber (δ : Type) where
  presentation : Presentation
  accessDepth : Nat
  datareaderSet : List (Nat × Cache δ)
  distinct : (datareaderSet.map Prod.fst).Nodup

/-- A sample of `GroupRakeData`. -/
structure GroupSample where
  sourceTimestamp : Int
  dataReader : Nat
  deriving DecidableEq, Repr

/-- `GroupRakeData::insert_sample` of a sample with data. -/
def insertGroupSample (sorted : List GroupSample) (sample : GroupSample) : List GroupSample :=
  sorted.takeWhile (fun other => !decide (sample.sourceTimestamp < other.sourceTimestamp)) ++
    sample :: sorted.dropWhile
      (fun other => !decide (sample.sourceTimestamp < other.sourceTimestamp))

namespace Cache

variable {δ : Type} (c : Cache δ)

/-- The samples of one instance that `get_ordered_data` hands over: those without data are
ignored. -/
def groupSamples (masks : Masks) (reader : Nat) (items : List Nat) : List GroupSample :=
  (items.filter fun item =>
    masks.admitsSample (c.element item) && (c.element item).registeredData.isSome).map
      fun item => ⟨(c.element item).sourceTimestamp, reader⟩

def getOrderedData (masks : Masks) (reader : Nat) (data : List GroupSample) :
    Except Fault (List GroupSample) :=
  c.handlesInOrder.foldlM (fun data handle => do
    let inst ← c.deref handle
    if masks.admitsInstance inst.instanceState then
      (c.items inst).map fun items => (c.groupSamples masks reader items).foldl insertGroupSample data
    else .ok data) data

/-- The three searches of `get_datareaders`. -/
def haveStates (masks : Masks) : Except Fault Bool := do
  let sampleStates ← c.haveSampleStates masks.sampleStates
  if sampleStates then
    let viewStates ← c.haveViewStates masks.viewStates
    if viewStates then c.haveInstanceStates masks.instanceStates else .ok false
  else .ok false

end Cache

namespace Subscriber

variable {δ : Type} (sub : Subscriber δ)

/-- Access to a coherent GROUP outside of `begin_access`. -/
def refuses : Bool :=
  sub.presentation.group && (decide (sub.accessDepth = 0) && sub.presentation.coherentAccess)

/-- The readers are listed in the order of the samples of all of them. -/
def ordered : Bool := sub.presentation.group && sub.presentation.orderedAccess

/-- The return code, and the readers if they are returned. -/
def getDatareaders (masks : Masks) : Except Fault (ReturnCode × List Nat) :=
  if sub.refuses then .ok (.preconditionNotMet, [])
  else if sub.ordered then do
    let data ← sub.datareaderSet.foldlM
      (fun data reader => reader.2.getOrderedData masks reader.1 data) []
    .ok (.ok, data.map GroupSample.dataReader)
  else do
    let readers ← sub.datareaderSet.foldlM (fun readers reader => do
      let found ← reader.2.haveStates masks
      .ok (if found then readers ++ [reader.1] else readers)) []
    .ok (.ok, readers)

end Subscriber

end OpenDDS.Source.ReaderCache
