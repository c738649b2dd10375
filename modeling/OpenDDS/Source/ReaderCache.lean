import OpenDDS.Source.InstanceState
import OpenDDS.Source.ReceivedDataElementList

/-!
The sample cache of a typed data reader: `store_instance_data` (dds/idl/CPPTemplate.txt) and
the rest of `DataReaderImpl::data_received` (dds/DCPS/DataReaderImpl.cpp), behind
`writer_activity`. A key is known by its place in the order of `instance_map_`, an instance by
its handle and a sample by its address. An instance that is released is deleted, and a sample
whose last reference is dropped is freed; using either afterwards is a fault.

What is decided elsewhere comes with the message: whether the sample has expired or is
filtered, whether its writer owns the instance, what becomes of the coherent set it belongs
to, and the handles and addresses that are allocated. While `sample_lock_` is given up to tell
of an unread sample that was trimmed, the new sample may be taken, and its last reference
dropped, which is what `taken` says; otherwise listeners and other threads leave the cache
alone. Statuses, times and the ownership manager are not part of the cache.
-/
namespace OpenDDS.Source.ReaderCache
open Library.LinkedList

inductive SampleStateKind where
  | read
  | notRead
  deriving DecidableEq, Repr

structure ReceivedDataElement (δ : Type) where
  pub : Nat
  registeredData : Option δ
  sampleState : SampleStateKind
  sourceTimestamp : Int
  coherentChange : Bool
  publisherId : Nat
  disposedGenerationCount : Nat
  noWritersGenerationCount : Nat

structure SubscriptionInstance where
  instanceState : InstanceState
  rcvdSamples : Header Nat

def lengthUnlimited : Int := -1

structure Qos where
  maxSamples : Int
  maxInstances : Int
  maxSamplesPerInstance : Int
  keepAll : Bool
  historyDepth : Int
  bySourceTimestamp : Bool
  lifecycle : ReaderDataLifecycle
  exclusive : Bool
  watchdog : Bool

/-- `depth_`, as `enable` sets it. -/
def Qos.depth (qos : Qos) : Int :=
  let depth := if qos.keepAll then qos.maxSamplesPerInstance else qos.historyDepth
  if depth = lengthUnlimited then 2147483647 else depth

/-- `Qos_Helper::valid` of the RESOURCE_LIMITS and HISTORY policies. -/
structure Qos.Valid (qos : Qos) : Prop where
  maxSamples : qos.maxSamples = lengthUnlimited ∨ 0 < qos.maxSamples
  maxInstances : qos.maxInstances = lengthUnlimited ∨ 0 < qos.maxInstances
  maxSamplesPerInstance : qos.maxSamplesPerInstance = lengthUnlimited ∨
    0 < qos.maxSamplesPerInstance
  historyDepth : qos.historyDepth = lengthUnlimited ∨ 0 < qos.historyDepth

theorem Qos.Valid.depth_pos {qos : Qos} (h : qos.Valid) : 0 < qos.depth := by
  have hdepth : (if qos.keepAll then qos.maxSamplesPerInstance else qos.historyDepth) =
      lengthUnlimited ∨
      0 < if qos.keepAll then qos.maxSamplesPerInstance else qos.historyDepth := by
    split
    · exact h.maxSamplesPerInstance
    · exact h.historyDepth
  unfold Qos.depth
  by_cases hunlimited : (if qos.keepAll then qos.maxSamplesPerInstance else qos.historyDepth) =
      lengthUnlimited
  · rw [if_pos hunlimited]
    decide
  · rw [if_neg hunlimited]
    exact hdepth.resolve_left hunlimited

structure Cache (δ : Type) where
  links : SampleLinks
  element : Nat → ReceivedDataElement δ
  refCount : Nat → Nat
  instanceMap : List (Nat × Nat)
  instances : List (Nat × SubscriptionInstance)

inductive Fault where
  /-- The head of an empty list of samples is read. -/
  | emptyHead
  /-- A sample is read after it was freed. -/
  | releasedElement
  /-- An instance is used after it was deleted. -/
  | releasedInstance
  /-- The instance of a message that a limit rejected before there was one is used. -/
  | rejectedInstance
  /-- The instance of a notice for an unknown instance is used. -/
  | unknownInstance
  /-- A list is not linked as it should be. -/
  | brokenList
  /-- The data of a sample without data is read. -/
  | nullData
  deriving DecidableEq, Repr

/-- The decision on the coherent set of a message. -/
inductive Verdict where
  | pending
  | accepted
  | rejected
  deriving DecidableEq, Repr

/-- A received message, with what is decided about it elsewhere. -/
structure Message (δ : Type) where
  messageId : MessageId
  pub : Nat
  publisherId : Nat
  coherentChange : Bool
  sourceTimestamp : Int
  key : Nat
  data : δ
  expired : Bool
  contentFiltered : Bool
  filtered : Bool
  isOwner : Bool
  verdict : Verdict
  newHandle : Nat
  newElement : Nat
  secondElement : Nat

variable {δ : Type}

/-- `is_dispose_msg || is_unregister_msg`. -/
def Message.isNotice (msg : Message δ) : Bool :=
  msg.messageId = .disposeInstance || msg.messageId = .unregisterInstance

/-- What `store_instance_data` hands back: the instance, whether it is new, and whether the
sample is filtered. -/
structure Stored where
  instancePtr : Option Nat
  justRegistered : Bool
  filtered : Bool
  deriving DecidableEq, Repr

namespace Cache

variable (c : Cache δ)

def getHandleInstance (handle : Nat) : Option SubscriptionInstance := c.instances.lookup handle

/-- The use of an instance through its pointer. -/
def deref (handle : Nat) : Except Fault SubscriptionInstance :=
  match c.getHandleInstance handle with
  | some inst => .ok inst
  | none => .error .releasedInstance

def setInstance (handle : Nat) (inst : SubscriptionInstance) : Cache δ :=
  { c with instances :=
      c.instances.map fun entry => if entry.1 = handle then (handle, inst) else entry }

/-- `DataReaderImpl::release_instance` of an instance without samples. -/
def release (handle : Nat) : Cache δ :=
  { c with
    instances := c.instances.filter fun entry => entry.1 ≠ handle
    instanceMap := c.instanceMap.filter fun entry => entry.2 ≠ handle }

def decRefDataElement (item : Nat) : Cache δ :=
  { c with refCount := Function.update c.refCount item (c.refCount item - 1) }

/-- What the list of an instance tells it when samples were removed: the instance is
released, or it has the rest of the samples. -/
def removed (handle : Nat) (inst : SubscriptionInstance) (result : Bool × SampleLinks × Header Nat) :
    Bool × Cache δ :=
  if result.1 then
    let told := inst.instanceState.setEmpty true
    if told.1 then (true, { c with links := result.2.1 }.release handle)
    else (false, { c with links := result.2.1 }.setInstance handle ⟨told.2, result.2.2⟩)
  else (false, { c with links := result.2.1 }.setInstance handle ⟨inst.instanceState, result.2.2⟩)

/-- `rcvd_samples_.remove(item)` of an instance, and whether the instance is released. -/
def removeSample (handle item : Nat) : Except Fault (Bool × Cache δ) := do
  let inst ← c.deref handle
  match ReceivedDataElementList.remove c.links inst.rcvdSamples item with
  | none => .error .brokenList
  | some result => .ok (c.removed handle inst result)

/-- `rcvd_strategy_->add(ptr)` of an instance. -/
def addSample (qos : Qos) (handle ptr : Nat) : Except Fault (Cache δ) := do
  let inst ← c.deref handle
  let result :=
    if qos.bySourceTimestamp then
      SourceDataStrategy.add c.links inst.rcvdSamples (fun a => (c.element a).sourceTimestamp) ptr
    else (ReceivedDataElementList.add c.links inst.rcvdSamples ptr).map fun added => (true, added)
  match result with
  | none => .error .brokenList
  | some (atEnd, links, list) =>
    let state := if atEnd then (inst.instanceState.setEmpty false).2 else inst.instanceState
    .ok ({ c with links := links }.setInstance handle ⟨state, list⟩)

/-- What becomes of the instance of a message. -/
inductive Entry where
  | ignored
  | refused
  | entered (handle : Nat) (justRegistered : Bool)

/-- `instance_map_.insert`. -/
def insertKey (key handle : Nat) (map : List (Nat × Nat)) : List (Nat × Nat) :=
  map.takeWhile (fun entry => entry.1 < key) ++ (key, handle) ::
    map.dropWhile (fun entry => entry.1 < key)

/-- The instance of the message, which is made if there is none yet. -/
def enter (qos : Qos) (msg : Message δ) : Entry × Cache δ :=
  match c.instanceMap.lookup msg.key with
  | some handle => (.entered handle false, c)
  | none =>
    if msg.isNotice then (.ignored, c)
    else if qos.maxInstances ≠ lengthUnlimited ∧ (c.instances.length : Int) ≥ qos.maxInstances then
      (.refused, c)
    else
      (.entered msg.newHandle true,
        { c with
          instances := c.instances ++ [(msg.newHandle, ⟨.create msg.newHandle qos.exclusive, .empty⟩)]
          instanceMap := insertKey msg.key msg.newHandle c.instanceMap })

def totalSamples : Int := (c.instances.map fun entry => entry.2.rcvdSamples.size).sum

/-- `max_samples_per_instance` is checked first, `max_samples` only where it is not reached. -/
def limitReached (qos : Qos) (size : Int) : Bool :=
  if qos.maxSamplesPerInstance ≠ lengthUnlimited ∧ size ≥ qos.maxSamplesPerInstance then true
  else decide (qos.maxSamples ≠ lengthUnlimited ∧ c.totalSamples ≥ qos.maxSamples)

/-- The two limits of samples: the message is rejected, or the oldest sample that was read is
discarded. The result says whether it is rejected. -/
def makeRoom (qos : Qos) (handle : Nat) (msg : Message δ) : Except Fault (Bool × Cache δ) := do
  let inst ← c.deref handle
  if c.limitReached qos inst.rcvdSamples.size && !msg.isNotice then
    match inst.rcvdSamples.head with
    | none => .error .emptyHead
    | some head =>
      if (c.element head).sampleState = .notRead then .ok (true, c)
      else do
        let removed ← c.removeSample handle head
        .ok (false, removed.2.decRefDataElement head)
  else .ok (false, c)

/-- The instance state is told of the message; the result says whether a sample is queued. -/
def recordMessage (qos : Qos) (handle : Nat) (msg : Message δ) : Except Fault (Bool × Cache δ) := do
  let inst ← c.deref handle
  let told :=
    match msg.messageId with
    | .disposeInstance => inst.instanceState.disposeWasReceived qos.lifecycle msg.isOwner msg.pub
    | .unregisterInstance => inst.instanceState.unregisterWasReceived qos.lifecycle msg.pub
    | _ => (true, inst.instanceState.dataWasReceived msg.pub)
  .ok (told.1, c.setInstance handle { inst with instanceState := told.2 })

def newSample (state : InstanceState) (msg : Message δ) : ReceivedDataElement δ where
  pub := msg.pub
  registeredData := if msg.isNotice then none else some msg.data
  sampleState := .notRead
  sourceTimestamp := msg.sourceTimestamp
  coherentChange := msg.coherentChange
  publisherId := msg.publisherId
  disposedGenerationCount := state.disposedGenerationCount
  noWritersGenerationCount := state.noWritersGenerationCount

def allocate (ptr : Nat) (item : ReceivedDataElement δ) : Cache δ :=
  { c with
    element := Function.update c.element ptr item
    refCount := Function.update c.refCount ptr 1 }

/-- The history depth: a data sample that makes the list too long costs its head. The result
says whether the head is unread, so that its loss is told of. -/
def trim (qos : Qos) (handle : Nat) (msg : Message δ) : Except Fault (Bool × Cache δ) := do
  let inst ← c.deref handle
  if !msg.isNotice && decide (inst.rcvdSamples.size > qos.depth) then
    match inst.rcvdSamples.head with
    | none => .error .emptyHead
    | some head => do
      let removed ← c.removeSample handle head
      .ok (decide ((c.element head).sampleState = .notRead), removed.2.decRefDataElement head)
  else .ok (false, c)

/-- The end of `store_instance_data`: the sample is queued, the history is trimmed, and
`coherent_change_` of the sample is read, also where the sample was taken, and freed, while a
lost sample was told of. -/
def queueSample (qos : Qos) (handle : Nat) (msg : Message δ) (ptr : Nat) (taken : Bool := false) :
    Except Fault (Cache δ) := do
  let inst ← c.deref handle
  let added ← (c.allocate ptr (newSample inst.instanceState msg)).addSample qos handle ptr
  let trimmed ← added.trim qos handle msg
  if trimmed.2.refCount ptr = 0 ∨ (trimmed.1 && taken) = true then .error .releasedElement
  else .ok trimmed.2

/-- The part of `store_instance_data` behind the filter, for the instance of the message. -/
def storeAt (qos : Qos) (handle : Nat) (msg : Message δ) (ptr : Nat) (taken : Bool := false) :
    Except Fault (Cache δ) := do
  let room ← c.makeRoom qos handle msg
  if room.1 then .ok room.2
  else do
    let recorded ← room.2.recordMessage qos handle msg
    if recorded.1 then recorded.2.queueSample qos handle msg ptr taken else .ok recorded.2

def storeInstanceData (qos : Qos) (msg : Message δ) (ptr : Nat) (taken : Bool := false) :
    Except Fault (Stored × Cache δ) :=
  match c.enter qos msg with
  | (.ignored, c) => .ok (⟨none, false, false⟩, c)
  | (.refused, c) => .ok (⟨none, false, false⟩, c)
  | (.entered handle just, c) =>
    if msg.messageId = .instanceRegistration then do
      let inst ← c.deref handle
      .ok (⟨some handle, just, false⟩,
        c.setInstance handle { inst with instanceState := inst.instanceState.lively msg.pub })
    else if msg.messageId = .sampleData ∧ msg.filtered then .ok (⟨some handle, just, true⟩, c)
    else do
      let stored ← c.storeAt qos handle msg ptr taken
      .ok (⟨some handle, just, false⟩, stored)

def coherentFilter (writer publisher item : Nat) : Bool :=
  (c.element item).coherentChange &&
    if publisher ≠ guidUnknown then decide (publisher = (c.element item).publisherId)
    else decide (writer = (c.element item).pub)

def acceptCoherent (writer publisher : Nat) (handles : List Nat) : Except Fault (Cache δ) :=
  handles.foldlM (fun (c : Cache δ) handle => do
    let inst ← c.deref handle
    match walk c.links.nextDataSample inst.rcvdSamples.size.toNat inst.rcvdSamples.head with
    | none => .error .brokenList
    | some items => .ok { c with
        element := fun item =>
          if item ∈ items ∧ c.coherentFilter writer publisher item then
            { c.element item with coherentChange := false }
          else c.element item }) c

/-- `reject_coherent` of all instances. The loop goes on from the instance it has just dealt
with, which must not have been released. -/
def rejectCoherent (writer publisher : Nat) (handles : List Nat) : Except Fault (Cache δ) :=
  handles.foldlM (fun (c : Cache δ) handle => do
    let inst ← c.deref handle
    match ReceivedDataElementList.removeMatching c.links inst.rcvdSamples
        (c.coherentFilter writer publisher) true with
    | none => .error .brokenList
    | some result =>
      if (c.removed handle inst result).1 then .error .releasedInstance
      else .ok (c.removed handle inst result).2) c

/-- What `verify_coherent_changes_completion` does to the samples. -/
def verifyCoherent (msg : Message δ) : Except Fault (Cache δ) :=
  match msg.verdict with
  | .pending => .ok c
  | .accepted => c.acceptCoherent msg.pub msg.publisherId (c.instances.map Prod.fst)
  | .rejected => c.rejectCoherent msg.pub msg.publisherId (c.instances.map Prod.fst)

/-- A sample of a coherent set may complete it. -/
def verifySample (msg : Message δ) : Except Fault (Cache δ) :=
  if msg.coherentChange then c.verifyCoherent msg else .ok c

/-- The use of the instance by the deadline watchdog. -/
def watchSample (qos : Qos) (stored : Stored) : Except Fault Unit :=
  if qos.watchdog then
    match stored.instancePtr with
    | none => .error .rejectedInstance
    | some handle => (c.deref handle).map fun _ => ()
  else .ok ()

/-- The cancellation of the deadline timer for a notice: `cancel_timer` uses the instance that
`lookup_instance` has found, or not found. -/
def watchNotice (qos : Qos) (msg : Message δ) (last : Bool) : Except Fault Unit :=
  let found := (c.instanceMap.lookup msg.key).isSome
  if qos.watchdog ∧ (qos.exclusive = false ∨ (found ∧ (msg.isOwner ∨ last))) then
    if found then .ok () else .error .unknownInstance
  else .ok ()

def isLast (msg : Message δ) : Bool :=
  match (c.instanceMap.lookup msg.key).bind c.getHandleInstance with
  | some inst => inst.instanceState.writers = {msg.pub}
  | none => false

def livelyAll (writer : Nat) : Cache δ :=
  { c with instances := c.instances.map fun entry =>
      (entry.1, { entry.2 with instanceState := entry.2.instanceState.lively writer }) }

/-- `SAMPLE_DATA` and `INSTANCE_REGISTRATION`. -/
def sampleReceived (qos : Qos) (msg : Message δ) (taken : Bool := false) :
    Except Fault (Cache δ) :=
  if msg.expired ∨ (msg.messageId = .sampleData ∧ msg.contentFiltered) then .ok c
  else do
    let stored ← c.storeInstanceData qos msg msg.newElement taken
    if stored.1.filtered then .ok stored.2
    else do
      let verified ← stored.2.verifySample msg
      verified.watchSample qos stored.1
      .ok verified

/-- `taken` is about the sample that the message stores, `again` about the one that a message
that disposes and unregisters stores next. -/
def dataReceived (qos : Qos) (msg : Message δ) (taken again : Bool := false) :
    Except Fault (Cache δ) :=
  match msg.messageId with
  | .sampleData => c.sampleReceived qos msg taken
  | .instanceRegistration => c.sampleReceived qos msg taken
  | .endCoherentChanges => c.verifyCoherent msg
  | .datawriterLiveliness => .ok (c.livelyAll msg.pub)
  | .disposeInstance => do
    c.watchNotice qos msg false
    let stored ← c.storeInstanceData qos msg msg.newElement
    .ok stored.2
  | .unregisterInstance => do
    let stored ← c.storeInstanceData qos msg msg.newElement
    .ok stored.2
  | .disposeUnregisterInstance => do
    c.watchNotice qos msg (c.isLast msg)
    let disposed ← c.storeInstanceData qos msg msg.newElement taken
    let unregistered ← disposed.2.storeInstanceData qos msg msg.secondElement again
    .ok unregistered.2
  | _ => .ok c

end Cache

end OpenDDS.Source.ReaderCache
