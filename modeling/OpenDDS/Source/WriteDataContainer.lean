import Mathlib.Algebra.Group.Nat.Defs
import Mathlib.Algebra.Ring.Int.Defs
import OpenDDS.Source.SampleLists

/-!
# The container of a data writer

`WriteDataContainer` with its five send-state lists and the list of samples of each
instance. The writer that owns it keeps one lock, which `obtain_buffer` gives up only
while it waits: an operation here runs under the lock, and a blocked `obtain_buffer` is
cut where it waits. Allocation takes an address that is not in use; the calls of
`release_buffer` are recorded with the state they were made in.

Expiry by lifespan and the content filter of a reader are one predicate on the samples
that are kept. The deadline watchdog, the durability cache, `data_holder_` (which nothing
here reads) and the conditions that wake threads leave no trace in this state: a wait may
come back at any time.
-/
namespace OpenDDS.Source

open Library.LinkedList

inductive ReturnCode where
  | ok
  | error
  | timeout
  | outOfResources
  | preconditionNotMet
  deriving DecidableEq, Repr

/-- `unsent_data_`, `sending_data_`, `sent_data_`, `released_data_` and `resend_data_`. -/
inductive SendState where
  | unsent
  | sending
  | sent
  | released
  | resend
  deriving DecidableEq, Repr

structure PublicationInstance where
  instanceHandle : Nat
  samples : Header Nat
  waitingList : Header Nat

/-- The constants a container is built with. Zero stands for no limit. -/
structure ContainerLimits where
  depth : Nat
  maxNumInstances : Int
  maxNumSamples : Int
  shouldBlock : Bool

structure Store where
  elements : Elements
  lists : SendState → Header Nat
  instances : List PublicationInstance
  shutdown : Bool
  allocated : List Nat

structure Container extends Store where
  releases : List (Nat × Store)

namespace Container

/-- As many links can be followed before an element is met twice. -/
def fuel (c : Container) : Nat := c.allocated.length

def setList (c : Container) (m : Elements) (state : SendState) (l : Header Nat) : Container :=
  { c with elements := m, lists := Function.update c.lists state l }

def getHandleInstance (c : Container) (handle : Nat) : Option PublicationInstance :=
  c.instances.find? fun i => i.instanceHandle = handle

def setInstance (c : Container) (m : Elements) (i : PublicationInstance) : Container :=
  { c with
    elements := m
    instances := c.instances.map fun j => if j.instanceHandle = i.instanceHandle then i else j }

/-- A new element at the address `element`. -/
def allocate (c : Container) (element handle : Nat) : Container :=
  { c with
    elements := c.elements.construct element handle
    allocated := element :: c.allocated }

def releaseBuffer (c : Container) (element : Nat) : Container :=
  { c with
    allocated := c.allocated.erase element
    releases := c.releases ++ [(element, c.toStore)] }

def enqueue (c : Container) (sample handle : Nat) : Option Container := do
  let i ← c.getHandleInstance handle
  let (m, unsent) ← SendStateDataSampleList.enqueueTail c.elements (c.lists .unsent) sample
  let c := c.setList m .unsent unsent
  let (m, samples) ← InstanceDataSampleList.enqueueTail c.elements i.samples sample
  some (c.setInstance m { i with samples })

/-- `copy_and_append` from `cur` on: the copies take their addresses from `addresses`. -/
def copyAndAppend (kept : Nat → Bool) :
    Nat → Option Nat → Elements → Header Nat → List Nat → Option (Elements × Header Nat × List Nat)
  | _, none, m, list, addresses => some (m, list, addresses)
  | 0, some _, _, _, _ => none
  | fuel + 1, some cur, m, list, addresses =>
    if kept cur then
      match addresses with
      | [] => none
      | element :: addresses => do
        let (m, list) ←
          SendStateDataSampleList.enqueueTail (m.copyConstruct element cur) list element
        copyAndAppend kept fuel (m.nextSendSample cur) m list addresses
    else copyAndAppend kept fuel (m.nextSendSample cur) m list addresses

/-- One `copy_and_append` of `reenqueue_all`: the list is copied when it is not empty. -/
def copyList (c : Container) (state : SendState) (kept : Nat → Bool) (addresses : List Nat) :
    Option (Container × List Nat) :=
  if (c.lists state).size > 0 then do
    let (m, resend, rest) ←
      copyAndAppend kept c.fuel (c.lists state).head c.elements (c.lists .resend) addresses
    let copies := addresses.take (addresses.length - rest.length)
    some ({ c.setList m .resend resend with allocated := copies ++ c.allocated }, rest)
  else some (c, addresses)

def reenqueueAll (c : Container) (kept : Nat → Bool) (addresses : List Nat) : Option Container := do
  let (c, addresses) ← c.copyList .sending kept addresses
  let (c, _) ← c.copyList .sent kept addresses
  some c

/-- `register_instance` with the handle given, if any, and the writer's next handle. -/
def registerInstance (limits : ContainerLimits) (c : Container) (given : Option Nat)
    (next : Nat) : ReturnCode × Container :=
  match given with
  | none =>
    if limits.maxNumInstances > 0 ∧ limits.maxNumInstances ≤ c.instances.length then
      (.outOfResources, c)
    else if (c.getHandleInstance next).isSome then (.error, c)
    else
      let below := fun i : PublicationInstance => decide (i.instanceHandle < next)
      (.ok, { c with
        instances := c.instances.takeWhile below ++
          ⟨next, .empty, .empty⟩ :: c.instances.dropWhile below })
  | some handle => (if (c.getHandleInstance handle).isSome then .ok else .error, c)

/-- `get_unsent_data`: the moved list and the container after. -/
def getUnsentData (c : Container) : Option (Header Nat × Container) := do
  let list := c.lists .unsent
  let (m, sending) ← SendStateDataSampleList.enqueueTailList c.elements (c.lists .sending) list
  some (list, (c.setList m .sending sending).setList m .unsent .empty)

def getResendData (c : Container) : Option (Header Nat × Container) := do
  let list := c.lists .resend
  if list.size ≠ 0 then
    let (m, released) ← SendStateDataSampleList.enqueueTailList c.elements (c.lists .released) list
    some (list, (c.setList m .released released).setList m .resend .empty)
  else some (list, c.setList c.elements .resend .empty)

def wakeupBlockingWriters (c : Container) (stale : Option Nat) (handle : Nat) : Option Container :=
  match stale with
  | none => some c
  | some _ => do
    let i ← c.getHandleInstance handle
    match i.waitingList.head with
    | none => some c
    | some waiting =>
      let m := c.elements.setSpaceAvailable waiting
      let (_, m, waitingList) := InstanceDataSampleList.dequeueHead m i.waitingList
      some (c.setInstance m { i with waitingList })

def dataDelivered (c : Container) (sample : Nat) : Option Container := do
  let (dequeued, m, released) ←
    SendStateDataSampleList.dequeue c.fuel c.elements (c.lists .released) sample
  if dequeued then some ((c.setList m .released released).releaseBuffer sample)
  else
    let (found, m, sending) ←
      SendStateDataSampleList.dequeue c.fuel c.elements (c.lists .sending) sample
    let c := c.setList m .sending sending
    if found then
      let i ← c.getHandleInstance (m.handle sample)
      if i.waitingList.head ≠ none then
        let (dequeued, m, samples) ← InstanceDataSampleList.dequeue c.fuel m i.samples sample
        let c := c.setInstance m { i with samples }
        if dequeued then some (c.releaseBuffer sample) else some c
      else
        let (m, sent) ← SendStateDataSampleList.enqueueTail m (c.lists .sent) sample
        (c.setList m .sent sent).wakeupBlockingWriters (some sample) i.instanceHandle
    else some c

def dataDropped (c : Container) (sample : Nat) (droppedByTransport : Bool) : Option Container :=
  if droppedByTransport then c.dataDelivered sample
  else do
    let (found, m, sending) ←
      SendStateDataSampleList.dequeue c.fuel c.elements (c.lists .sending) sample
    let c := c.setList m .sending sending
    if found then
      let (m, unsent) ← SendStateDataSampleList.enqueueTail m (c.lists .unsent) sample
      (c.setList m .unsent unsent).wakeupBlockingWriters none (m.handle sample)
    else
      let (found, m, released) ← SendStateDataSampleList.dequeue c.fuel m (c.lists .released) sample
      let c := c.setList m .released released
      if found then
        (c.releaseBuffer sample).wakeupBlockingWriters none (m.handle sample)
      else some c

/-- The second half of `remove_oldest_sample`: the sample leaves the list it is on. -/
def removeStale (c : Container) (stale : Nat) (released : Bool) :
    Option SendState → Option (ReturnCode × Bool × Container)
  | some .sending => do
    let (result, m, sending) ←
      SendStateDataSampleList.dequeue c.fuel c.elements (c.lists .sending) stale
    let c := c.setList m .sending sending
    let (m, releasedData) ← SendStateDataSampleList.enqueueTail m (c.lists .released) stale
    some (if result then .ok else .error, false, c.setList m .released releasedData)
  | some state => do
    let (result, m, list) ← SendStateDataSampleList.dequeue c.fuel c.elements (c.lists state) stale
    some (if result then .ok else .error, true, (c.setList m state list).releaseBuffer stale)
  | none => some (.error, released, c)

/-- `remove_oldest_sample` on the samples of one instance; `released` is the caller's
flag. -/
def removeOldestSample (c : Container) (handle : Nat) (released : Bool) :
    Option (ReturnCode × Bool × Container) := do
  let i ← c.getHandleInstance handle
  match i.samples.head with
  | none => some (.error, released, c)
  | some stale =>
    let (_, m, samples) := InstanceDataSampleList.dequeueHead c.elements i.samples
    let c := c.setInstance m { i with samples }
    let containing ← SendStateDataSampleList.listContaining c.fuel c.elements stale
      [(SendState.sending, c.lists .sending), (.sent, c.lists .sent), (.unsent, c.lists .unsent)]
    c.removeStale stale released containing

def disposeSamples : Nat → Container → Nat → Option (ReturnCode × Container)
  | fuel, c, handle => do
    let i ← c.getHandleInstance handle
    if i.samples.size > 0 then
      let (ret, _, c) ← c.removeOldestSample handle false
      if ret = .ok then
        match fuel with
        | 0 => none
        | fuel + 1 => disposeSamples fuel c handle
      else some (ret, c)
    else some (.ok, c)

def dispose (c : Container) (handle : Nat) : Option (ReturnCode × Container) :=
  match c.getHandleInstance handle with
  | none => some (.preconditionNotMet, c)
  | some _ => disposeSamples c.fuel c handle

/-- The loop of `unregister_all` over the instances. -/
def unregisterInstances : List Nat → Container → Option Container
  | [], c => some c
  | handle :: rest, c => do
    let (_, c) ← c.dispose handle
    unregisterInstances rest
      { c with instances := c.instances.filter fun i => i.instanceHandle ≠ handle }

def unregisterAll (c : Container) : Option Container :=
  unregisterInstances (c.instances.map (·.instanceHandle)) { c with shutdown := true }

def numAllSamples (c : Container) : Int := (c.instances.map (·.samples.size)).sum

/-- Where a writer waits in `obtain_buffer`, with the locals it reads afterwards. -/
inductive Wait where
  | resource (ret : ReturnCode) (oldestReleased : Bool)
  | space
  deriving DecidableEq, Repr

inductive Obtained where
  | buffer
  | failed (ret : ReturnCode)
  | waits (wait : Wait)
  deriving DecidableEq, Repr

/-- How `condition_.wait` comes back. -/
inductive WaitResult where
  | signaled
  | timedOut
  | failed
  deriving DecidableEq, Repr

/-- The two loops that make room in other instances: the oldest sample of each instance
that `full` selects is removed, until one was released. -/
def removeFromOthers (full : PublicationInstance → Bool) :
    List Nat → ReturnCode → Bool → Container → Option (ReturnCode × Bool × Container)
  | [], ret, released, c => some (ret, released, c)
  | handle :: rest, ret, released, c =>
    if released then some (ret, released, c)
    else do
      let i ← c.getHandleInstance handle
      if full i then
        let (ret, released, c) ← c.removeOldestSample handle released
        removeFromOthers full rest ret released c
      else removeFromOthers full rest ret released c

def makeRoom (limits : ContainerLimits) (c : Container) : Option (ReturnCode × Container) := do
  let handles := c.instances.map (·.instanceHandle)
  let (ret, released, c) ←
    removeFromOthers (fun i => i.samples.size = limits.depth) handles .ok false c
  let (ret, _, c) ← removeFromOthers (fun i => i.samples.size > 1) handles ret released c
  some (ret, c)

/-- Leaving the wait for space without a buffer. -/
def leaveWaitingList (c : Container) (element handle : Nat) (ret : ReturnCode) :
    Option (Obtained × Container) := do
  let i ← c.getHandleInstance handle
  let (dequeued, m, waitingList) ←
    InstanceDataSampleList.dequeue c.fuel c.elements i.waitingList element
  let c := c.setInstance m { i with waitingList }
  if dequeued then some (.failed ret, c.releaseBuffer element) else some (.failed .error, c)

/-- The part of `obtain_buffer` behind the resource limits. When it need not wait and the
oldest sample is still in use, the transport is asked to drop it, which it answers with
`data_dropped`. -/
def awaitSpace (limits : ContainerLimits) (c : Container) (element handle : Nat)
    (ret : ReturnCode) (oldestReleased expired : Bool) : Option (Obtained × Container) := do
  if ret ≠ .ok then some (.failed ret, c.releaseBuffer element)
  else
    let i ← c.getHandleInstance handle
    if limits.shouldBlock ∧ (i.waitingList.head ≠ none ∨ ¬ oldestReleased) then
      let (m, waitingList) ← InstanceDataSampleList.enqueueTail c.elements i.waitingList element
      let c := c.setInstance m { i with waitingList }
      if c.shutdown ∨ expired then c.leaveWaitingList element handle .timeout
      else some (.waits .space, c)
    else some (.buffer, c)

/-- Whether all instances together may hold more samples than allowed in total. The
product is one of 32-bit numbers. -/
def oversubscribed (limits : ContainerLimits) : Bool :=
  limits.maxNumSamples < (limits.maxNumInstances * limits.depth).bmod (2 ^ 32)

/-- Other instances give up samples only where all together may have too many. -/
def removeFromAny (limits : ContainerLimits) (c : Container) : Option (ReturnCode × Container) :=
  if limits.maxNumInstances > 0 ∧ oversubscribed limits then c.makeRoom limits
  else some (.ok, c)

/-- The part of `obtain_buffer` that keeps the resource limits. -/
def awaitResources (limits : ContainerLimits) (c : Container) (element handle : Nat)
    (oldestReleased expired : Bool) : Option (Obtained × Container) :=
  if limits.maxNumSamples > 0 ∧ c.numAllSamples ≥ limits.maxNumSamples then do
    let (ret, c) ← c.removeFromAny limits
    if c.numAllSamples ≥ limits.maxNumSamples ∧
        (limits.maxNumInstances = 0 ∨ oversubscribed limits) then
      if c.shutdown ∨ expired then some (.failed .timeout, c.releaseBuffer element)
      else some (.waits (.resource ret oldestReleased), c)
    else c.awaitSpace limits element handle ret oldestReleased expired
  else c.awaitSpace limits element handle .ok oldestReleased expired

/-- The instance makes room for one sample; the flag is `oldest_released`. -/
def keepDepth (limits : ContainerLimits) (c : Container) (i : PublicationInstance) :
    Option (ReturnCode × Bool × Container) :=
  if i.samples.size > limits.depth then some (.error, true, c)
  else if i.samples.size = limits.depth then c.removeOldestSample i.instanceHandle true
  else some (.ok, true, c)

/-- `obtain_buffer` up to its first wait. The deadline of the wait has passed when it is
reached if `expired` says so. -/
def obtainBuffer (limits : ContainerLimits) (c : Container) (element handle : Nat)
    (expired : Bool) : Option (Obtained × Container) := do
  let i ← c.getHandleInstance handle
  let c := c.allocate element handle
  let (ret, oldestReleased, c) ← c.keepDepth limits i
  if ret ≠ .ok then some (.failed ret, c.releaseBuffer element)
  else c.awaitResources limits element handle oldestReleased expired

/-- `obtain_buffer` from the return of its wait on, to the next wait or its end. -/
def resume (limits : ContainerLimits) (c : Container) (element handle : Nat) (wait : Wait)
    (result : WaitResult) (expired : Bool) : Option (Obtained × Container) :=
  match wait, result with
  | .resource ret oldestReleased, .signaled =>
    if c.numAllSamples < limits.maxNumSamples ∨ c.shutdown ∨ expired then
      c.awaitSpace limits element handle ret oldestReleased expired
    else some (.waits wait, c)
  | .resource _ _, .timedOut => some (.failed .timeout, c.releaseBuffer element)
  | .resource _ _, .failed => some (.failed .error, c.releaseBuffer element)
  | .space, .signaled =>
    if c.elements.spaceAvailable element ∨ c.shutdown ∨ expired then some (.buffer, c)
    else some (.waits wait, c)
  | .space, .timedOut => c.leaveWaitingList element handle .timeout
  | .space, .failed =>
    if c.elements.spaceAvailable element then some (.buffer, c)
    else c.leaveWaitingList element handle .error

end Container

end OpenDDS.Source
