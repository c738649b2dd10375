import OpenDDS.Source.WriteDataContainer

/-!
# A data writer, its container and its transport

The operations of `DataWriterImpl` on its container, one at a time as the lock orders
them. `write` takes three: `obtain_buffer`, which may wait and give up the lock, then
`enqueue`, then `get_unsent_data` and the sending of what it returned; so the thread that
holds the lock has a place in this sequence. What was sent is with the transport until
`data_delivered` or `data_dropped` gives it back. While the publisher is suspended the
samples are appended to `available_data_list_` instead, a third header over the same
links, and `send_suspended_data` sends that list.
-/
namespace OpenDDS.Source

open Library.LinkedList

/-- A thread that waits in `obtain_buffer`. -/
structure Writer where
  element : Nat
  handle : Nat
  wait : Container.Wait

/-- How far the thread that holds the lock is in `write`. -/
inductive Holder where
  | idle
  | obtained (element handle : Nat)
  | enqueued
  deriving DecidableEq

structure DataWriter where
  container : Container
  waiting : List Writer
  holder : Holder
  transport : List Nat
  suspendDepthCount : Int
  available : Header Nat

inductive Operation where
  | registerInstance (given : Option Nat) (next : Nat)
  | obtainBuffer (element handle : Nat) (expired : Bool)
  | wake (element : Nat) (result : Container.WaitResult) (expired : Bool)
  | enqueue
  | sendUnsent
  | reenqueueAll (kept : Nat → Bool) (addresses : List Nat)
  | sendResend
  | dataDelivered (sample : Nat)
  | dataDropped (sample : Nat) (droppedByTransport : Bool)
  | dispose (handle : Nat)
  | unregisterAll
  | suspendPublications
  | resumePublications

/-- The operations of a writer whose publisher is never suspended. -/
def Operation.publishing : Operation → Bool
  | .suspendPublications => false
  | .resumePublications => false
  | _ => true

namespace DataWriter

/-- A writer whose publisher is not suspended, before its first operation. -/
def create : DataWriter where
  container := {
    elements := ⟨fun _ => none, fun _ => none, fun _ => none, fun _ => 0, fun _ => false⟩
    lists := fun _ => .empty
    instances := []
    shutdown := false
    allocated := []
    releases := [] }
  waiting := []
  holder := .idle
  transport := []
  suspendDepthCount := 0
  available := .empty

/-- The transport follows the links from the head of the list to the end. -/
def send (w : DataWriter) (list : Header Nat) : Option DataWriter :=
  (walk w.container.elements.nextSendSample w.container.fuel list.head).map fun samples =>
    { w with transport := w.transport ++ samples }

/-- The list is sent, or kept while the publisher is suspended. -/
def sendOrKeep (w : DataWriter) (list : Header Nat) : Option DataWriter :=
  if w.suspendDepthCount ≠ 0 then do
    let (m, available) ←
      SendStateDataSampleList.enqueueTailList w.container.elements w.available list
    some { w with container := { w.container with elements := m }, available }
  else w.send list

/-- What comes of the call of `obtain_buffer` with the given element. -/
def settle (w : DataWriter) (element handle : Nat) :
    Container.Obtained × Container → DataWriter
  | (.buffer, c) => { w with container := c, holder := .obtained element handle }
  | (.failed _, c) => { w with container := c }
  | (.waits wait, c) => { w with container := c, waiting := ⟨element, handle, wait⟩ :: w.waiting }

def findWriter (w : DataWriter) (element : Nat) : Option Writer :=
  w.waiting.find? fun t => t.element = element

def step (limits : ContainerLimits) (w : DataWriter) : Operation → Option DataWriter
  | .registerInstance given next =>
    some { w with container := (w.container.registerInstance limits given next).2 }
  | .obtainBuffer element handle expired =>
    (w.container.obtainBuffer limits element handle expired).map (w.settle element handle)
  | .wake element result expired => do
    let t ← w.findWriter element
    let obtained ← w.container.resume limits element t.handle t.wait result expired
    let w := { w with waiting := w.waiting.filter fun t => t.element ≠ element }
    some (w.settle element t.handle obtained)
  | .enqueue =>
    match w.holder with
    | .obtained element handle => do
      let c ← w.container.enqueue element handle
      some { w with container := c, holder := .enqueued }
    | _ => none
  | .sendUnsent => do
    let (list, c) ← w.container.getUnsentData
    { w with container := c, holder := .idle }.sendOrKeep list
  | .reenqueueAll kept addresses => do
    let c ← w.container.reenqueueAll kept addresses
    some { w with container := c }
  | .sendResend => do
    let (list, c) ← w.container.getResendData
    { w with container := c }.sendOrKeep list
  | .dataDelivered sample => do
    let c ← w.container.dataDelivered sample
    some { w with container := c, transport := w.transport.filter (· ≠ sample) }
  | .dataDropped sample droppedByTransport => do
    let c ← w.container.dataDropped sample droppedByTransport
    some { w with container := c, transport := w.transport.filter (· ≠ sample) }
  | .dispose handle => do
    let (_, c) ← w.container.dispose handle
    some { w with container := c }
  | .unregisterAll => do
    let c ← w.container.unregisterAll
    some { w with container := c }
  | .suspendPublications =>
    -- The count is a `CORBA::Short`.
    some { w with suspendDepthCount := (w.suspendDepthCount + 1).bmod (2 ^ 16) }
  | .resumePublications =>
    let count := (w.suspendDepthCount - 1).bmod (2 ^ 16)
    if count < 0 then some { w with suspendDepthCount := 0 }
    else if count = 0 then do
      let w ← { w with suspendDepthCount := 0 }.send w.available
      some { w with available := .empty }
    else some { w with suspendDepthCount := count }

/-- What the callers see to. The lock is free for every operation but the rest of a
`write` and the callbacks of the transport; `write` is given a registered handle; memory
is handed out once; the transport gives back what it has. -/
def Allowed (w : DataWriter) : Operation → Prop
  | .registerInstance _ _ => w.holder = .idle
  | .obtainBuffer element handle _ => w.holder = .idle ∧ element ∉ w.container.allocated ∧
      (w.container.getHandleInstance handle).isSome
  | .wake element _ _ => w.holder = .idle ∧ (w.findWriter element).isSome
  | .enqueue => w.holder ≠ .idle ∧ w.holder ≠ .enqueued
  | .sendUnsent => w.holder = .enqueued
  | .reenqueueAll _ addresses => w.holder = .idle ∧ addresses.Nodup ∧
      (∀ a ∈ addresses, a ∉ w.container.allocated) ∧
      (w.container.lists .sending).size + (w.container.lists .sent).size ≤ addresses.length
  | .sendResend => w.holder = .idle
  | .dataDelivered sample => sample ∈ w.transport
  | .dataDropped sample _ => sample ∈ w.transport
  | .dispose _ => w.holder = .idle
  | .unregisterAll => w.holder = .idle
  | .suspendPublications => w.holder = .idle
  | .resumePublications => w.holder = .idle

instance (w : DataWriter) : (op : Operation) → Decidable (w.Allowed op)
  | .registerInstance _ _ => inferInstanceAs (Decidable (w.holder = .idle))
  | .obtainBuffer element handle _ => inferInstanceAs (Decidable (w.holder = .idle ∧
      element ∉ w.container.allocated ∧ (w.container.getHandleInstance handle).isSome))
  | .wake element _ _ =>
    inferInstanceAs (Decidable (w.holder = .idle ∧ (w.findWriter element).isSome))
  | .enqueue => inferInstanceAs (Decidable (w.holder ≠ .idle ∧ w.holder ≠ .enqueued))
  | .sendUnsent => inferInstanceAs (Decidable (w.holder = .enqueued))
  | .reenqueueAll _ addresses => inferInstanceAs (Decidable (w.holder = .idle ∧ addresses.Nodup ∧
      (∀ a ∈ addresses, a ∉ w.container.allocated) ∧
      (w.container.lists .sending).size + (w.container.lists .sent).size ≤ addresses.length))
  | .sendResend => inferInstanceAs (Decidable (w.holder = .idle))
  | .dataDelivered sample => inferInstanceAs (Decidable (sample ∈ w.transport))
  | .dataDropped sample _ => inferInstanceAs (Decidable (sample ∈ w.transport))
  | .dispose _ => inferInstanceAs (Decidable (w.holder = .idle))
  | .unregisterAll => inferInstanceAs (Decidable (w.holder = .idle))
  | .suspendPublications => inferInstanceAs (Decidable (w.holder = .idle))
  | .resumePublications => inferInstanceAs (Decidable (w.holder = .idle))

/-- An operation that its callers may make, with its result. -/
def perform (limits : ContainerLimits) (w : DataWriter) (op : Operation) : Option DataWriter :=
  if w.Allowed op then w.step limits op else none

def performAll (limits : ContainerLimits) (w : DataWriter) : List Operation → Option DataWriter
  | [] => some w
  | op :: ops => (w.perform limits op).bind fun w => w.performAll limits ops

end DataWriter

end OpenDDS.Source
