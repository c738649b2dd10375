import OpenDDS.Source.ContainerLists

/-!
# Waking blocked writers

`data_delivered`, `data_dropped` and `wakeup_blocking_writers` of `WriteDataContainer` with
`waiting_on_release_` and the broadcast of `condition_`, which the container without them leaves
out: `dataDelivered_container` and `dataDropped_container` say that nothing else is different.
`stale` is the pointer that the callers pass, as they left it.
-/
namespace OpenDDS.Source

structure BlockingContainer where
  container : Container
  waitingOnRelease : Bool

namespace BlockingContainer

def set (b : BlockingContainer) (c : Container) : BlockingContainer := { b with container := c }

/-- `wakeup_blocking_writers`, and whether it broadcasts. -/
def wakeupBlockingWriters (b : BlockingContainer) (stale : Option Nat) (handle : Nat) :
    Option (BlockingContainer × Bool) :=
  match stale with
  | none => some (b, false)
  | some _ => do
    let i ← b.container.getHandleInstance handle
    match i.waitingList.head with
    | none => some (b, false)
    | some waiting =>
      let m := b.container.elements.setSpaceAvailable waiting
      let (_, m, waitingList) := InstanceDataSampleList.dequeueHead m i.waitingList
      let c := b.container.setInstance m { i with waitingList }
      some (⟨c, false⟩, b.waitingOnRelease)

def dataDelivered (b : BlockingContainer) (sample : Nat) : Option (BlockingContainer × Bool) := do
  let c := b.container
  let handle := c.elements.handle sample
  let (dequeued, m, released) ←
    SendStateDataSampleList.dequeue c.fuel c.elements (c.lists .released) sample
  if dequeued then
    let c := (c.setList m .released released).releaseBuffer sample
    (b.set c).wakeupBlockingWriters none handle
  else
    let (found, m, sending) ←
      SendStateDataSampleList.dequeue c.fuel c.elements (c.lists .sending) sample
    let c := c.setList m .sending sending
    if found then
      let i ← c.getHandleInstance (m.handle sample)
      if i.waitingList.head ≠ none then
        let (dequeued, m, samples) ← InstanceDataSampleList.dequeue c.fuel m i.samples sample
        let c := c.setInstance m { i with samples }
        if dequeued then
          (b.set (c.releaseBuffer sample)).wakeupBlockingWriters none handle
        else some (b.set c, false)
      else
        let (m, sent) ← SendStateDataSampleList.enqueueTail m (c.lists .sent) sample
        (b.set (c.setList m .sent sent)).wakeupBlockingWriters (some sample) i.instanceHandle
    else some (b.set c, false)

def dataDropped (b : BlockingContainer) (sample : Nat) (droppedByTransport : Bool) :
    Option (BlockingContainer × Bool) :=
  if droppedByTransport then b.dataDelivered sample
  else do
    let c := b.container
    let handle := c.elements.handle sample
    let (found, m, sending) ←
      SendStateDataSampleList.dequeue c.fuel c.elements (c.lists .sending) sample
    let c := c.setList m .sending sending
    if found then
      let (m, unsent) ← SendStateDataSampleList.enqueueTail m (c.lists .unsent) sample
      (b.set (c.setList m .unsent unsent)).wakeupBlockingWriters none handle
    else
      let (found, m, released) ← SendStateDataSampleList.dequeue c.fuel m (c.lists .released) sample
      let c := c.setList m .released released
      if found then
        (b.set (c.releaseBuffer sample)).wakeupBlockingWriters none handle
      else (b.set c).wakeupBlockingWriters none handle

variable (b : BlockingContainer) (sample : Nat)

theorem wakeupBlockingWriters_container (stale : Option Nat) (handle : Nat) :
    (b.wakeupBlockingWriters stale handle).map (·.1.container) =
      b.container.wakeupBlockingWriters stale handle := by
  cases stale with
  | none => rfl
  | some a =>
    unfold wakeupBlockingWriters Container.wakeupBlockingWriters
    cases b.container.getHandleInstance handle with
    | none => rfl
    | some i => cases hhead : i.waitingList.head <;> simp [hhead]

theorem map_bind_congr {α β γ : Type} {x : Option α} {f : α → Option β} {g : α → Option γ}
    {container : β → γ} (h : ∀ a, (f a).map container = g a) :
    (x >>= f).map container = x >>= g := by
  cases x with
  | none => rfl
  | some a => exact h a

/-- Without the flag and the broadcast, the container does what it does here. -/
theorem dataDelivered_container :
    (b.dataDelivered sample).map (·.1.container) = b.container.dataDelivered sample := by
  unfold dataDelivered Container.dataDelivered
  dsimp only
  refine map_bind_congr fun ⟨dequeued, m, released⟩ => ?_
  cases dequeued with
  | true => rfl
  | false =>
    refine map_bind_congr fun ⟨found, m, sending⟩ => ?_
    cases found with
    | false => rfl
    | true =>
      refine map_bind_congr fun i => ?_
      dsimp only
      split
      · refine map_bind_congr fun ⟨dequeued, m, samples⟩ => ?_
        cases dequeued <;> rfl
      · exact map_bind_congr fun ⟨m, sent⟩ => wakeupBlockingWriters_container _ (some sample) _

theorem dataDropped_container (droppedByTransport : Bool) :
    (b.dataDropped sample droppedByTransport).map (·.1.container) =
      b.container.dataDropped sample droppedByTransport := by
  cases droppedByTransport with
  | true => exact dataDelivered_container b sample
  | false =>
    refine map_bind_congr fun ⟨found, m, sending⟩ => ?_
    cases found with
    | true => exact map_bind_congr fun ⟨m, unsent⟩ => rfl
    | false =>
      refine map_bind_congr fun ⟨found, m, released⟩ => ?_
      cases found <;> rfl

end BlockingContainer

end OpenDDS.Source
