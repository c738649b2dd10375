import OpenDDS.Guarantees.SamplePlacement
import OpenDDS.Source.WriterWakeup

/-!
# Blocked writers are not woken

A writer that waits for space should be woken when the transport gives back a sample of its
instance and the sample is released. `wakeup_blocking_writers` does so only if `stale` is not null,
but its callers reset `stale` whenever they have released the sample, and otherwise nobody waits.
-/
namespace OpenDDS.Guarantees.BlockedWriters

open Library Library.LinkedList Source Source.DataWriter SamplePlacement BlockingContainer

inductive Callback where
  | dataDelivered
  | dataDropped (droppedByTransport : Bool)

def Callback.run : Callback → BlockingContainer → Nat → Option (BlockingContainer × Bool)
  | .dataDelivered, b, sample => b.dataDelivered sample
  | .dataDropped droppedByTransport, b, sample => b.dataDropped sample droppedByTransport

/-- `release_buffer` is called with the sample. -/
def Removes (sample : Nat) (b b' : BlockingContainer) : Prop :=
  b'.container.releases.map (·.1) = b.container.releases.map (·.1) ++ [sample]

/-- If a writer waits for space in the instance, the first one leaves the waiting list, is told that
there is space, and the condition is broadcast if some thread waits. -/
def Woken (handle : Nat) (b b' : BlockingContainer) (broadcast : Bool) : Prop :=
  ∀ i waiting, b.container.getHandleInstance handle = some i → i.waitingList.head = some waiting →
    (∃ i', b'.container.getHandleInstance handle = some i' ∧
      i'.waitingList = (InstanceDataSampleList.dequeueHead b.container.elements i.waitingList).2.2) ∧
    b'.container.elements.spaceAvailable waiting = true ∧
    (b.waitingOnRelease = true → broadcast = true)

/-- No writer waits for space in the instance. -/
def NoneWaits (handle : Nat) (b : BlockingContainer) : Prop :=
  ∀ i, b.container.getHandleInstance handle = some i → i.waitingList.head = none

def waitingList (c : Container) (handle : Nat) : Option (Header Nat) :=
  (c.getHandleInstance handle).map (·.waitingList)

variable {b b' : BlockingContainer} {c : Container} {sample handle : Nat} {broadcast : Bool}

theorem getHandleInstance_setInstance (m : Elements) (i : PublicationInstance) (n : Nat) :
    (c.setInstance m i).getHandleInstance n =
      (c.getHandleInstance n).map fun j => if j.instanceHandle = i.instanceHandle then i else j := by
  rw [Container.getHandleInstance, Container.setInstance, List.find?_map]
  congr 2
  funext j
  simp only [Function.comp_apply]
  split
  next heq => rw [heq]
  next => rfl

theorem waitingList_setSamples {i : PublicationInstance} (m : Elements) (samples : Header Nat)
    (h : c.getHandleInstance handle = some i) (n : Nat) :
    waitingList (c.setInstance m { i with samples }) n = waitingList c n := by
  have hhandle : i.instanceHandle = handle := (Container.getHandleInstance_some h).2
  rw [waitingList, waitingList, getHandleInstance_setInstance, Option.map_map]
  cases hfound : c.getHandleInstance n with
  | none => rfl
  | some j =>
    simp only [Option.map_some, Function.comp_apply]
    split
    next heq =>
      have hj : j.instanceHandle = n := (Container.getHandleInstance_some hfound).2
      have hn : n = handle := hj.symm.trans (heq.trans hhandle)
      rw [hn, h, Option.some_inj] at hfound
      rw [hfound]
    next => rfl

theorem not_removes (h : b'.container.releases = b.container.releases) : ¬ Removes sample b b' := by
  intro hremoves
  rw [Removes, h] at hremoves
  have hlength := congrArg List.length hremoves
  rw [List.length_append, List.length_singleton] at hlength
  omega

theorem wakeup_releases {stale : Option Nat}
    (h : b.wakeupBlockingWriters stale handle = some (b', broadcast)) :
    b'.container.releases = b.container.releases := by
  cases stale with
  | none =>
    cases h
    rfl
  | some a =>
    obtain ⟨i, _, h⟩ := Option.bind_eq_some_iff.mp h
    cases hhead : i.waitingList.head with
    | none =>
      rw [hhead] at h
      cases h
      rfl
    | some waiting =>
      rw [hhead] at h
      cases h
      rfl

theorem dataDelivered_keeps (h : b.dataDelivered sample = some (b', broadcast))
    (hremoves : Removes sample b b') (n : Nat) :
    waitingList b'.container n = waitingList b.container n := by
  obtain ⟨⟨dequeued, m, released⟩, _, h⟩ := Option.bind_eq_some_iff.mp h
  cases dequeued with
  | true =>
    cases h
    rfl
  | false =>
    obtain ⟨⟨found, m, sending⟩, _, h⟩ := Option.bind_eq_some_iff.mp h
    cases found with
    | false =>
      cases h
      exact absurd hremoves (not_removes rfl)
    | true =>
      obtain ⟨i, hi, h⟩ := Option.bind_eq_some_iff.mp h
      split at h
      next =>
        obtain ⟨⟨dequeued, m, samples⟩, _, h⟩ := Option.bind_eq_some_iff.mp h
        cases dequeued with
        | false =>
          cases h
          exact absurd hremoves (not_removes rfl)
        | true =>
          cases h
          exact waitingList_setSamples m samples hi n
      next =>
        obtain ⟨⟨m, sent⟩, _, h⟩ := Option.bind_eq_some_iff.mp h
        have hreleases := wakeup_releases h
        exact absurd hremoves (not_removes hreleases)

theorem dataDropped_keeps {droppedByTransport : Bool}
    (h : b.dataDropped sample droppedByTransport = some (b', broadcast))
    (hremoves : Removes sample b b') (n : Nat) :
    waitingList b'.container n = waitingList b.container n := by
  cases droppedByTransport with
  | true => exact dataDelivered_keeps h hremoves n
  | false =>
    obtain ⟨⟨found, m, sending⟩, _, h⟩ := Option.bind_eq_some_iff.mp h
    cases found with
    | true =>
      obtain ⟨⟨m, unsent⟩, _, h⟩ := Option.bind_eq_some_iff.mp h
      cases h
      exact absurd hremoves (not_removes rfl)
    | false =>
      obtain ⟨⟨found, m, released⟩, _, h⟩ := Option.bind_eq_some_iff.mp h
      cases found <;> cases h <;> rfl

theorem callback_keeps {callback : Callback} (h : callback.run b sample = some (b', broadcast))
    (hremoves : Removes sample b b') (n : Nat) :
    waitingList b'.container n = waitingList b.container n := by
  cases callback with
  | dataDelivered => exact dataDelivered_keeps h hremoves n
  | dataDropped droppedByTransport => exact dataDropped_keeps h hremoves n

theorem dequeueHead_size {m : Elements} {l : Header Nat} {a : Nat} (h : l.head = some a) :
    (InstanceDataSampleList.dequeueHead m l).2.2.size = l.size - 1 := by
  rw [InstanceDataSampleList.dequeueHead, h]

theorem noneWaits_of_woken {callback : Callback} (h : callback.run b sample = some (b', broadcast))
    (hremoves : Removes sample b b') (hwoken : Woken handle b b' broadcast) : NoneWaits handle b := by
  intro i hi
  cases hhead : i.waitingList.head with
  | none => rfl
  | some waiting =>
    obtain ⟨⟨i', hi', hlist⟩, _, _⟩ := hwoken i waiting hi hhead
    have hkept := callback_keeps h hremoves handle
    rw [waitingList, waitingList, hi, hi', Option.map_some, Option.map_some,
      Option.some_inj] at hkept
    have hsize := congrArg Header.size (hkept.symm.trans hlist)
    rw [dequeueHead_size hhead] at hsize
    omega

/-- Whenever the transport gives back a sample and it is released, in whatever state: the writer
that waits first in the instance is woken if and only if there is none. -/
theorem woken_iff (callback : Callback) (b b' : BlockingContainer) (sample : Nat) (broadcast : Bool)
    (h : callback.run b sample = some (b', broadcast)) (hremoves : Removes sample b b') :
    Woken (b.container.elements.handle sample) b b' broadcast ↔
      NoneWaits (b.container.elements.handle sample) b := by
  constructor
  · exact noneWaits_of_woken h hremoves
  · intro hnone i waiting hi hhead
    rw [hnone i hi] at hhead
    cases hhead

def blocking : ContainerLimits := ⟨1, 0, 0, true⟩

def sentOnce : List Operation :=
  [.registerInstance none 1, .obtainBuffer 10 1 false, .enqueue, .sendUnsent]

/-- The samples that are released before and after a `data_delivered`, and the broadcast. -/
def releasesAround (sample : Nat) (b : BlockingContainer) : Option (List Nat × List Nat × Bool) := do
  let (b', broadcast) ← b.dataDelivered sample
  return (b.container.releases.map (·.1), b'.container.releases.map (·.1), broadcast)

theorem removes_of_releasesAround
    (h : releasesAround sample b = some ([], [sample], broadcast)) :
    ∃ b', b.dataDelivered sample = some (b', broadcast) ∧ Removes sample b b' := by
  obtain ⟨⟨b', broadcast'⟩, hrun, h⟩ := Option.bind_eq_some_iff.mp h
  simp only [Option.pure_def, Option.some_inj, Prod.mk.injEq] at h
  obtain ⟨hbefore, hafter, rfl⟩ := h
  refine ⟨b', hrun, ?_⟩
  rw [Removes, hbefore, hafter]
  rfl

theorem delivered_after (ops : List Operation) (broadcast : Bool)
    (hseen : (create.performAll blocking ops).map (fun w => releasesAround 10 ⟨w.container, true⟩) =
      some (some ([], [10], broadcast))) :
    ∃ w b', create.performAll blocking ops = some w ∧
      (⟨w.container, true⟩ : BlockingContainer).dataDelivered 10 = some (b', broadcast) ∧
      Removes 10 ⟨w.container, true⟩ b' := by
  obtain ⟨w, hw, hseen⟩ := Option.map_eq_some_iff.mp hseen
  obtain ⟨b', hrun, hremoves⟩ := removes_of_releasesAround hseen
  exact ⟨w, b', hw, hrun, hremoves⟩

/-- The instance is disposed before its sample is delivered, and nobody waits; or a second writer
waits for the sample. -/
theorem woken_iff_disposed :
    (∃ w b', create.performAll blocking (sentOnce ++ [.dispose 1]) = some w ∧
      (⟨w.container, true⟩ : BlockingContainer).dataDelivered 10 = some (b', false) ∧
      Removes 10 ⟨w.container, true⟩ b' ∧
      (Woken (w.container.elements.handle 10) ⟨w.container, true⟩ b' false ↔
        NoneWaits (w.container.elements.handle 10) ⟨w.container, true⟩)) ∧
    ∃ w b', create.performAll blocking (sentOnce ++ [.obtainBuffer 11 1 false]) = some w ∧
      (⟨w.container, true⟩ : BlockingContainer).dataDelivered 10 = some (b', false) ∧
      Removes 10 ⟨w.container, true⟩ b' ∧
      (Woken (w.container.elements.handle 10) ⟨w.container, true⟩ b' false ↔
        NoneWaits (w.container.elements.handle 10) ⟨w.container, true⟩) := by
  obtain ⟨w, b', hw, hrun, hremoves⟩ :=
    delivered_after (sentOnce ++ [.dispose 1]) false (by decide)
  obtain ⟨v, c', hv, hrun', hremoves'⟩ :=
    delivered_after (sentOnce ++ [.obtainBuffer 11 1 false]) false (by decide)
  exact ⟨⟨w, b', hw, hrun, hremoves, woken_iff .dataDelivered _ b' 10 false hrun hremoves⟩,
    ⟨v, c', hv, hrun', hremoves', woken_iff .dataDelivered _ c' 10 false hrun' hremoves'⟩⟩

/-- A second write finds the only sample being sent, moves it to `released_data_` and waits. When the
sample is delivered and released, the writer is not told. -/
theorem waits_on :
    ¬ ∀ (ops : List Operation) (w : DataWriter) (waitingOnRelease : Bool) (sample : Nat)
      (b' : BlockingContainer) (broadcast : Bool), Run create (Performs blocking) ops w →
      (⟨w.container, waitingOnRelease⟩ : BlockingContainer).dataDelivered sample =
        some (b', broadcast) →
      Removes sample ⟨w.container, waitingOnRelease⟩ b' →
      Woken (w.container.elements.handle sample) ⟨w.container, waitingOnRelease⟩ b' broadcast := by
  intro claim
  have hseen : (create.performAll blocking (sentOnce ++ [.obtainBuffer 11 1 false])).map (fun w =>
      (releasesAround 10 ⟨w.container, true⟩, w.container.elements.handle 10,
        (w.container.getHandleInstance 1).map (·.waitingList.head))) =
      some (some ([], [10], false), 1, some (some 11)) := by decide
  obtain ⟨w, hw, hseen⟩ := Option.map_eq_some_iff.mp hseen
  simp only [Prod.mk.injEq] at hseen
  obtain ⟨hdelivered, hhandle, hhead⟩ := hseen
  obtain ⟨b', hrun, hremoves⟩ := removes_of_releasesAround hdelivered
  have hwoken := claim _ w true 10 b' false (run_of_performAll rfl hw) hrun hremoves
  have hcallback : Callback.dataDelivered.run ⟨w.container, true⟩ 10 = some (b', false) := hrun
  have hnone := noneWaits_of_woken hcallback hremoves hwoken
  obtain ⟨i, hi, hwaiting⟩ := Option.map_eq_some_iff.mp hhead
  rw [hnone i (hhandle ▸ hi)] at hwaiting
  cases hwaiting

end OpenDDS.Guarantees.BlockedWriters
