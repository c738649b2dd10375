import OpenDDS.Source.ContainerPlacement
import OpenDDS.Source.DataWriter

/-!
# The instances of a container

Which handles a container knows: `register_instance` adds the writer's next one,
`unregister_all` drops those it goes through, and every other operation leaves them as
they are, whatever it finds on the lists.
-/
namespace OpenDDS.Source

open Library.LinkedList

namespace Container

variable {limits : ContainerLimits} {c c' : Container} {m : Elements} {l : Header Nat}
  {i : PublicationInstance} {state : SendState} {a handle n : Nat} {ret : ReturnCode}
  {released expired : Bool} {outcome : Obtained}

@[simp] theorem handles_setList : (c.setList m state l).handles = c.handles := rfl

@[simp] theorem handles_setInstance : (c.setInstance m i).handles = c.handles :=
  setInstance_handles

@[simp] theorem handles_releaseBuffer : (c.releaseBuffer a).handles = c.handles := rfl

@[simp] theorem handles_allocate : (c.allocate a handle).handles = c.handles := rfl

theorem getHandleInstance_none : c.getHandleInstance n = none ↔ n ∉ c.handles := by
  unfold getHandleInstance handles
  simp

theorem handles_enqueue (h : c.enqueue a handle = some c') : c'.handles = c.handles := by
  obtain ⟨i, -, h⟩ := Option.bind_eq_some_iff.mp h
  obtain ⟨_, -, h⟩ := Option.bind_eq_some_iff.mp h
  obtain ⟨_, -, h⟩ := Option.bind_eq_some_iff.mp h
  cases h
  simp

theorem handles_copyList {kept : Nat → Bool} {addresses rest : List Nat}
    (h : c.copyList state kept addresses = some (c', rest)) : c'.handles = c.handles := by
  unfold copyList at h
  split at h
  · obtain ⟨_, -, h⟩ := Option.bind_eq_some_iff.mp h
    cases h
    rfl
  · cases h
    rfl

theorem handles_reenqueueAll {kept : Nat → Bool} {addresses : List Nat}
    (h : c.reenqueueAll kept addresses = some c') : c'.handles = c.handles := by
  unfold reenqueueAll at h
  obtain ⟨⟨c₁, rest⟩, h₁, h⟩ := Option.bind_eq_some_iff.mp h
  obtain ⟨⟨c₂, rest'⟩, h₂, h⟩ := Option.bind_eq_some_iff.mp h
  cases h
  exact (handles_copyList h₂).trans (handles_copyList h₁)

theorem mem_handles_registerInstance {given : Option Nat} {next : Nat}
    (h : n ∈ (c.registerInstance limits given next).2.handles) : n ∈ c.handles ∨ n = next := by
  cases given with
  | some handle => exact .inl h
  | none =>
    unfold registerInstance at h
    dsimp only at h
    split at h
    · exact .inl h
    · split at h
      · exact .inl h
      · simp only [handles, List.map_append, List.map_cons, List.mem_append, List.mem_cons] at h
        rcases h with h | rfl | h
        · exact .inl (((List.takeWhile_sublist _).map _).subset h)
        · exact .inr rfl
        · exact .inl (((List.dropWhile_sublist _).map _).subset h)

theorem handles_getUnsentData (h : c.getUnsentData = some (l, c')) : c'.handles = c.handles := by
  unfold getUnsentData at h
  obtain ⟨_, -, h⟩ := Option.bind_eq_some_iff.mp h
  cases h
  rfl

theorem handles_getResendData (h : c.getResendData = some (l, c')) : c'.handles = c.handles := by
  unfold getResendData at h
  dsimp only at h
  split at h
  · obtain ⟨_, -, h⟩ := Option.bind_eq_some_iff.mp h
    cases h
    rfl
  · cases h
    rfl

theorem handles_wakeupBlockingWriters {stale : Option Nat}
    (h : c.wakeupBlockingWriters stale handle = some c') : c'.handles = c.handles := by
  cases stale with
  | none =>
    cases h
    rfl
  | some stale =>
    obtain ⟨i, -, h⟩ := Option.bind_eq_some_iff.mp h
    split at h
    · cases h
      rfl
    · cases h
      simp

theorem handles_dataDelivered (h : c.dataDelivered a = some c') : c'.handles = c.handles := by
  obtain ⟨⟨dequeued, m, released⟩, -, h⟩ := Option.bind_eq_some_iff.mp h
  dsimp only at h
  split at h
  · cases h
    rfl
  · obtain ⟨⟨found, m, sending⟩, -, h⟩ := Option.bind_eq_some_iff.mp h
    split at h
    · obtain ⟨i, -, h⟩ := Option.bind_eq_some_iff.mp h
      split at h
      · obtain ⟨⟨dequeued, m, samples⟩, -, h⟩ := Option.bind_eq_some_iff.mp h
        split at h
        · cases h
          simp
        · cases h
          simp
      · obtain ⟨_, -, h⟩ := Option.bind_eq_some_iff.mp h
        rw [handles_wakeupBlockingWriters h, handles_setList, handles_setList]
    · cases h
      rfl

theorem handles_dataDropped {droppedByTransport : Bool}
    (h : c.dataDropped a droppedByTransport = some c') : c'.handles = c.handles := by
  unfold dataDropped at h
  split at h
  · exact handles_dataDelivered h
  · obtain ⟨⟨found, m, sending⟩, -, h⟩ := Option.bind_eq_some_iff.mp h
    dsimp only at h
    split at h
    · obtain ⟨_, -, h⟩ := Option.bind_eq_some_iff.mp h
      rw [handles_wakeupBlockingWriters h, handles_setList, handles_setList]
    · obtain ⟨⟨found, m, released⟩, -, h⟩ := Option.bind_eq_some_iff.mp h
      split at h
      · rw [handles_wakeupBlockingWriters h, handles_releaseBuffer, handles_setList,
          handles_setList]
      · cases h
        rfl

theorem handles_removeStale {containing : Option SendState} {released' : Bool}
    (h : c.removeStale a released containing = some (ret, released', c')) :
    c'.handles = c.handles := by
  unfold removeStale at h
  split at h
  · obtain ⟨_, -, h⟩ := Option.bind_eq_some_iff.mp h
    obtain ⟨_, -, h⟩ := Option.bind_eq_some_iff.mp h
    cases h
    rfl
  · obtain ⟨_, -, h⟩ := Option.bind_eq_some_iff.mp h
    cases h
    rfl
  · cases h
    rfl

theorem handles_removeOldestSample {released' : Bool}
    (h : c.removeOldestSample handle released = some (ret, released', c')) :
    c'.handles = c.handles := by
  unfold removeOldestSample at h
  obtain ⟨i, -, h⟩ := Option.bind_eq_some_iff.mp h
  split at h
  · cases h
    rfl
  · obtain ⟨_, -, h⟩ := Option.bind_eq_some_iff.mp h
    rw [handles_removeStale h, handles_setInstance]

theorem handles_disposeSamples {fuel : Nat} (h : disposeSamples fuel c handle = some (ret, c')) :
    c'.handles = c.handles := by
  induction fuel generalizing c with
  | zero =>
    obtain ⟨i, -, h⟩ := Option.bind_eq_some_iff.mp h
    split at h
    · obtain ⟨⟨ret', released, c₁⟩, h₁, h⟩ := Option.bind_eq_some_iff.mp h
      dsimp only at h
      split at h
      · cases h
      · cases h
        exact handles_removeOldestSample h₁
    · cases h
      rfl
  | succ fuel ih =>
    obtain ⟨i, -, h⟩ := Option.bind_eq_some_iff.mp h
    split at h
    · obtain ⟨⟨ret', released, c₁⟩, h₁, h⟩ := Option.bind_eq_some_iff.mp h
      dsimp only at h
      split at h
      · exact (ih h).trans (handles_removeOldestSample h₁)
      · cases h
        exact handles_removeOldestSample h₁
    · cases h
      rfl

theorem handles_dispose (h : c.dispose handle = some (ret, c')) : c'.handles = c.handles := by
  unfold dispose at h
  split at h
  · cases h
    rfl
  · exact handles_disposeSamples h

theorem handles_unregisterInstances {hs : List Nat} (h : unregisterInstances hs c = some c') :
    c'.handles ⊆ c.handles := by
  induction hs generalizing c with
  | nil =>
    cases h
    exact List.Subset.refl _
  | cons handle hs ih =>
    obtain ⟨⟨ret, c₁⟩, h₁, h⟩ := Option.bind_eq_some_iff.mp h
    rw [← handles_dispose h₁]
    exact List.Subset.trans (ih h) (List.filter_sublist.map _).subset

theorem handles_unregisterAll (h : c.unregisterAll = some c') : c'.handles ⊆ c.handles := by
  have hsub := handles_unregisterInstances h
  exact hsub

theorem handles_removeFromOthers {full : PublicationInstance → Bool} {hs : List Nat}
    {ret' : ReturnCode} {released' : Bool}
    (h : removeFromOthers full hs ret released c = some (ret', released', c')) :
    c'.handles = c.handles := by
  induction hs generalizing c ret released with
  | nil =>
    cases h
    rfl
  | cons handle hs ih =>
    unfold removeFromOthers at h
    split at h
    · cases h
      rfl
    · obtain ⟨i, -, h⟩ := Option.bind_eq_some_iff.mp h
      split at h
      · obtain ⟨⟨ret₁, released₁, c₁⟩, h₁, h⟩ := Option.bind_eq_some_iff.mp h
        exact (ih h).trans (handles_removeOldestSample h₁)
      · exact ih h

theorem handles_removeFromAny (h : c.removeFromAny limits = some (ret, c')) :
    c'.handles = c.handles := by
  unfold removeFromAny makeRoom at h
  split at h
  · obtain ⟨⟨ret₁, released₁, c₁⟩, h₁, h⟩ := Option.bind_eq_some_iff.mp h
    obtain ⟨⟨ret₂, released₂, c₂⟩, h₂, h⟩ := Option.bind_eq_some_iff.mp h
    cases h
    exact (handles_removeFromOthers h₂).trans (handles_removeFromOthers h₁)
  · cases h
    rfl

theorem handles_leaveWaitingList (h : c.leaveWaitingList a handle ret = some (outcome, c')) :
    c'.handles = c.handles := by
  obtain ⟨i, -, h⟩ := Option.bind_eq_some_iff.mp h
  obtain ⟨⟨dequeued, m, l⟩, -, h⟩ := Option.bind_eq_some_iff.mp h
  dsimp only at h
  split at h
  · cases h
    simp
  · cases h
    simp

theorem handles_awaitSpace
    (h : c.awaitSpace limits a handle ret released expired = some (outcome, c')) :
    c'.handles = c.handles := by
  unfold awaitSpace at h
  split at h
  · cases h
    rfl
  · obtain ⟨i, -, h⟩ := Option.bind_eq_some_iff.mp h
    split at h
    · obtain ⟨_, -, h⟩ := Option.bind_eq_some_iff.mp h
      dsimp only at h
      split at h
      · rw [handles_leaveWaitingList h, handles_setInstance]
      · cases h
        simp
    · cases h
      rfl

theorem handles_awaitResources
    (h : c.awaitResources limits a handle released expired = some (outcome, c')) :
    c'.handles = c.handles := by
  unfold awaitResources at h
  split at h
  · obtain ⟨⟨ret, c₁⟩, h₁, h⟩ := Option.bind_eq_some_iff.mp h
    rw [← handles_removeFromAny h₁]
    dsimp only at h
    split at h
    · split at h
      · cases h
        rfl
      · cases h
        rfl
    · exact handles_awaitSpace h
  · exact handles_awaitSpace h

theorem handles_keepDepth {released' : Bool}
    (h : c.keepDepth limits i = some (ret, released', c')) : c'.handles = c.handles := by
  unfold keepDepth at h
  split at h
  · cases h
    rfl
  · split at h
    · exact handles_removeOldestSample h
    · cases h
      rfl

theorem handles_obtainBuffer (h : c.obtainBuffer limits a handle expired = some (outcome, c')) :
    c'.handles = c.handles := by
  obtain ⟨i, -, h⟩ := Option.bind_eq_some_iff.mp h
  obtain ⟨⟨ret, released, c₁⟩, h₁, h⟩ := Option.bind_eq_some_iff.mp h
  have hdepth := handles_keepDepth h₁
  rw [handles_allocate] at hdepth
  rw [← hdepth]
  dsimp only at h
  split at h
  · cases h
    rfl
  · exact handles_awaitResources h

theorem handles_resume {wait : Wait} {result : WaitResult}
    (h : c.resume limits a handle wait result expired = some (outcome, c')) :
    c'.handles = c.handles := by
  unfold resume at h
  split at h
  · split at h
    · exact handles_awaitSpace h
    · cases h
      rfl
  · cases h
    rfl
  · cases h
    rfl
  · split at h
    · cases h
      rfl
    · cases h
      rfl
  · exact handles_leaveWaitingList h
  · split at h
    · cases h
      rfl
    · exact handles_leaveWaitingList h

end Container

namespace DataWriter

variable {limits : ContainerLimits} {w w' : DataWriter} {n : Nat}

theorem handles_settle {element handle : Nat} {obtained : Container.Obtained × Container} :
    (w.settle element handle obtained).container.handles = obtained.2.handles := by
  obtain ⟨outcome, c⟩ := obtained
  cases outcome with
  | buffer => rfl
  | failed ret => rfl
  | waits wait => rfl

theorem handles_sendOrKeep {list : Header Nat} (h : w.sendOrKeep list = some w') :
    w'.container.handles = w.container.handles := by
  unfold sendOrKeep send at h
  split at h
  · obtain ⟨_, -, h⟩ := Option.bind_eq_some_iff.mp h
    cases h
    rfl
  · obtain ⟨_, -, h⟩ := Option.map_eq_some_iff.mp h
    cases h
    rfl

/-- A handle that is new after an operation is the one it registered. -/
theorem mem_handles_step {op : Operation} (h : w.step limits op = some w')
    (hn : n ∈ w'.container.handles) :
    n ∈ w.container.handles ∨ ∃ given, op = .registerInstance given n := by
  cases op with
  | registerInstance given next =>
    cases h
    rcases Container.mem_handles_registerInstance hn with hn | rfl
    · exact .inl hn
    · exact .inr ⟨given, rfl⟩
  | obtainBuffer element handle expired =>
    obtain ⟨⟨outcome, c⟩, hc, rfl⟩ := Option.map_eq_some_iff.mp h
    rw [handles_settle] at hn
    exact .inl (Container.handles_obtainBuffer hc ▸ hn)
  | wake element result expired =>
    obtain ⟨t, -, h⟩ := Option.bind_eq_some_iff.mp h
    obtain ⟨⟨outcome, c⟩, hc, h⟩ := Option.bind_eq_some_iff.mp h
    cases h
    rw [handles_settle] at hn
    exact .inl (Container.handles_resume hc ▸ hn)
  | enqueue =>
    simp only [step] at h
    split at h
    · obtain ⟨c, hc, h⟩ := Option.bind_eq_some_iff.mp h
      cases h
      exact .inl (Container.handles_enqueue hc ▸ hn)
    · cases h
  | sendUnsent =>
    obtain ⟨⟨list, c⟩, hc, h⟩ := Option.bind_eq_some_iff.mp h
    rw [handles_sendOrKeep h] at hn
    exact .inl (Container.handles_getUnsentData hc ▸ hn)
  | reenqueueAll kept addresses =>
    obtain ⟨c, hc, h⟩ := Option.bind_eq_some_iff.mp h
    cases h
    exact .inl (Container.handles_reenqueueAll hc ▸ hn)
  | sendResend =>
    obtain ⟨⟨list, c⟩, hc, h⟩ := Option.bind_eq_some_iff.mp h
    rw [handles_sendOrKeep h] at hn
    exact .inl (Container.handles_getResendData hc ▸ hn)
  | dataDelivered sample =>
    obtain ⟨c, hc, h⟩ := Option.bind_eq_some_iff.mp h
    cases h
    exact .inl (Container.handles_dataDelivered hc ▸ hn)
  | dataDropped sample droppedByTransport =>
    obtain ⟨c, hc, h⟩ := Option.bind_eq_some_iff.mp h
    cases h
    exact .inl (Container.handles_dataDropped hc ▸ hn)
  | dispose handle =>
    obtain ⟨⟨ret, c⟩, hc, h⟩ := Option.bind_eq_some_iff.mp h
    cases h
    exact .inl (Container.handles_dispose hc ▸ hn)
  | unregisterAll =>
    obtain ⟨c, hc, h⟩ := Option.bind_eq_some_iff.mp h
    cases h
    exact .inl (Container.handles_unregisterAll hc hn)
  | suspendPublications =>
    cases h
    exact .inl hn
  | resumePublications =>
    simp only [step, send] at h
    split at h
    · cases h
      exact .inl hn
    · split at h
      · obtain ⟨w₁, hw₁, h⟩ := Option.bind_eq_some_iff.mp h
        obtain ⟨_, -, rfl⟩ := Option.map_eq_some_iff.mp hw₁
        cases h
        exact .inl hn
      · cases h
        exact .inl hn

end DataWriter

end OpenDDS.Source
