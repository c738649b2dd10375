import OpenDDS.Source.WriteDataContainer

/-!
# The lists of a container

`Placement` names the elements on every list of a container; `Store.Holds` says that the
memory holds exactly these lists, threaded through the right elements, and that an
element on no send-state list has no send links. Each list operation of the container
moves an element of the placement and keeps `Holds`.
-/
namespace OpenDDS.Source

open Library.LinkedList
open Function (update update_apply update_self)

/-- The two lists of an instance. -/
inductive Queue where
  | samples
  | waitingList
  deriving DecidableEq

def PublicationInstance.queue (i : PublicationInstance) : Queue → Header Nat
  | .samples => i.samples
  | .waitingList => i.waitingList

def PublicationInstance.setQueue (i : PublicationInstance) (q : Queue) (l : Header Nat) :
    PublicationInstance :=
  match q with
  | .samples => { i with samples := l }
  | .waitingList => { i with waitingList := l }

namespace PublicationInstance

variable {i : PublicationInstance} {q q' : Queue} {l : Header Nat}

@[simp] theorem setQueue_handle : (i.setQueue q l).instanceHandle = i.instanceHandle := by
  cases q <;> rfl

@[simp] theorem queue_setQueue : (i.setQueue q l).queue q = l := by
  cases q <;> rfl

theorem queue_setQueue_of_ne (h : q' ≠ q) : (i.setQueue q l).queue q' = i.queue q' := by
  cases q <;> cases q' <;> simp_all [setQueue, queue]

end PublicationInstance

structure Placement where
  lists : SendState → List Nat
  queues : Nat × Queue → List Nat

namespace Placement

def take (p : Placement) (state : SendState) (a : Nat) : Placement :=
  { p with lists := update p.lists state ((p.lists state).erase a) }

def put (p : Placement) (state : SendState) (a : Nat) : Placement :=
  { p with lists := update p.lists state (p.lists state ++ [a]) }

def setQueue (p : Placement) (handle : Nat) (q : Queue) (xs : List Nat) : Placement :=
  { p with queues := update p.queues (handle, q) xs }

def pour (p : Placement) (target source : SendState) : Placement :=
  { p with
    lists := update (update p.lists target (p.lists target ++ p.lists source))
      source [] }

theorem mem_of_pour {p : Placement} {target source state : SendState} {a : Nat}
    (h : a ∈ (p.pour target source).lists state) : ∃ state', a ∈ p.lists state' := by
  simp only [pour, update_apply] at h
  split_ifs at h
  · simp at h
  · rcases List.mem_append.mp h with h | h
    · exact ⟨_, h⟩
    · exact ⟨_, h⟩
  · exact ⟨_, h⟩

/-- No send-state list has the element. -/
def Loose (p : Placement) (a : Nat) : Prop := ∀ state, a ∉ p.lists state

theorem Loose.put {p : Placement} {state : SendState} {a x : Nat} (h : p.Loose x) (hne : x ≠ a) :
    (p.put state a).Loose x := by
  intro s hmem
  rcases eq_or_ne s state with rfl | hs
  · have hcase : x ∈ p.lists s ∨ x = a := by simpa [Placement.put] using hmem
    rcases hcase with hmem | hmem
    · exact h s hmem
    · exact hne hmem
  · exact h s (by simpa [Placement.put, hs] using hmem)

end Placement

structure Store.Holds (c : Store) (p : Placement) : Prop where
  sends : ∀ state, c.elements.Sends (c.lists state) (p.lists state)
  lists : Apart p.lists
  known : ∀ state, ∀ a ∈ p.lists state, a ∈ c.allocated
  loose : ∀ a ∈ c.allocated, p.Loose a →
    c.elements.nextSendSample a = none ∧ c.elements.previousSendSample a = none
  handles : (c.instances.map (·.instanceHandle)).Nodup
  keeps : ∀ i ∈ c.instances, ∀ q, c.elements.Keeps (i.queue q) (p.queues (i.instanceHandle, q))
  queues : Apart p.queues
  queued : ∀ key, ∀ a ∈ p.queues key, a ∈ c.allocated
  allocated : c.allocated.Nodup

namespace Container

variable (c : Container) (m : Elements) (state : SendState) (l : Header Nat)

@[simp] theorem setList_elements : (c.setList m state l).elements = m := rfl

@[simp] theorem setList_lists : (c.setList m state l).lists = update c.lists state l := rfl

@[simp] theorem setList_instances : (c.setList m state l).instances = c.instances := rfl

@[simp] theorem setList_allocated : (c.setList m state l).allocated = c.allocated := rfl

@[simp] theorem setList_releases : (c.setList m state l).releases = c.releases := rfl

variable {c m} {i j : PublicationInstance} {handle : Nat}

theorem getHandleInstance_some (h : c.getHandleInstance handle = some i) :
    i ∈ c.instances ∧ i.instanceHandle = handle :=
  ⟨List.mem_of_find?_eq_some h, by simpa using List.find?_some h⟩

@[simp] theorem setInstance_elements : (c.setInstance m i).elements = m := rfl

@[simp] theorem setInstance_lists : (c.setInstance m i).lists = c.lists := rfl

@[simp] theorem setInstance_allocated : (c.setInstance m i).allocated = c.allocated := rfl

@[simp] theorem setInstance_releases : (c.setInstance m i).releases = c.releases := rfl

@[simp] theorem setInstance_handles :
    (c.setInstance m i).instances.map (·.instanceHandle) = c.instances.map (·.instanceHandle) := by
  simp only [setInstance, List.map_map]
  apply List.map_congr_left
  intro j _
  simp only [Function.comp_apply]
  split_ifs with h
  · exact h.symm
  · rfl

theorem mem_setInstance (h : j ∈ (c.setInstance m i).instances) :
    (j = i ∧ i.instanceHandle ∈ c.instances.map (·.instanceHandle)) ∨
      (j ∈ c.instances ∧ j.instanceHandle ≠ i.instanceHandle) := by
  obtain ⟨k, hk, hkj⟩ := List.mem_map.mp h
  split_ifs at hkj with heq
  · left
    exact ⟨hkj.symm, List.mem_map.mpr ⟨k, hk, heq⟩⟩
  · right
    rw [← hkj]
    exact ⟨hk, heq⟩

end Container

namespace Store.Holds

open Container

variable {c : Container} {p : Placement} {state : SendState} {a : Nat}

theorem length_le (h : c.Holds p) (state : SendState) : (p.lists state).length ≤ c.fuel :=
  (h.lists.nodup state).length_le_of_subset (h.known state)

theorem queue_length_le (h : c.Holds p) (key : Nat × Queue) : (p.queues key).length ≤ c.fuel :=
  (h.queues.nodup key).length_le_of_subset (h.queued key)

theorem dequeue_absent (h : c.Holds p) (hmem : a ∉ p.lists state) :
    SendStateDataSampleList.dequeue c.fuel c.elements (c.lists state) a =
      some (false, c.elements, c.lists state) :=
  SendStateDataSampleList.dequeue_notMem (h.sends state) hmem (h.length_le state)

theorem relist {m : Elements} {l : Header Nat} {xs touched : List Nat} (h : c.Holds p)
    (hm : c.elements.Resent m touched) (hl : m.Sends l xs)
    (apart : Apart (update p.lists state xs))
    (known : ∀ a ∈ xs, a ∈ c.allocated)
    (others : ∀ s ≠ state, ∀ x ∈ p.lists s, x ∉ touched)
    (loose : ∀ a ∈ c.allocated, a ∈ touched → a ∉ xs →
      m.nextSendSample a = none ∧ m.previousSendSample a = none)
    (kept : ∀ a ∈ p.lists state, a ∉ touched → a ∈ xs) :
    (c.setList m state l).Holds { p with lists := update p.lists state xs } where
  sends s := by
    rcases eq_or_ne s state with rfl | hne
    · simpa using hl
    · simpa [hne] using hm.segment (others s hne) (h.sends s)
  lists := apart
  known s x hx := by
    rcases eq_or_ne s state with rfl | hne
    · exact known x (by simpa using hx)
    · exact h.known s x (by simpa [hne] using hx)
  loose x hx hloose := by
    have hxs : x ∉ xs := by simpa using hloose state
    by_cases htouched : x ∈ touched
    · exact loose x hx htouched hxs
    · rw [setList_elements, hm.next x htouched, hm.previous x htouched]
      apply h.loose x hx
      intro s hmem
      rcases eq_or_ne s state with rfl | hne
      · exact hxs (kept x hmem htouched)
      · exact hloose s (by simpa [hne] using hmem)
  handles := h.handles
  keeps i hi q := hm.keeps (h.keeps i hi q)
  queues := h.queues
  queued := h.queued
  allocated := h.allocated

theorem dequeue (h : c.Holds p) (hmem : a ∈ p.lists state) :
    ∃ m l, SendStateDataSampleList.dequeue c.fuel c.elements (c.lists state) a =
        some (true, m, l) ∧
      (c.setList m state l).Holds (p.take state a) ∧
      c.elements.Resent m (p.lists state) := by
  obtain ⟨m, l, heq, hl, hnext, hprev, hm⟩ := SendStateDataSampleList.dequeue_mem
    (h.sends state) (h.lists.nodup state) hmem (h.length_le state)
  refine ⟨m, l, heq, ?_, hm⟩
  apply h.relist hm hl h.lists.erase
  · intro x hx
    exact h.known state x (List.mem_of_mem_erase hx)
  · intro s hne x hx hin
    exact hne (h.lists.unique hx hin)
  · intro x _ hin hnot
    have hxa : x = a := by
      by_contra hxa
      exact hnot ((List.mem_erase_of_ne hxa).mpr hin)
    rw [hxa]
    exact ⟨hnext, hprev⟩
  · intro x hx hnot
    exact absurd hx hnot

theorem enqueueTail (state : SendState) (h : c.Holds p) (hknown : a ∈ c.allocated) (hloose : p.Loose a) :
    ∃ m l, SendStateDataSampleList.enqueueTail c.elements (c.lists state) a = some (m, l) ∧
      (c.setList m state l).Holds (p.put state a) ∧
      c.elements.Resent m (p.lists state ++ [a]) := by
  obtain ⟨m, l, heq, hl, hm⟩ := SendStateDataSampleList.enqueueTail_spec
    (h.sends state) (h.lists.nodup state) (hloose state)
  obtain ⟨hnext, hprev⟩ := h.loose a hknown hloose
  rw [hnext, hprev, ite_self] at hl
  refine ⟨m, l, heq, ?_, hm⟩
  apply h.relist hm hl (h.lists.append hloose)
  · intro x hx
    rcases List.mem_append.mp hx with hx | hx
    · exact h.known state x hx
    · rwa [List.mem_singleton.mp hx]
  · intro s hne x hx hin
    rcases List.mem_append.mp hin with hin | hin
    · exact hne (h.lists.unique hx hin)
    · exact hloose s (List.mem_singleton.mp hin ▸ hx)
  · intro x _ hin hnot
    exact absurd hin hnot
  · intro x hx _
    exact List.mem_append_left _ hx

theorem pour {target source : SendState} (h : c.Holds p) (hne : target ≠ source)
    (hempty : p.lists target ≠ [] → p.lists source ≠ []) :
    ∃ m l, SendStateDataSampleList.enqueueTailList c.elements (c.lists target) (c.lists source) =
        some (m, l) ∧
      ((c.setList m target l).setList m source .empty).Holds (p.pour target source) ∧
      c.elements.Resent m (p.lists target ++ p.lists source) := by
  have hnodup : (p.lists target ++ p.lists source).Nodup := by
    rw [List.nodup_append]
    refine ⟨h.lists.nodup _, h.lists.nodup _, ?_⟩
    rintro x hx y hy rfl
    exact hne (h.lists.unique hx hy)
  obtain ⟨m, l, heq, hl, hm⟩ := SendStateDataSampleList.enqueueTailList_spec
    (h.sends target) (h.sends source) hnodup hempty
  refine ⟨m, l, heq, ?_, hm⟩
  constructor
  · intro s
    rcases eq_or_ne s source with rfl | hs
    · simp only [Placement.pour, setList_lists, update_self]
      constructor
      · constructor <;> rfl
      · trivial
      · trivial
    · rcases eq_or_ne s target with rfl | ht
      · simpa [Placement.pour, hs] using hl
      · have hother : ∀ x ∈ p.lists s, x ∉ p.lists target ++ p.lists source := by
          intro x hx hin
          rcases List.mem_append.mp hin with hin | hin
          · exact ht (h.lists.unique hx hin)
          · exact hs (h.lists.unique hx hin)
        simpa [Placement.pour, hs, ht] using hm.segment hother (h.sends s)
  · exact h.lists.pour hne
  · intro s x hx
    obtain ⟨s', hx'⟩ := Placement.mem_of_pour hx
    exact h.known s' x hx'
  · intro x hx hloose
    have hloose' : p.Loose x := by
      intro s hin
      rcases eq_or_ne s source with rfl | hs
      · apply hloose target
        simp [Placement.pour, hne, hin]
      · apply hloose s
        rcases eq_or_ne s target with rfl | ht
        · simp [Placement.pour, hs, hin]
        · simpa [Placement.pour, hs, ht] using hin
    have hnot : x ∉ p.lists target ++ p.lists source := by
      simpa using ⟨hloose' target, hloose' source⟩
    rw [setList_elements, hm.next x hnot, hm.previous x hnot]
    exact h.loose x hx hloose'
  · exact h.handles
  · intro i hi q
    exact hm.keeps (h.keeps i hi q)
  · exact h.queues
  · exact h.queued
  · exact h.allocated

theorem getHandleInstance {i : PublicationInstance} (h : c.Holds p) (hi : i ∈ c.instances) :
    c.getHandleInstance i.instanceHandle = some i := by
  have hinj := List.inj_on_of_nodup_map h.handles
  cases hfind : c.getHandleInstance i.instanceHandle with
  | none =>
    have hnone := List.find?_eq_none.mp hfind i hi
    simp at hnone
  | some j =>
    have hj := getHandleInstance_some hfind
    rw [hinj hj.1 hi hj.2]

/-- One list of an instance changes to `xs`, and the links of no element of another. -/
theorem refile {i : PublicationInstance} {q : Queue} {m : Elements} {l : Header Nat}
    {xs touched : List Nat} (h : c.Holds p) (hi : i ∈ c.instances)
    (hm : c.elements.Refiled m touched) (hl : m.Keeps l xs)
    (apart : Apart (update p.queues (i.instanceHandle, q) xs))
    (known : ∀ a ∈ xs, a ∈ c.allocated)
    (others : ∀ key ≠ (i.instanceHandle, q), ∀ x ∈ p.queues key, x ∉ touched) :
    (c.setInstance m (i.setQueue q l)).Holds (p.setQueue i.instanceHandle q xs) where
  sends s := by
    have hs := h.sends s
    rw [Elements.Sends, ← hm.next, ← hm.previous] at hs
    exact hs
  lists := h.lists
  known := h.known
  loose x hx hloose := by
    rw [setInstance_elements, hm.next, hm.previous]
    exact h.loose x hx hloose
  handles := by
    rw [setInstance_handles]
    exact h.handles
  keeps j hj q' := by
    have hframe : ∀ {l'} key, key ≠ (i.instanceHandle, q) →
        c.elements.Keeps l' (p.queues key) → m.Keeps l' (p.queues key) := by
      intro l' key hkey hkeeps
      constructor
      · exact hkeeps.toAnchors
      · exact hkeeps.forward.congr fun x hx => hm.instances x (others key hkey x hx)
    rcases mem_setInstance hj with ⟨rfl, _⟩ | ⟨hj, hne⟩
    · rcases eq_or_ne q' q with rfl | hq
      · simpa [Placement.setQueue] using hl
      · rw [PublicationInstance.queue_setQueue_of_ne hq]
        simpa [Placement.setQueue, hq] using
          hframe (i.instanceHandle, q') (by simp [hq]) (h.keeps i hi q')
    · rw [PublicationInstance.setQueue_handle] at hne
      simpa [Placement.setQueue, hne] using
        hframe (j.instanceHandle, q') (by simp [hne]) (h.keeps j hj q')
  queues := apart
  queued key x hx := by
    rcases eq_or_ne key (i.instanceHandle, q) with rfl | hne
    · exact known x (by simpa [Placement.setQueue] using hx)
    · exact h.queued key x (by simpa [Placement.setQueue, hne] using hx)
  allocated := h.allocated

theorem fileTail {i : PublicationInstance} (q : Queue) (h : c.Holds p) (hi : i ∈ c.instances)
    (hknown : a ∈ c.allocated) (fresh : ∀ key, a ∉ p.queues key) :
    ∃ m l, InstanceDataSampleList.enqueueTail c.elements (i.queue q) a = some (m, l) ∧
      (c.setInstance m (i.setQueue q l)).Holds
        (p.setQueue i.instanceHandle q (p.queues (i.instanceHandle, q) ++ [a])) ∧
      c.elements.Refiled m (p.queues (i.instanceHandle, q) ++ [a]) := by
  obtain ⟨m, l, heq, hl, hm⟩ := InstanceDataSampleList.enqueueTail_spec
    (h.keeps i hi q) (h.queues.nodup _) (fresh _)
  refine ⟨m, l, heq, ?_, hm⟩
  apply h.refile hi hm hl (h.queues.append fresh)
  · intro x hx
    rcases List.mem_append.mp hx with hx | hx
    · exact h.queued _ x hx
    · rwa [List.mem_singleton.mp hx]
  · intro key hne x hx hin
    rcases List.mem_append.mp hin with hin | hin
    · exact hne (h.queues.unique hx hin)
    · exact fresh key (List.mem_singleton.mp hin ▸ hx)

theorem unfile {i : PublicationInstance} {q : Queue} (h : c.Holds p) (hi : i ∈ c.instances)
    (hmem : a ∈ p.queues (i.instanceHandle, q)) :
    ∃ m l, InstanceDataSampleList.dequeue c.fuel c.elements (i.queue q) a = some (true, m, l) ∧
      (c.setInstance m (i.setQueue q l)).Holds
        (p.setQueue i.instanceHandle q ((p.queues (i.instanceHandle, q)).erase a)) ∧
      c.elements.Refiled m (p.queues (i.instanceHandle, q)) := by
  obtain ⟨m, l, heq, hl, hm⟩ := InstanceDataSampleList.dequeue_mem
    (h.keeps i hi q) (h.queues.nodup _) hmem (h.queue_length_le _)
  refine ⟨m, l, heq, ?_, hm⟩
  apply h.refile hi hm hl h.queues.erase
  · intro x hx
    exact h.queued _ x (List.mem_of_mem_erase hx)
  · intro key hne x hx hin
    exact hne (h.queues.unique hx hin)

theorem unfileHead {i : PublicationInstance} {q : Queue} {xs : List Nat} (h : c.Holds p)
    (hi : i ∈ c.instances) (hxs : p.queues (i.instanceHandle, q) = a :: xs) :
    ∃ m l, InstanceDataSampleList.dequeueHead c.elements (i.queue q) = (true, m, l) ∧
      (c.setInstance m (i.setQueue q l)).Holds (p.setQueue i.instanceHandle q xs) ∧
      c.elements.Refiled m (p.queues (i.instanceHandle, q)) := by
  have hkeeps := h.keeps i hi q
  have hnodup := h.queues.nodup (i.instanceHandle, q)
  rw [hxs] at hkeeps hnodup
  obtain ⟨m, l, heq, hl, hm⟩ :=
    InstanceDataSampleList.dequeueHead_spec hkeeps (List.nodup_cons.mp hnodup).1
  rw [← hxs] at hm
  refine ⟨m, l, heq, ?_, hm⟩
  have hsub : ∀ x ∈ xs, x ∈ p.queues (i.instanceHandle, q) := by
    intro x hx
    rw [hxs]
    exact List.mem_cons_of_mem _ hx
  apply h.refile hi hm hl
  · have herase := h.queues.erase (i := (i.instanceHandle, q)) (a := a)
    rwa [hxs, List.erase_cons_head] at herase
  · intro x hx
    exact h.queued _ x (hsub x hx)
  · intro key hne x hx hin
    exact hne (h.queues.unique hx hin)

theorem construct {handle : Nat} (h : c.Holds p) (fresh : a ∉ c.allocated) :
    (c.allocate a handle).Holds p := by
  have hother : ∀ x ∈ c.allocated, x ≠ a := fun x hx heq => fresh (heq ▸ hx)
  constructor
  · intro s
    constructor
    · exact (h.sends s).toAnchors
    · apply (h.sends s).forward.congr
      intro x hx
      simp [allocate, Elements.construct, hother x (h.known s x hx)]
    · apply (h.sends s).backward.congr
      intro x hx
      simp [allocate, Elements.construct, hother x (h.known s x (List.mem_reverse.mp hx))]
  · exact h.lists
  · intro s x hx
    exact List.mem_cons_of_mem _ (h.known s x hx)
  · intro x hx hloose
    rcases List.mem_cons.mp hx with rfl | hx
    · simp [allocate, Elements.construct]
    · simpa [allocate, Elements.construct, hother x hx] using h.loose x hx hloose
  · exact h.handles
  · intro i hi q
    constructor
    · exact (h.keeps i hi q).toAnchors
    · apply (h.keeps i hi q).forward.congr
      intro x hx
      simp [allocate, Elements.construct, hother x (h.queued _ x hx)]
  · exact h.queues
  · intro key x hx
    exact List.mem_cons_of_mem _ (h.queued key x hx)
  · exact List.nodup_cons.mpr ⟨fresh, h.allocated⟩

theorem releaseBuffer (h : c.Holds p) (hloose : p.Loose a) (hfree : ∀ key, a ∉ p.queues key) :
    (c.releaseBuffer a).Holds p where
  sends := h.sends
  lists := h.lists
  known s x hx := by
    have hxa : x ≠ a := fun heq => hloose s (heq ▸ hx)
    exact (List.mem_erase_of_ne hxa).mpr (h.known s x hx)
  loose x hx hloose := h.loose x (List.mem_of_mem_erase hx) hloose
  handles := h.handles
  keeps := h.keeps
  queues := h.queues
  queued key x hx := by
    have hxa : x ≠ a := fun heq => hfree key (heq ▸ hx)
    exact (List.mem_erase_of_ne hxa).mpr (h.queued key x hx)
  allocated := h.allocated.erase a

end Store.Holds
end OpenDDS.Source
