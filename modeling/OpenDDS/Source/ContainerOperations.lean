import OpenDDS.Source.ContainerPlacement

/-!
# What the operations of a container keep

Each operation that the owner of a container and its transport call has a result and
leaves the container settled. What it does to the placement is stated as far as a caller
relies on it: which samples the transport has, and which elements are on no list.
-/
namespace OpenDDS.Source.Container

open Library.LinkedList
open Function (update update_eq_self update_of_ne update_self)

variable {limits : ContainerLimits} {c c' : Container} {p p' : Placement} {a : Nat}
  {i : PublicationInstance}

/-- An element that a writer holds while no list has it yet. -/
structure Pending (c : Container) (p : Placement) (a handle : Nat) : Prop where
  known : a ∈ c.allocated
  loose : p.Loose a
  owner : c.elements.handle a = handle
  registered : handle ∈ c.handles
  space : c.elements.spaceAvailable a = false

/-- The pending elements other than `except` stay as they are, and so do the waiting
lists. -/
structure Spares (except : List Nat) (c c' : Container) (p p' : Placement) : Prop where
  pending : ∀ x handle, x ∉ except → c.Pending p x handle → c'.Pending p' x handle
  waiting : ∀ handle, p'.queues (handle, .waitingList) = p.queues (handle, .waitingList)

theorem spares_of_same (owner : c'.elements.handle = c.elements.handle)
    (space : c'.elements.spaceAvailable = c.elements.spaceAvailable)
    (handles : c'.handles = c.handles) (loose : ∀ x, p.Loose x → p'.Loose x)
    (kept : ∀ x ∈ c.allocated, p.Loose x → x ∈ c'.allocated)
    (waiting : ∀ n, p'.queues (n, .waitingList) = p.queues (n, .waitingList)) :
    Spares [] c c' p p' where
  pending x n _ hx := by
    constructor
    · exact kept x hx.known hx.loose
    · exact loose x hx.loose
    · rw [owner]
      exact hx.owner
    · rw [handles]
      exact hx.registered
    · rw [space]
      exact hx.space
  waiting := waiting

theorem Evicts.spares {es : List Nat} (h : Evicts es c c' p p') : Spares [] c c' p p' :=
  spares_of_same h.handle h.space h.handles h.loose h.kept h.waiting

section

variable (h : c.Settled limits p)
include h

theorem Settled.pending_samples {handle : Nat} (hp : c.Pending p a handle) (n : Nat) :
    a ∉ p.queues (n, .samples) := by
  intro hmem
  exact ((h.owned n a).mp hmem).2.not_loose hp.loose

theorem Settled.removeInstance {handle : Nat} (hsamples : p.queues (handle, .samples) = [])
    (hwaiting : ∀ n, p.queues (n, .waitingList) = []) :
    Settled limits { c with instances := c.instances.filter fun i => i.instanceHandle ≠ handle }
      p where
  sends := h.sends
  lists := h.lists
  known := h.known
  loose := h.loose
  handles := h.handles.sublist (List.filter_sublist.map _)
  keeps j hj q := h.keeps j (List.mem_of_mem_filter hj) q
  queues := h.queues
  queued := h.queued
  allocated := h.allocated
  owned := h.owned
  registered x hx := by
    obtain ⟨j, hj, hjx⟩ := exists_instance (h.registered x hx)
    have hne : j.instanceHandle ≠ handle := by
      intro heq
      have hmem := (h.owned handle x).mpr ⟨hjx.symm.trans heq, hx⟩
      simp [hsamples] at hmem
    exact List.mem_map.mpr ⟨j, List.mem_filter.mpr ⟨hj, by simpa using hne⟩, hjx⟩
  waits n x hx := by
    rw [hwaiting n] at hx
    simp at hx
  depth := h.depth
  accounted := h.accounted

theorem unregisterInstances_settled {hs : List Nat} (hsub : ∀ n ∈ hs, n ∈ c.handles)
    (hnodup : hs.Nodup) (hwaiting : ∀ n, p.queues (n, .waitingList) = []) :
    ∃ c' p', unregisterInstances hs c = some c' ∧ c'.Settled limits p' ∧
      (∀ x, p'.InUse x ↔ p.InUse x) ∧ (∀ n, p'.queues (n, .waitingList) = []) := by
  induction hs generalizing c p with
  | nil => exact ⟨c, p, rfl, h, fun _ => Iff.rfl, hwaiting⟩
  | cons handle hs ih =>
    obtain ⟨hnot, hnodup⟩ := List.nodup_cons.mp hnodup
    obtain ⟨ret, c₁, p₁, es, heq, h₁, hev, hempty⟩ := dispose_settled handle h
    have hwaiting₁ : ∀ n, p₁.queues (n, .waitingList) = [] :=
      fun n => (hev.waiting n).trans (hwaiting n)
    have h₂ := h₁.removeInstance (hempty (hsub handle (by simp))) hwaiting₁
    obtain ⟨c', p', heq', h', huse, hwaiting'⟩ := ih h₂ (by
      intro n hn
      have hmem : n ∈ c₁.handles := by
        rw [hev.handles]
        exact hsub n (by simp [hn])
      obtain ⟨j, hj, rfl⟩ := exists_instance hmem
      have hne : j.instanceHandle ≠ handle := fun heq => hnot (heq ▸ hn)
      exact List.mem_map.mpr ⟨j, List.mem_filter.mpr ⟨hj, by simpa using hne⟩, rfl⟩)
      hnodup hwaiting₁
    refine ⟨c', p', ?_, h', fun x => (huse x).trans (hev.inUse x), hwaiting'⟩
    simp only [unregisterInstances, heq, Option.bind_eq_bind, Option.bind_some]
    exact heq'

theorem unregisterAll_settled (hwaiting : ∀ n, p.queues (n, .waitingList) = []) :
    ∃ c' p', c.unregisterAll = some c' ∧ c'.Settled limits p' ∧
      (∀ x, p'.InUse x ↔ p.InUse x) ∧ (∀ n, p'.queues (n, .waitingList) = []) := by
  have hshut : Settled limits { c with shutdown := true } p := { h with }
  exact unregisterInstances_settled hshut (fun n hn => hn) h.handles hwaiting

theorem enqueue_settled {handle : Nat} (hp : c.Pending p a handle)
    (hfree : ∀ n, a ∉ p.queues (n, .waitingList))
    (hroom : (p.queues (handle, .samples)).length < limits.depth) :
    ∃ c' p', c.enqueue a handle = some c' ∧ c'.Settled limits p' ∧
      p'.lists = update p.lists .unsent (p.lists .unsent ++ [a]) ∧
      Spares [a] c c' p p' := by
  obtain ⟨i, hi, rfl⟩ := exists_instance hp.registered
  have hfree' : ∀ key, a ∉ p.queues key := by
    rintro ⟨n, q⟩
    cases q with
    | samples => exact h.pending_samples hp n
    | waitingList => exact hfree n
  obtain ⟨m, l, henq, h₁, hm⟩ := h.enqueueTail .unsent hp.known hp.loose
  obtain ⟨m', l', hfile, h₂, hm'⟩ := h₁.fileTail .samples hi hp.known hfree'
  have howner : m'.handle = c.elements.handle := hm'.handle.trans hm.handle
  have hhandles : ((c.setList m .unsent l).setInstance m' (i.setQueue .samples l')).handles =
      c.handles := setInstance_handles
  have hactive : ∀ x, (p.put .unsent a).Active x ↔ p.Active x ∨ x = a := by
    simp [Placement.Active, Placement.put]
    tauto
  refine ⟨(c.setList m .unsent l).setInstance m' (i.setQueue .samples l'),
    (p.put .unsent a).setQueue i.instanceHandle .samples
      (p.queues (i.instanceHandle, .samples) ++ [a]), ?_, ?_, rfl, ?_⟩
  · simp only [enqueue, h.getHandleInstance hi, henq, Option.bind_eq_bind, Option.bind_some]
    exact congrArg (Option.bind · _) hfile
  · refine { h₂ with owned := ?_, registered := ?_, waits := ?_, depth := ?_, accounted := ?_ }
    · intro n x
      show x ∈ update p.queues (i.instanceHandle, .samples) _ (n, .samples) ↔
        m'.handle x = n ∧ (p.put .unsent a).Active x
      rw [howner, hactive]
      rcases eq_or_ne n i.instanceHandle with rfl | hne
      · rw [update_self, List.mem_append, h.owned, List.mem_singleton]
        constructor
        · rintro (⟨hx, hx'⟩ | rfl)
          · exact ⟨hx, .inl hx'⟩
          · exact ⟨hp.owner, .inr rfl⟩
        · rintro ⟨hx, hx' | hx'⟩
          · exact .inl ⟨hx, hx'⟩
          · exact .inr hx'
      · rw [update_of_ne (by simp [hne]), h.owned]
        constructor
        · rintro ⟨hx, hx'⟩
          exact ⟨hx, .inl hx'⟩
        · rintro ⟨hx, hx' | rfl⟩
          · exact ⟨hx, hx'⟩
          · exact absurd (hx.symm.trans hp.owner) hne
    · intro x hx
      rw [setInstance_elements, howner, hhandles]
      rcases (hactive x).mp hx with hx | rfl
      · exact h.registered x hx
      · rw [hp.owner]
        exact hp.registered
    · intro n x hx
      have hx' : x ∈ p.queues (n, .waitingList) := by
        simpa [Placement.setQueue, Placement.put] using hx
      have hxa : x ≠ a := fun heq => hfree n (heq ▸ hx')
      rw [hhandles]
      exact ⟨(h.waits n x hx').1, (h.waits n x hx').2.put hxa⟩
    · intro n
      rcases eq_or_ne n i.instanceHandle with rfl | hne
      · simp only [Placement.setQueue, update_self, List.length_append,
          List.length_singleton]
        omega
      · simpa [Placement.setQueue, Placement.put, hne] using h.depth n
    · exact h.accounted
  · constructor
    · intro x n hx hpending
      have hxa : x ≠ a := by simpa using hx
      constructor
      · exact hpending.known
      · exact hpending.loose.put hxa
      · exact (congrFun howner x).trans hpending.owner
      · rw [hhandles]
        exact hpending.registered
      · exact (congrFun (hm'.space.trans hm.space) x).trans hpending.space
    · simp [Placement.setQueue, Placement.put]

end

theorem loose_pour {target source : SendState} (hne : target ≠ source) (x : Nat) :
    (p.pour target source).Loose x ↔ p.Loose x := by
  constructor
  · intro h state hmem
    rcases eq_or_ne state source with rfl | hs
    · exact h target (by simp [Placement.pour, hne, hmem])
    · apply h state
      rcases eq_or_ne state target with rfl | ht
      · simp [Placement.pour, hs, hmem]
      · simpa [Placement.pour, hs, ht] using hmem
  · intro h state hmem
    obtain ⟨state', hmem'⟩ := Placement.mem_of_pour hmem
    exact h state' hmem'

theorem Settled.transfer (h : c.Settled limits p) (holds : c'.Holds p')
    (queues : p'.queues = p.queues) (active : ∀ x, p'.Active x ↔ p.Active x)
    (loose : ∀ x, p.Loose x → p'.Loose x) (owner : c'.elements.handle = c.elements.handle)
    (handles : c'.handles = c.handles) (accounted : c'.Accounted) : c'.Settled limits p' := by
  refine { holds with
    owned := ?_, registered := ?_, waits := ?_, depth := ?_, accounted := accounted }
  · intro n x
    rw [queues, active, owner]
    exact h.owned n x
  · intro x hx
    rw [owner, handles]
    exact h.registered x ((active x).mp hx)
  · intro n x hx
    rw [queues] at hx
    rw [handles]
    exact ⟨(h.waits n x hx).1, loose x (h.waits n x hx).2⟩
  · intro n
    rw [queues]
    exact h.depth n

theorem Settled.pour (target source : SendState) (h : c.Settled limits p) (hne : target ≠ source)
    (hempty : p.lists target ≠ [] → p.lists source ≠ [])
    (active : ∀ x, (p.pour target source).Active x ↔ p.Active x) :
    ∃ m l, SendStateDataSampleList.enqueueTailList c.elements (c.lists target) (c.lists source) =
        some (m, l) ∧
      ((c.setList m target l).setList m source .empty).Settled limits (p.pour target source) ∧
      Spares [] c ((c.setList m target l).setList m source .empty) p (p.pour target source) ∧
      walk m.nextSendSample c.fuel (c.lists source).head = some (p.lists source) := by
  obtain ⟨m, l, heq, h', hm⟩ := h.toHolds.pour hne hempty
  refine ⟨m, l, heq, ?_, ?_, ?_⟩
  · exact h.transfer h' rfl active (fun x => (loose_pour hne x).mpr) hm.handle rfl h.accounted
  · apply spares_of_same
    · exact hm.handle
    · exact hm.space
    · rfl
    · exact fun x => (loose_pour hne x).mpr
    · exact fun x hx _ => hx
    · exact fun n => rfl
  · have hpath := (h'.sends target).forward
    rw [(h.sends source).head]
    apply walk_path
    · have hsplit : Path m.nextSendSample (p.lists target ++ p.lists source) none := by
        simpa [Placement.pour, hne] using hpath
      exact (path_append.mp hsplit).2
    · exact h.length_le source

theorem active_pour_sending (x : Nat) : (p.pour .sending .unsent).Active x ↔ p.Active x := by
  simp [Placement.Active, Placement.pour]
  tauto

theorem active_pour_released (x : Nat) : (p.pour .released .resend).Active x ↔ p.Active x := by
  simp [Placement.Active, Placement.pour]

theorem getUnsentData_settled (h : c.Settled limits p) (hne : p.lists .unsent ≠ []) :
    ∃ list c', c.getUnsentData = some (list, c') ∧
      c'.Settled limits (p.pour .sending .unsent) ∧
      Spares [] c c' p (p.pour .sending .unsent) ∧
      walk c'.elements.nextSendSample c'.fuel list.head = some (p.lists .unsent) := by
  obtain ⟨m, l, heq, h', hspares, hwalk⟩ :=
    h.pour .sending .unsent (by decide) (fun _ => hne) active_pour_sending
  exact ⟨_, _, by simp [getUnsentData, heq], h', hspares, hwalk⟩

theorem getResendData_settled (h : c.Settled limits p) :
    ∃ list c', c.getResendData = some (list, c') ∧
      c'.Settled limits (p.pour .released .resend) ∧
      Spares [] c c' p (p.pour .released .resend) ∧
      walk c'.elements.nextSendSample c'.fuel list.head = some (p.lists .resend) := by
  have hsize := (h.sends .resend).size
  by_cases hempty : p.lists .resend = []
  · have hzero : (c.lists .resend).size = 0 := by simpa [hempty] using hsize
    have hheader : c.lists .resend = .empty := by
      have hlist := (h.sends .resend).toAnchors
      rw [hempty] at hlist
      exact hlist.eq_empty
    have hsame : p.pour .released .resend = p := by
      rw [Placement.pour, hempty, List.append_nil, update_eq_self, ← hempty,
        update_eq_self]
    have hcontainer : c.setList c.elements .resend .empty = c := by
      rw [setList, ← hheader, update_eq_self]
    refine ⟨c.lists .resend, c, by simp [getResendData, hzero, hcontainer], ?_, ?_, ?_⟩
    · rwa [hsame]
    · rw [hsame]
      exact Evicts.refl.spares
    · rw [hempty, hheader]
      exact walk_path path_nil (Nat.zero_le _)
  · obtain ⟨m, l, heq, h', hspares, hwalk⟩ :=
      h.pour .released .resend (by decide) (fun _ => hempty) active_pour_released
    have hpos : (c.lists .resend).size ≠ 0 := by
      rw [hsize]
      simpa using hempty
    exact ⟨_, _, by simp [getResendData, hpos, heq], h', hspares, hwalk⟩

theorem released_not_active (h : c.Holds p) (hin : a ∈ p.lists .released) : ¬ p.Active a := by
  rintro (hin' | hin' | hin')
  · exact absurd (h.lists.unique hin hin') (by decide)
  · exact absurd (h.lists.unique hin hin') (by decide)
  · exact absurd (h.lists.unique hin hin') (by decide)

theorem Settled.free (h : c.Settled limits p) {state : SendState} (hin : a ∈ p.lists state)
    (hactive : ¬ p.Active a) (key : Nat × Queue) : a ∉ p.queues key := by
  intro hmem
  obtain ⟨n, q⟩ := key
  cases q with
  | samples => exact hactive ((h.owned n a).mp hmem).2
  | waitingList => exact (h.waits n a hmem).2 state hin

theorem release_settled (h : c.Settled limits p) (hin : a ∈ p.lists .released) :
    ∃ m l, SendStateDataSampleList.dequeue c.fuel c.elements (c.lists .released) a =
        some (true, m, l) ∧
      ((c.setList m .released l).releaseBuffer a).Settled limits (p.remove a) ∧
      Spares [] c ((c.setList m .released l).releaseBuffer a) p (p.remove a) := by
  obtain ⟨m, l, hdeq, h', hm⟩ := h.dequeue hin
  rw [Placement.take_eq_remove h.lists hin] at h'
  have hnot := released_not_active h.toHolds hin
  have hfree := h.free hin hnot
  have hgone : (p.remove a).Loose a := Placement.remove_loose h.lists
  have hloose : ∀ x, p.Loose x → (p.remove a).Loose x := by
    intro x hx state hmem
    exact hx state ((Placement.mem_remove h.lists).mp hmem).2
  refine ⟨m, l, hdeq, ?_, ?_⟩
  · apply h.transfer (h'.releaseBuffer hgone hfree) rfl
    · intro x
      rw [Placement.active_remove h.lists]
      constructor
      · exact fun hx => hx.2
      · intro hx
        exact ⟨fun heq => hnot (heq ▸ hx), hx⟩
    · exact hloose
    · exact hm.handle
    · rfl
    · apply Accounted.release
      · exact h.accounted
      · exact h'
      · exact h.known _ a hin
      · exact onNoList h' hgone (fun n => hfree (n, .samples))
  · apply spares_of_same
    · exact hm.handle
    · exact hm.space
    · rfl
    · exact hloose
    · intro x hx hx'
      have hxa : x ≠ a := fun heq => hx' _ (heq ▸ hin)
      exact (List.mem_erase_of_ne hxa).mpr hx
    · exact fun n => rfl

theorem relist_settled {state : SendState} (h : c.Settled limits p) (hin : a ∈ p.lists .sending)
    (hstate : state = .sent ∨ state = .unsent) :
    ∃ m l m' l', SendStateDataSampleList.dequeue c.fuel c.elements (c.lists .sending) a =
        some (true, m, l) ∧
      SendStateDataSampleList.enqueueTail m (c.lists state) a = some (m', l') ∧
      ((c.setList m .sending l).setList m' state l').Settled limits ((p.remove a).put state a) ∧
      Spares [] c ((c.setList m .sending l).setList m' state l') p ((p.remove a).put state a) ∧
      m.handle = c.elements.handle ∧ m'.handle = c.elements.handle := by
  obtain ⟨m, l, hdeq, h₁, hm⟩ := h.dequeue hin
  rw [Placement.take_eq_remove h.lists hin] at h₁
  have hgone : (p.remove a).Loose a := Placement.remove_loose h.lists
  obtain ⟨m', l', henq, h₂, hm'⟩ := h₁.enqueueTail state (h.known _ a hin) hgone
  have hother : (c.setList m .sending l).lists state = c.lists state := by
    rcases hstate with rfl | rfl <;> simp
  rw [hother] at henq
  have howner := hm'.handle.trans hm.handle
  have hloose : ∀ x, p.Loose x → ((p.remove a).put state a).Loose x := by
    intro x hx
    have hxa : x ≠ a := fun heq => hx _ (heq ▸ hin)
    apply Placement.Loose.put _ hxa
    intro s hmem
    exact hx s ((Placement.mem_remove h.lists).mp hmem).2
  refine ⟨m, l, m', l', hdeq, henq, ?_, ?_, hm.handle, howner⟩
  · apply h.transfer h₂ rfl
    · intro x
      have hput : ((p.remove a).put state a).Active x ↔ (p.remove a).Active x ∨ x = a := by
        rcases hstate with rfl | rfl
        · simp [Placement.Active, Placement.put]
          tauto
        · simp [Placement.Active, Placement.put]
          tauto
      have hactive : p.Active a := Or.inr (.inl hin)
      rw [hput, Placement.active_remove h.lists]
      constructor
      · rintro (⟨_, hx⟩ | rfl)
        · exact hx
        · exact hactive
      · intro hx
        by_cases hxa : x = a
        · exact .inr hxa
        · exact .inl ⟨hxa, hx⟩
    · exact hloose
    · exact howner
    · rfl
    · exact h.accounted
  · apply spares_of_same
    · exact howner
    · exact hm'.space.trans hm.space
    · rfl
    · exact hloose
    · exact fun x hx _ => hx
    · exact fun n => rfl

theorem discard_settled (h : c.Settled limits p) (hin : a ∈ p.lists .sending)
    (hi : i ∈ c.instances) (howner : c.elements.handle a = i.instanceHandle) :
    ∃ m l m' l', SendStateDataSampleList.dequeue c.fuel c.elements (c.lists .sending) a =
        some (true, m, l) ∧
      InstanceDataSampleList.dequeue c.fuel m i.samples a = some (true, m', l') ∧
      (((c.setList m .sending l).setInstance m' (i.setQueue .samples l')).releaseBuffer a).Settled
        limits ((p.remove a).unfile i.instanceHandle a) ∧
      Spares [] c
        (((c.setList m .sending l).setInstance m' (i.setQueue .samples l')).releaseBuffer a)
        p ((p.remove a).unfile i.instanceHandle a) ∧
      m.handle = c.elements.handle := by
  have hmem : a ∈ p.queues (i.instanceHandle, .samples) :=
    (h.owned _ a).mpr ⟨howner, .inr (.inl hin)⟩
  obtain ⟨m, l, hdeq, h₁, hm⟩ := h.dequeue hin
  rw [Placement.take_eq_remove h.lists hin] at h₁
  obtain ⟨m', l', hunfile, h₂, hm'⟩ := h₁.unfile hi hmem
  have hgone : ((p.remove a).unfile i.instanceHandle a).Loose a := Placement.remove_loose h.lists
  have hfree : ∀ key, a ∉ ((p.remove a).unfile i.instanceHandle a).queues key :=
    Placement.notMem_unfile h₁.queues hmem
  have hloose : ∀ x, p.Loose x → ((p.remove a).unfile i.instanceHandle a).Loose x := by
    intro x hx state hin'
    exact hx state ((Placement.mem_remove h.lists).mp hin').2
  have hhandles : (((c.setList m .sending l).setInstance m'
      (i.setQueue .samples l')).releaseBuffer a).handles = c.handles := setInstance_handles (m := m')
  refine ⟨m, l, m', l', hdeq, hunfile, ?_, ?_, hm.handle⟩
  · apply h.of_removed hmem (h₂.releaseBuffer hgone hfree) rfl
    · intro x
      exact Placement.active_remove h.lists
    · exact hloose
    · exact hm'.handle.trans hm.handle
    · exact hhandles
    · apply Accounted.release
      · exact h.accounted
      · exact h₂
      · exact h.known _ a hin
      · exact onNoList h₂ hgone (fun n => hfree (n, .samples))
  · apply spares_of_same
    · exact hm'.handle.trans hm.handle
    · exact hm'.space.trans hm.space
    · exact hhandles
    · exact hloose
    · intro x hx hx'
      have hxa : x ≠ a := fun heq => hx' _ (heq ▸ hin)
      exact (List.mem_erase_of_ne hxa).mpr hx
    · simp [Placement.remove]

/-- What the transport gives back is no longer in use; the list of its instance does not
grow and, unless the sample is dropped, nor does `unsent_data_`. -/
structure GivesBack (a : Nat) (p p' : Placement) : Prop where
  inUse : ∀ x, p'.InUse x ↔ p.InUse x ∧ x ≠ a
  samples : ∀ n, (p'.queues (n, .samples)).length ≤ (p.queues (n, .samples)).length
  sending : p'.lists .sending = (p.lists .sending).erase a
  unsent : p'.lists .unsent = p.lists .unsent ∨ p'.lists .unsent = p.lists .unsent ++ [a]

theorem GivesBack.of_lists (h : Apart p.lists)
    (sending : p'.lists .sending = (p.lists .sending).erase a)
    (released : p'.lists .released = (p.lists .released).erase a)
    (samples : ∀ n, (p'.queues (n, .samples)).length ≤ (p.queues (n, .samples)).length)
    (unsent : p'.lists .unsent = p.lists .unsent ∨ p'.lists .unsent = p.lists .unsent ++ [a]) :
    GivesBack a p p' where
  inUse x := by
    rw [Placement.InUse, Placement.InUse, sending, released, (h.nodup _).mem_erase_iff, (h.nodup _).mem_erase_iff]
    tauto
  samples := samples
  sending := sending
  unsent := unsent

theorem dataDelivered_settled (h : c.Settled limits p) (huse : p.InUse a) :
    ∃ c' p', c.dataDelivered a = some c' ∧ c'.Settled limits p' ∧ Spares [] c c' p p' ∧
      GivesBack a p p' ∧ p'.lists .unsent = p.lists .unsent := by
  by_cases hreleased : a ∈ p.lists .released
  · obtain ⟨m, l, hdeq, h', hspares⟩ := release_settled h hreleased
    have hunsent : (p.remove a).lists .unsent = p.lists .unsent := by
      apply List.erase_of_not_mem
      intro hin
      exact absurd (h.lists.unique hin hreleased) (by decide)
    refine ⟨_, _, by simp [dataDelivered, hdeq], h', hspares, ?_, hunsent⟩
    exact GivesBack.of_lists h.lists rfl rfl (fun n => Nat.le_refl _) (.inl hunsent)
  · have hin : a ∈ p.lists .sending := by
      rcases huse with hin | hin
      · exact hin
      · exact absurd hin hreleased
    have habsent := h.dequeue_absent hreleased
    obtain ⟨i, hi, hia⟩ := exists_instance (h.registered a (.inr (.inl hin)))
    have hfind := h.getHandleInstance hi
    have hunsent : (p.lists .unsent).erase a = p.lists .unsent := by
      apply List.erase_of_not_mem
      intro hin'
      exact absurd (h.lists.unique hin hin') (by decide)
    by_cases hwaiting : i.waitingList.head = none
    · obtain ⟨m, l, m', l', hdeq, henq, h', hspares, howner, howner'⟩ :=
        relist_settled h hin (.inl rfl)
      have hfind' : (c.setList m .sending l).getHandleInstance (m.handle a) = some i := by
        rw [howner, ← hia]
        exact hfind
      have hwake : ((c.setList m .sending l).setList m' .sent l').wakeupBlockingWriters (some a)
          i.instanceHandle = some ((c.setList m .sending l).setList m' .sent l') := by
        rw [wakeupBlockingWriters]
        simp only [show ((c.setList m .sending l).setList m' .sent l').getHandleInstance
          i.instanceHandle = some i from hfind, Option.bind_eq_bind, Option.bind_some, hwaiting]
      refine ⟨_, _, ?_, h', hspares, ?_, ?_⟩
      · simp [dataDelivered, habsent, hdeq, hfind', hwaiting, henq, hwake]
      · apply GivesBack.of_lists h.lists
        · rfl
        · simp [Placement.put, Placement.remove]
        · exact fun n => Nat.le_refl _
        · left
          simpa [Placement.put, Placement.remove] using hunsent
      · simpa [Placement.put, Placement.remove] using hunsent
    · obtain ⟨m, l, m', l', hdeq, hunfile, h', hspares, howner⟩ :=
        discard_settled h hin hi hia.symm
      have hfind' : (c.setList m .sending l).getHandleInstance (m.handle a) = some i := by
        rw [howner, ← hia]
        exact hfind
      refine ⟨_, _, ?_, h', hspares, ?_, hunsent⟩
      · have hunfile' : InstanceDataSampleList.dequeue (c.setList m .sending l).fuel m i.samples a =
            some (true, m', l') := hunfile
        simp [dataDelivered, habsent, hdeq, hfind', hwaiting, hunfile']
        rfl
      · apply GivesBack.of_lists h.lists
        · rfl
        · rfl
        · intro n
          rw [Placement.unfile_samples (p := p.remove a) h.queues ((h.owned _ a).mpr ⟨hia.symm, .inr (.inl hin)⟩)]
          exact List.length_filter_le _ _
        · exact .inl hunsent

theorem dataDropped_settled (droppedByTransport : Bool) (h : c.Settled limits p)
    (huse : p.InUse a) :
    ∃ c' p', c.dataDropped a droppedByTransport = some c' ∧ c'.Settled limits p' ∧
      Spares [] c c' p p' ∧ GivesBack a p p' := by
  cases droppedByTransport with
  | true =>
    obtain ⟨c', p', heq, h', hspares, hback, -⟩ := dataDelivered_settled h huse
    exact ⟨c', p', by simpa [dataDropped] using heq, h', hspares, hback⟩
  | false =>
    by_cases hin : a ∈ p.lists .sending
    · obtain ⟨m, l, m', l', hdeq, henq, h', hspares, howner, howner'⟩ :=
        relist_settled h hin (.inr rfl)
      have hunsent : (p.lists .unsent).erase a = p.lists .unsent := by
        apply List.erase_of_not_mem
        intro hin'
        exact absurd (h.lists.unique hin hin') (by decide)
      refine ⟨_, _, by simp [dataDropped, hdeq, henq, wakeupBlockingWriters], h', hspares, ?_⟩
      apply GivesBack.of_lists h.lists
      · simp [Placement.put, Placement.remove]
      · simp [Placement.put, Placement.remove]
      · exact fun n => Nat.le_refl _
      · right
        simp [Placement.put, Placement.remove, hunsent]
    · have hreleased : a ∈ p.lists .released := by
        rcases huse with hin' | hin'
        · exact absurd hin' hin
        · exact hin'
      obtain ⟨m, l, hdeq, h', hspares⟩ := release_settled h hreleased
      have hsame : c.setList c.elements .sending (c.lists .sending) = c := by
        rw [setList, update_eq_self]
      refine ⟨_, _, ?_, h', hspares, ?_⟩
      · simp [dataDropped, h.dequeue_absent hin, hsame, hdeq, wakeupBlockingWriters]
      · apply GivesBack.of_lists h.lists
        · rfl
        · rfl
        · exact fun n => Nat.le_refl _
        · left
          apply List.erase_of_not_mem
          intro hin'
          exact absurd (h.lists.unique hin' hreleased) (by decide)

theorem perm_bind (below : PublicationInstance → Bool) (new : PublicationInstance) :
    (c.instances.takeWhile below ++ new :: c.instances.dropWhile below).Perm
      (new :: c.instances) := by
  have hmiddle : (c.instances.takeWhile below ++ new :: c.instances.dropWhile below).Perm
      (new :: (c.instances.takeWhile below ++ c.instances.dropWhile below)) := List.perm_middle
  rwa [List.takeWhile_append_dropWhile] at hmiddle

theorem Settled.bind {next : Nat} {instances : List PublicationInstance} (h : c.Settled limits p)
    (fresh : next ∉ c.handles)
    (perm : instances.Perm (⟨next, .empty, .empty⟩ :: c.instances)) :
    Settled limits { c with instances } p ∧ Spares [] c { c with instances } p p := by
  have hhandles : (instances.map (·.instanceHandle)).Perm (next :: c.handles) := perm.map _
  have hold : ∀ n ∈ c.handles, n ∈ instances.map (·.instanceHandle) :=
    fun n hn => hhandles.mem_iff.mpr (List.mem_cons_of_mem _ hn)
  have hempty : ∀ q, p.queues (next, q) = [] := by
    intro q
    apply List.eq_nil_iff_forall_not_mem.mpr
    intro x hx
    apply fresh
    cases q with
    | samples =>
      obtain ⟨howner, hactive⟩ := (h.owned next x).mp hx
      exact howner ▸ h.registered x hactive
    | waitingList => exact (h.waits next x hx).1
  constructor
  · constructor
    · constructor
      · exact h.sends
      · exact h.lists
      · exact h.known
      · exact h.loose
      · exact hhandles.nodup_iff.mpr (List.nodup_cons.mpr ⟨fresh, h.handles⟩)
      · intro i hi q
        rcases List.mem_cons.mp (perm.mem_iff.mp hi) with rfl | hi
        · rw [hempty q]
          constructor
          · cases q <;> constructor <;> rfl
          · trivial
        · exact h.keeps i hi q
      · exact h.queues
      · exact h.queued
      · exact h.allocated
    · exact h.owned
    · exact fun x hx => hold _ (h.registered x hx)
    · exact fun n x hx => ⟨hold n (h.waits n x hx).1, (h.waits n x hx).2⟩
    · exact h.depth
    · exact h.accounted
  · constructor
    · intro x n _ hx
      exact { hx with registered := hold n hx.registered }
    · exact fun n => rfl

theorem registerInstance_settled (given : Option Nat) (next : Nat) (h : c.Settled limits p) :
    (c.registerInstance limits given next).2.Settled limits p ∧
      Spares [] c (c.registerInstance limits given next).2 p p := by
  have hsame : Spares [] c c p p := Evicts.refl.spares
  cases given with
  | some handle => exact ⟨h, hsame⟩
  | none =>
    simp only [registerInstance]
    split_ifs with hlimit hbound
    · exact ⟨h, hsame⟩
    · exact ⟨h, hsame⟩
    · apply h.bind _ (perm_bind _ _)
      intro hin
      obtain ⟨i, hi, rfl⟩ := exists_instance hin
      simp [h.getHandleInstance hi] at hbound

end OpenDDS.Source.Container
