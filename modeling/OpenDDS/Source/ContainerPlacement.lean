import OpenDDS.Source.ContainerLists

/-!
# Where the samples of a container are

`Settled` is what every operation of the container keeps: its lists are as a placement
says, the samples of an instance are those of its elements that are unsent, being sent
or sent, an element that waits for space is on no send-state list, and each call of
`release_buffer` had an element in use that was on no list.
-/
namespace OpenDDS.Source

open Library.LinkedList

/-- No walk along a send-state list or the samples of an instance meets the element. -/
def Store.OnNoList (c : Store) (a : Nat) : Prop :=
  (∀ state, ¬ Reaches c.elements.nextSendSample (c.lists state).head a) ∧
  ∀ i ∈ c.instances, ¬ Reaches c.elements.nextInstanceSample i.samples.head a

/-- Each element passed to `release_buffer` was in use, that is handed out and not released
since, and on none of the lists. -/
def Container.Accounted (c : Container) : Prop :=
  ∀ r ∈ c.releases, r.1 ∈ r.2.allocated ∧ r.2.allocated.Nodup ∧ r.2.OnNoList r.1

def Container.handles (c : Container) : List Nat := c.instances.map (·.instanceHandle)

namespace Placement

/-- The samples of an instance are those on these three lists. -/
def Active (p : Placement) (a : Nat) : Prop :=
  a ∈ p.lists .unsent ∨ a ∈ p.lists .sending ∨ a ∈ p.lists .sent

/-- The transport has the samples on `sending_data_` and `released_data_`. -/
def InUse (p : Placement) (a : Nat) : Prop := a ∈ p.lists .sending ∨ a ∈ p.lists .released

def remove (p : Placement) (a : Nat) : Placement :=
  { p with lists := fun state => (p.lists state).erase a }

/-- Where `remove_oldest_sample` leaves an active sample. -/
def retire (p : Placement) (a : Nat) : Placement :=
  if a ∈ p.lists .sending then (p.remove a).put .released a else p.remove a

variable {p : Placement} {a x : Nat} {state : SendState}

theorem take_eq_remove (h : Apart p.lists) (hmem : a ∈ p.lists state) :
    p.take state a = p.remove a := by
  unfold take remove
  congr 1
  funext s
  rcases eq_or_ne s state with rfl | hne
  · simp
  · rw [Function.update_of_ne hne, List.erase_of_not_mem]
    intro hin
    exact hne (h.unique hin hmem)

theorem mem_remove (h : Apart p.lists) : x ∈ (p.remove a).lists state ↔ x ≠ a ∧ x ∈ p.lists state :=
  (h.nodup state).mem_erase_iff

theorem remove_loose (h : Apart p.lists) : (p.remove a).Loose a := by
  intro state hmem
  exact ((mem_remove h).mp hmem).1 rfl

theorem active_remove (h : Apart p.lists) : (p.remove a).Active x ↔ x ≠ a ∧ p.Active x := by
  simp only [Active, mem_remove h]
  tauto

@[simp] theorem retire_queues : (p.retire a).queues = p.queues := by
  unfold retire
  split_ifs <;> rfl

theorem mem_retire (h : Apart p.lists) (hstate : state ≠ .released) :
    x ∈ (p.retire a).lists state ↔ x ≠ a ∧ x ∈ p.lists state := by
  unfold retire
  split_ifs
  · rw [← mem_remove h]
    simp [put, hstate]
  · exact mem_remove h

theorem mem_retire_released (h : Apart p.lists) (hactive : p.Active a) :
    x ∈ (p.retire a).lists .released ↔ x ∈ p.lists .released ∨ (x = a ∧ a ∈ p.lists .sending) := by
  have hne : x ∈ p.lists .released → x ≠ a := by
    rintro hx rfl
    rcases hactive with hin | hin | hin
    · exact absurd (h.unique hx hin) (by decide)
    · exact absurd (h.unique hx hin) (by decide)
    · exact absurd (h.unique hx hin) (by decide)
  unfold retire
  split_ifs with hin
  · simp only [put, Function.update_self, List.mem_append, List.mem_singleton, mem_remove h]
    tauto
  · rw [mem_remove h]
    tauto

theorem retire_lists (h : Apart p.lists) (hstate : state ≠ .released) :
    (p.retire a).lists state = (p.lists state).filter (· ∉ [a]) := by
  have herase := (h.nodup state).erase_eq_filter a
  have hfilter : (p.lists state).filter (· ∉ [a]) = (p.lists state).filter (· != a) := by
    simp [bne, BEq.beq, decide_not]
  rw [hfilter, ← herase]
  unfold retire
  split_ifs
  · simp [put, hstate, remove]
  · rfl

theorem active_retire (h : Apart p.lists) : (p.retire a).Active x ↔ x ≠ a ∧ p.Active x := by
  simp only [Active, mem_retire h (show SendState.unsent ≠ .released by decide),
    mem_retire h (show SendState.sending ≠ .released by decide),
    mem_retire h (show SendState.sent ≠ .released by decide)]
  tauto

def unfile (p : Placement) (handle a : Nat) : Placement :=
  p.setQueue handle .samples ((p.queues (handle, .samples)).erase a)

@[simp] theorem unfile_waiting {handle n : Nat} :
    (p.unfile handle a).queues (n, .waitingList) = p.queues (n, .waitingList) := by
  simp [unfile, setQueue]

theorem unfile_samples {handle : Nat} (h : Apart p.queues) (hmem : a ∈ p.queues (handle, .samples))
    (n : Nat) : (p.unfile handle a).queues (n, .samples) =
      (p.queues (n, .samples)).filter (· ∉ [a]) := by
  rcases eq_or_ne n handle with rfl | hne
  · simp only [unfile, setQueue, Function.update_self]
    rw [(h.nodup _).erase_eq_filter]
    simp [bne, BEq.beq, decide_not]
  · have hkey : (n, Queue.samples) ≠ (handle, .samples) := by simp [hne]
    simp only [unfile, setQueue, Function.update_of_ne hkey]
    symm
    apply List.filter_eq_self.mpr
    intro x hx
    have hxa : x ≠ a := by
      rintro rfl
      exact hne (by simpa using h.unique hx hmem)
    simpa using hxa

theorem notMem_unfile {handle : Nat} (h : Apart p.queues) (hmem : a ∈ p.queues (handle, .samples))
    (key : Nat × Queue) : a ∉ (p.unfile handle a).queues key := by
  intro hin
  obtain ⟨n, q⟩ := key
  cases q with
  | samples =>
    rw [unfile_samples h hmem] at hin
    simp at hin
  | waitingList =>
    rw [unfile_waiting] at hin
    exact absurd (h.unique hin hmem) (by simp)

theorem Active.not_loose (h : p.Active a) : ¬ p.Loose a := by
  intro hloose
  rcases h with h | h | h
  · exact hloose _ h
  · exact hloose _ h
  · exact hloose _ h

end Placement

structure Container.Settled (limits : ContainerLimits) (c : Container) (p : Placement) : Prop
    extends c.Holds p where
  owned : ∀ handle a, a ∈ p.queues (handle, .samples) ↔ c.elements.handle a = handle ∧ p.Active a
  registered : ∀ a, p.Active a → c.elements.handle a ∈ c.handles
  waits : ∀ handle, ∀ a ∈ p.queues (handle, .waitingList), handle ∈ c.handles ∧ p.Loose a
  depth : ∀ handle, (p.queues (handle, .samples)).length ≤ limits.depth
  accounted : c.Accounted

/-- The samples `evicted` leave their instances: those the transport still uses move from
`sending_data_` to `released_data_`. -/
structure Placement.Sheds (evicted : List Nat) (p p' : Placement) : Prop where
  samples : ∀ handle, p'.queues (handle, .samples) =
    (p.queues (handle, .samples)).filter (· ∉ evicted)
  sending : p'.lists .sending = (p.lists .sending).filter (· ∉ evicted)
  released : ∀ a, a ∈ p'.lists .released ↔
    a ∈ p.lists .released ∨ (a ∈ evicted ∧ a ∈ p.lists .sending)
  unsent : p'.lists .unsent = (p.lists .unsent).filter (· ∉ evicted)

namespace Placement.Sheds

variable {p p' p'' : Placement} {es es' : List Nat}

theorem refl : Sheds [] p p := by
  constructor <;> simp

theorem filter_filter (xs : List Nat) :
    (xs.filter (· ∉ es)).filter (· ∉ es') = xs.filter (· ∉ es ++ es') := by
  simp [Bool.and_comm]

theorem trans (h : Sheds es p p') (h' : Sheds es' p' p'') : Sheds (es ++ es') p p'' where
  samples n := by rw [h'.samples, h.samples, filter_filter]
  sending := by rw [h'.sending, h.sending, filter_filter]
  released a := by
    rw [h'.released, h.released, h.sending]
    simp only [List.mem_filter, List.mem_append, decide_eq_true_eq]
    tauto
  unsent := by rw [h'.unsent, h.unsent, filter_filter]

theorem inUse (h : Sheds es p p') (a : Nat) : p'.InUse a ↔ p.InUse a := by
  rw [InUse, InUse, h.sending, h.released]
  simp only [List.mem_filter, decide_eq_true_eq]
  tauto

end Placement.Sheds

structure Container.Evicts (evicted : List Nat) (c c' : Container) (p p' : Placement) : Prop
    extends Placement.Sheds evicted p p' where
  handle : c'.elements.handle = c.elements.handle
  space : c'.elements.spaceAvailable = c.elements.spaceAvailable
  handles : c'.handles = c.handles
  shutdown : c'.shutdown = c.shutdown
  waiting : ∀ handle, p'.queues (handle, .waitingList) = p.queues (handle, .waitingList)
  loose : ∀ a, p.Loose a → p'.Loose a
  kept : ∀ a ∈ c.allocated, p.Loose a → a ∈ c'.allocated
  known : ∀ a ∈ c'.allocated, a ∈ c.allocated

namespace Container

variable {limits : ContainerLimits} {c c' c'' : Container} {p p' p'' : Placement} {a : Nat}
  {i : PublicationInstance} {xs : List Nat}

theorem Evicts.refl : Evicts [] c c p p where
  toSheds := Placement.Sheds.refl
  handle := rfl
  space := rfl
  handles := rfl
  shutdown := rfl
  waiting _ := rfl
  loose _ h := h
  kept _ h _ := h
  known _ h := h

theorem Evicts.trans {es es' : List Nat} (h : Evicts es c c' p p') (h' : Evicts es' c' c'' p' p'') :
    Evicts (es ++ es') c c'' p p'' where
  toSheds := h.toSheds.trans h'.toSheds
  handle := h'.handle.trans h.handle
  space := h'.space.trans h.space
  handles := h'.handles.trans h.handles
  shutdown := h'.shutdown.trans h.shutdown
  waiting n := (h'.waiting n).trans (h.waiting n)
  loose a ha := h'.loose a (h.loose a ha)
  kept a ha hloose := h'.kept a (h.kept a ha hloose) (h.loose a hloose)
  known a ha := h.known a (h'.known a ha)

theorem onNoList (h : c.Holds p) (hloose : p.Loose a)
    (hfree : ∀ handle, a ∉ p.queues (handle, .samples)) : c.OnNoList a := by
  constructor
  · intro state hreach
    rw [(h.sends state).head, reaches_iff (h.sends state).forward] at hreach
    exact hloose state hreach
  · intro i hi hreach
    have hkeeps := h.keeps i hi .samples
    have hhead : i.samples.head = (p.queues (i.instanceHandle, .samples)).head? := hkeeps.head
    rw [hhead, reaches_iff hkeeps.forward] at hreach
    exact hfree _ hreach

theorem Accounted.release (h : c.Accounted) (holds : c.Holds p) (hmem : a ∈ c.allocated)
    (hnone : c.OnNoList a) : (c.releaseBuffer a).Accounted := by
  intro r hr
  rcases List.mem_append.mp hr with hr | hr
  · exact h r hr
  · rw [List.mem_singleton.mp hr]
    exact ⟨hmem, holds.allocated, hnone⟩

theorem listContaining_spec {state : SendState} (h : c.Holds p)
    (hstate : state = .sending ∨ state = .sent ∨ state = .unsent) (hmem : a ∈ p.lists state) :
    SendStateDataSampleList.listContaining c.fuel c.elements a
      [(SendState.sending, c.lists .sending), (.sent, c.lists .sent), (.unsent, c.lists .unsent)] =
      some (some state) := by
  have hwalk := SendStateDataSampleList.lastFrom_previous (h.sends state) hmem (h.length_le state)
  obtain ⟨head, hhead⟩ : ∃ head, (p.lists state).head? = some head := by
    cases hl : p.lists state with
    | nil => simp [hl] at hmem
    | cons x xs => exact ⟨x, rfl⟩
  have hin : head ∈ p.lists state := List.mem_of_head? hhead
  have hself : (c.lists state).head = some head := (h.sends state).head.trans hhead
  have hother : ∀ s, s ≠ state → (c.lists s).head ≠ some head := by
    intro s hne heq
    rw [(h.sends s).head] at heq
    exact hne (h.lists.unique (List.mem_of_head? heq) hin)
  rw [SendStateDataSampleList.listContaining, hwalk, hhead]
  rcases hstate with rfl | rfl | rfl
  · simp [hself]
  · simp [hself, hother .sending (by decide)]
  · simp [hself, hother .sending (by decide), hother .sent (by decide)]

theorem Settled.of_removed {handle : Nat} (h : c.Settled limits p)
    (hmem : a ∈ p.queues (handle, .samples)) (holds : c'.Holds p')
    (queues : p'.queues = (p.unfile handle a).queues)
    (active : ∀ x, p'.Active x ↔ x ≠ a ∧ p.Active x) (loose : ∀ x, p.Loose x → p'.Loose x)
    (owner : c'.elements.handle = c.elements.handle) (handles : c'.handles = c.handles)
    (accounted : c'.Accounted) : c'.Settled limits p' := by
  refine { holds with
    owned := ?_, registered := ?_, waits := ?_, depth := ?_, accounted := accounted }
  · intro n x
    rw [owner, active, queues, Placement.unfile_samples h.queues hmem, List.mem_filter, h.owned]
    simp only [List.mem_singleton, decide_eq_true_eq]
    tauto
  · intro x hx
    rw [owner, handles]
    exact h.registered x ((active x).mp hx).2
  · intro n x hx
    rw [queues, Placement.unfile_waiting] at hx
    obtain ⟨h₁, h₂⟩ := h.waits n x hx
    rw [handles]
    exact ⟨h₁, loose x h₂⟩
  · intro n
    rw [queues, Placement.unfile_samples h.queues hmem]
    exact Nat.le_trans (List.length_filter_le _ _) (h.depth n)

theorem removeStale_spec {state : SendState} (released : Bool) (h : c.Holds p)
    (hstate : state = .sending ∨ state = .sent ∨ state = .unsent) (hin : a ∈ p.lists state)
    (hfree : ∀ key, a ∉ p.queues key) (haccounted : c.Accounted) :
    ∃ c', c.removeStale a released (some state) = some (.ok, decide (a ∉ p.lists .sending), c') ∧
      c'.Holds (p.retire a) ∧ c'.Accounted ∧
      c'.elements.handle = c.elements.handle ∧
      c'.elements.spaceAvailable = c.elements.spaceAvailable ∧
      c'.instances = c.instances ∧ c'.shutdown = c.shutdown ∧
      (∀ x ∈ c.allocated, x ≠ a → x ∈ c'.allocated) ∧
      ∀ x ∈ c'.allocated, x ∈ c.allocated := by
  have hknown := h.known state a hin
  obtain ⟨m, l, hdeq, h', hm⟩ := h.dequeue hin
  rw [Placement.take_eq_remove h.lists hin] at h'
  have hloose : (p.remove a).Loose a := Placement.remove_loose h.lists
  rcases eq_or_ne state .sending with rfl | hne
  · obtain ⟨m', l', henq, h'', hm'⟩ := h'.enqueueTail .released hknown hloose
    refine ⟨(c.setList m .sending l).setList m' .released l', ?_, ?_, haccounted,
      hm'.handle.trans hm.handle, hm'.space.trans hm.space, rfl, rfl, fun x hx _ => hx,
      fun x hx => hx⟩
    · simp only [removeStale, hdeq, Option.bind_eq_bind, Option.bind_some, hin, not_true_eq_false,
        decide_false]
      exact congrArg (Option.bind · _) henq
    · rw [Placement.retire, if_pos hin]
      exact h''
  · have hsending : a ∉ p.lists .sending := fun hin' => hne (h.lists.unique hin hin')
    refine ⟨(c.setList m state l).releaseBuffer a, ?_, ?_, ?_, hm.handle, hm.space, rfl, rfl,
      fun x hx hxa => (List.mem_erase_of_ne hxa).mpr hx, fun x hx => List.mem_of_mem_erase hx⟩
    · rcases hstate with rfl | rfl | rfl
      · exact absurd rfl hne
      · simp [removeStale, hdeq, hsending]
      · simp [removeStale, hdeq, hsending]
    · rw [Placement.retire, if_neg hsending]
      exact h'.releaseBuffer hloose hfree
    · apply Accounted.release (p := p.remove a)
      · exact haccounted
      · exact h'
      · exact hknown
      · exact onNoList h' hloose (fun n => hfree (n, .samples))

theorem removeOldestSample_spec (released : Bool) (h : c.Settled limits p) (hi : i ∈ c.instances)
    (hxs : p.queues (i.instanceHandle, .samples) = a :: xs) :
    ∃ c' p', c.removeOldestSample i.instanceHandle released =
        some (.ok, decide (a ∉ p.lists .sending), c') ∧
      c'.Settled limits p' ∧ Evicts [a] c c' p p' := by
  have hfind := h.getHandleInstance hi
  have hhead : i.samples.head = some a := by
    have hkeeps := (h.keeps i hi .samples).head
    rwa [hxs] at hkeeps
  have hmem : a ∈ p.queues (i.instanceHandle, .samples) := by simp [hxs]
  obtain ⟨howner, hactive⟩ := (h.owned _ a).mp hmem
  have hqueue : p.setQueue i.instanceHandle .samples xs = p.unfile i.instanceHandle a := by
    rw [Placement.unfile, hxs, List.erase_cons_head]
  obtain ⟨m, l, hunfile, h₁, hm⟩ := h.unfileHead hi hxs
  rw [hqueue] at h₁
  have hcase : ∃ state, (state = .sending ∨ state = .sent ∨ state = .unsent) ∧
      a ∈ p.lists state := by
    rcases hactive with hin | hin | hin
    · exact ⟨.unsent, by simp, hin⟩
    · exact ⟨.sending, by simp, hin⟩
    · exact ⟨.sent, by simp, hin⟩
  obtain ⟨state, hstate, hin⟩ := hcase
  have hequation : c.removeOldestSample i.instanceHandle released =
      (c.setInstance m (i.setQueue .samples l)).removeStale a released (some state) := by
    simp only [removeOldestSample, hfind, hhead, Option.bind_eq_bind, Option.bind_some,
      show InstanceDataSampleList.dequeueHead c.elements i.samples = _ from hunfile]
    exact congrArg (Option.bind · _) (listContaining_spec h₁ hstate hin)
  obtain ⟨c', heq, h', haccounted, howners, hspace, hinstances, hshutdown, hkept,
      hknown⟩ := removeStale_spec released h₁ hstate hin
    (Placement.notMem_unfile h.queues hmem) h.accounted
  have hactive₁ : (p.unfile i.instanceHandle a).Active a := hactive
  have howner' := howners.trans hm.handle
  have hhandles : c'.handles = c.handles := by
    rw [handles, hinstances]
    exact setInstance_handles
  have hloose : ∀ x, p.Loose x → ((p.unfile i.instanceHandle a).retire a).Loose x := by
    intro x hx s hmem'
    rcases eq_or_ne s .released with rfl | hs
    · rcases (Placement.mem_retire_released h₁.lists hactive₁).mp hmem' with hmem' | ⟨rfl, hmem'⟩
      · exact hx _ hmem'
      · exact hx _ hmem'
    · exact hx s ((Placement.mem_retire h₁.lists hs).mp hmem').2
  refine ⟨c', (p.unfile i.instanceHandle a).retire a, hequation.trans heq, ?_, ?_⟩
  · apply h.of_removed hmem h'
    · exact Placement.retire_queues
    · exact fun x => Placement.active_retire h.lists
    · exact hloose
    · exact howner'
    · exact hhandles
    · exact haccounted
  · constructor
    · constructor
      · intro n
        rw [Placement.retire_queues]
        exact Placement.unfile_samples h.queues hmem n
      · exact Placement.retire_lists h.lists (by decide)
      · intro x
        rw [Placement.mem_retire_released h₁.lists hactive₁, List.mem_singleton]
        constructor
        · rintro (hx | ⟨rfl, hx⟩)
          · exact .inl hx
          · exact .inr ⟨rfl, hx⟩
        · rintro (hx | ⟨rfl, hx⟩)
          · exact .inl hx
          · exact .inr ⟨rfl, hx⟩
      · exact Placement.retire_lists h.lists (by decide)
    · exact howner'
    · exact hspace.trans hm.space
    · exact hhandles
    · exact hshutdown
    · simp
    · exact hloose
    · intro x hx hx'
      apply hkept x hx
      rintro rfl
      exact hactive.not_loose hx'
    · exact hknown

theorem exists_instance {handle : Nat} (h : handle ∈ c.handles) :
    ∃ i ∈ c.instances, i.instanceHandle = handle :=
  List.mem_map.mp h

theorem removeOldestSample_settled {handle : Nat} (released : Bool) (h : c.Settled limits p)
    (hhandle : handle ∈ c.handles) :
    ∃ ret released' c' p' es, c.removeOldestSample handle released = some (ret, released', c') ∧
      c'.Settled limits p' ∧ Evicts es c c' p p' := by
  obtain ⟨i, hi, rfl⟩ := exists_instance hhandle
  cases hxs : p.queues (i.instanceHandle, .samples) with
  | nil =>
    have hhead : i.samples.head = none := by
      have hkeeps := (h.keeps i hi .samples).head
      rwa [hxs] at hkeeps
    refine ⟨.error, released, c, p, [], ?_, h, Evicts.refl⟩
    simp [removeOldestSample, h.getHandleInstance hi, hhead]
  | cons a xs =>
    obtain ⟨c', p', heq, h', hevicts⟩ := removeOldestSample_spec released h hi hxs
    exact ⟨.ok, _, c', p', [a], heq, h', hevicts⟩

theorem removeFromOthers_settled (full : PublicationInstance → Bool) (hs : List Nat)
    (ret : ReturnCode) (released : Bool) (h : c.Settled limits p) (hsub : ∀ n ∈ hs, n ∈ c.handles) :
    ∃ ret' released' c' p' es, removeFromOthers full hs ret released c =
        some (ret', released', c') ∧
      c'.Settled limits p' ∧ Evicts es c c' p p' := by
  induction hs generalizing ret released c p with
  | nil => exact ⟨ret, released, c, p, [], rfl, h, Evicts.refl⟩
  | cons handle hs ih =>
    cases released with
    | true => exact ⟨ret, true, c, p, [], by simp [removeFromOthers], h, Evicts.refl⟩
    | false =>
      obtain ⟨i, hi, rfl⟩ := exists_instance (hsub handle (by simp))
      have hrest : ∀ n ∈ hs, n ∈ c.handles := fun n hn => hsub n (by simp [hn])
      by_cases hfull : full i
      · obtain ⟨ret₁, released₁, c₁, p₁, es₁, heq₁, h₁, hev₁⟩ :=
          removeOldestSample_settled false h (hsub i.instanceHandle (by simp))
        have hrest₁ : ∀ n ∈ hs, n ∈ c₁.handles := by
          rw [hev₁.handles]
          exact hrest
        obtain ⟨ret₂, released₂, c₂, p₂, es₂, heq₂, h₂, hev₂⟩ := ih ret₁ released₁ h₁ hrest₁
        refine ⟨ret₂, released₂, c₂, p₂, es₁ ++ es₂, ?_, h₂, hev₁.trans hev₂⟩
        simp [removeFromOthers, h.getHandleInstance hi, hfull, heq₁, heq₂]
      · obtain ⟨ret₂, released₂, c₂, p₂, es₂, heq₂, h₂, hev₂⟩ := ih ret false h hrest
        refine ⟨ret₂, released₂, c₂, p₂, es₂, ?_, h₂, hev₂⟩
        simp [removeFromOthers, h.getHandleInstance hi, hfull, heq₂]

theorem makeRoom_settled (h : c.Settled limits p) :
    ∃ ret c' p' es, c.makeRoom limits = some (ret, c') ∧ c'.Settled limits p' ∧
      Evicts es c c' p p' := by
  obtain ⟨ret₁, released₁, c₁, p₁, es₁, heq₁, h₁, hev₁⟩ :=
    removeFromOthers_settled (fun i => i.samples.size = limits.depth) c.handles .ok false h
      (fun n hn => hn)
  obtain ⟨ret₂, released₂, c₂, p₂, es₂, heq₂, h₂, hev₂⟩ :=
    removeFromOthers_settled (fun i => i.samples.size > 1) c.handles ret₁ released₁ h₁
      (fun n hn => hev₁.handles ▸ hn)
  refine ⟨ret₂, c₂, p₂, es₁ ++ es₂, ?_, h₂, hev₁.trans hev₂⟩
  simp only [handles] at heq₁ heq₂
  simp [makeRoom, heq₁, heq₂]

theorem disposeSamples_settled {fuel : Nat} (h : c.Settled limits p) (hi : i ∈ c.instances)
    (bound : (p.queues (i.instanceHandle, .samples)).length ≤ fuel) :
    ∃ c' p' es, disposeSamples fuel c i.instanceHandle = some (.ok, c') ∧
      c'.Settled limits p' ∧ Evicts es c c' p p' ∧
      p'.queues (i.instanceHandle, .samples) = [] := by
  induction fuel generalizing c p i with
  | zero =>
    have hempty : p.queues (i.instanceHandle, .samples) = [] :=
      List.length_eq_zero_iff.mp (Nat.le_zero.mp bound)
    have hsize : i.samples.size = 0 := by
      have hkeeps := (h.keeps i hi .samples).size
      rwa [hempty] at hkeeps
    refine ⟨c, p, [], ?_, h, Evicts.refl, hempty⟩
    rw [disposeSamples]
    simp [h.getHandleInstance hi, hsize]
  | succ fuel ih =>
    have hkeeps := (h.keeps i hi .samples).size
    cases hxs : p.queues (i.instanceHandle, .samples) with
    | nil =>
      have hsize : i.samples.size = 0 := by rwa [hxs] at hkeeps
      refine ⟨c, p, [], ?_, h, Evicts.refl, hxs⟩
      rw [disposeSamples]
      simp [h.getHandleInstance hi, hsize]
    | cons a xs =>
      have hsize : i.samples.size > 0 := by
        rw [hxs] at hkeeps
        have hpos : i.samples.size = (xs.length : Int) + 1 := hkeeps
        omega
      obtain ⟨c₁, p₁, heq₁, h₁, hev₁⟩ := removeOldestSample_spec false h hi hxs
      obtain ⟨j, hj, hji⟩ : ∃ j ∈ c₁.instances, j.instanceHandle = i.instanceHandle := by
        apply exists_instance
        rw [hev₁.handles]
        exact List.mem_map_of_mem hi
      have hless : (p₁.queues (j.instanceHandle, .samples)).length ≤ fuel := by
        have hle := List.length_filter_le (fun x => decide (x ∉ [a])) xs
        rw [hji, hev₁.samples, hxs, List.filter_cons_of_neg (by simp)]
        rw [hxs, List.length_cons] at bound
        omega
      obtain ⟨c₂, p₂, es, heq₂, h₂, hev₂, hempty⟩ := ih h₁ hj hless
      rw [hji] at heq₂ hempty
      refine ⟨c₂, p₂, [a] ++ es, ?_, h₂, hev₁.trans hev₂, hempty⟩
      rw [disposeSamples]
      simp [h.getHandleInstance hi, hsize, heq₁, heq₂]

theorem dispose_settled (handle : Nat) (h : c.Settled limits p) :
    ∃ ret c' p' es, c.dispose handle = some (ret, c') ∧ c'.Settled limits p' ∧
      Evicts es c c' p p' ∧ (handle ∈ c.handles → p'.queues (handle, .samples) = []) := by
  by_cases hhandle : handle ∈ c.handles
  · obtain ⟨i, hi, rfl⟩ := exists_instance hhandle
    obtain ⟨c', p', es, heq, h', hev, hempty⟩ :=
      disposeSamples_settled h hi (h.queue_length_le _)
    refine ⟨.ok, c', p', es, ?_, h', hev, fun _ => hempty⟩
    simp [dispose, h.getHandleInstance hi, heq]
  · refine ⟨.preconditionNotMet, c, p, [], ?_, h, Evicts.refl, fun hin => absurd hin hhandle⟩
    have hnone : c.getHandleInstance handle = none := by
      cases hfind : c.getHandleInstance handle with
      | none => rfl
      | some i =>
        obtain ⟨hi, rfl⟩ := getHandleInstance_some hfind
        exact absurd (List.mem_map_of_mem hi) hhandle
    simp [dispose, hnone]

end Container
end OpenDDS.Source
