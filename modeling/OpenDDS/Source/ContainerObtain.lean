import OpenDDS.Source.ContainerOperations

/-!
# Obtaining a buffer

`obtain_buffer` makes room for one more sample and returns an element that is on no list,
waits, or fails and gives the element back. While a writer waits for space its element is
on the waiting list of its instance.
-/
namespace OpenDDS.Source.Container

open Library.LinkedList

variable {limits : ContainerLimits} {c c' : Container} {p p' : Placement} {a handle : Nat}
  {i : PublicationInstance}

/-- What a writer with the element `a` leaves behind when it returns from `obtain_buffer`
or waits there: `evicted` left their instances, and `a` is on the waiting list exactly if
the writer waits for space. -/
structure Obtains (limits : ContainerLimits) (a handle : Nat) (outcome : Obtained)
    (evicted : List Nat) (c c' : Container) (p p' : Placement) : Prop where
  settled : c'.Settled limits p'
  sheds : p.Sheds evicted p'
  spares : ∀ x n, x ≠ a → c.Pending p x n → c'.Pending p' x n
  waiting : ∀ n x, x ∈ p'.queues (n, .waitingList) ↔
    (x ≠ a ∧ x ∈ p.queues (n, .waitingList)) ∨ (x = a ∧ n = handle ∧ outcome = .waits .space)
  pending : (∀ ret, outcome ≠ .failed ret) → c'.Pending p' a handle

theorem Settled.giveUp (h : c.Settled limits p) (hp : c.Pending p a handle)
    (hfree : ∀ n, a ∉ p.queues (n, .waitingList)) :
    (c.releaseBuffer a).Settled limits p ∧
      ∀ x n, x ≠ a → c.Pending p x n → (c.releaseBuffer a).Pending p x n := by
  have hfree' : ∀ key, a ∉ p.queues key := by
    rintro ⟨n, q⟩
    cases q with
    | samples => exact h.pending_samples hp n
    | waitingList => exact hfree n
  constructor
  · apply h.transfer (h.releaseBuffer hp.loose hfree') rfl (fun _ => Iff.rfl) (fun _ hx => hx)
      rfl rfl
    exact h.accounted.release h.toHolds hp.known
      (onNoList h.toHolds hp.loose fun n => hfree' (n, .samples))
  · intro x n hxa hx
    exact { hx with known := (List.mem_erase_of_ne hxa).mpr hx.known }

theorem Settled.failed (ret : ReturnCode) (h : c.Settled limits p) (hp : c.Pending p a handle)
    (hfree : ∀ n, a ∉ p.queues (n, .waitingList)) :
    Obtains limits a handle (.failed ret) [] c (c.releaseBuffer a) p p where
  settled := (h.giveUp hp hfree).1
  sheds := Placement.Sheds.refl
  spares := (h.giveUp hp hfree).2
  waiting n x := by
    constructor
    · intro hx
      exact .inl ⟨fun heq => hfree n (heq ▸ hx), hx⟩
    · rintro (hx | ⟨-, -, hx⟩)
      · exact hx.2
      · simp at hx
  pending hne := absurd rfl (hne ret)

theorem Settled.setWaiting {m : Elements} {l : Header Nat} {xs touched : List Nat}
    (h : c.Settled limits p) (hi : i ∈ c.instances)
    (holds : (c.setInstance m (i.setQueue .waitingList l)).Holds
      (p.setQueue i.instanceHandle .waitingList xs))
    (hm : c.elements.Refiled m touched) (loose : ∀ x ∈ xs, p.Loose x) :
    (c.setInstance m (i.setQueue .waitingList l)).Settled limits
        (p.setQueue i.instanceHandle .waitingList xs) ∧
      ∀ x n, c.Pending p x n →
        (c.setInstance m (i.setQueue .waitingList l)).Pending
          (p.setQueue i.instanceHandle .waitingList xs) x n := by
  have hhandles : (c.setInstance m (i.setQueue .waitingList l)).handles = c.handles :=
    setInstance_handles (m := m)
  have hsamples : ∀ n, (p.setQueue i.instanceHandle .waitingList xs).queues (n, .samples) =
      p.queues (n, .samples) := by
    simp [Placement.setQueue]
  constructor
  · refine { holds with
      owned := ?_, registered := ?_, waits := ?_, depth := ?_, accounted := h.accounted }
    · intro n x
      rw [hsamples, setInstance_elements, hm.handle]
      exact h.owned n x
    · intro x hx
      rw [setInstance_elements, hm.handle, hhandles]
      exact h.registered x hx
    · intro n x hx
      rw [hhandles]
      rcases eq_or_ne n i.instanceHandle with rfl | hne
      · exact ⟨List.mem_map_of_mem hi, loose x (by simpa [Placement.setQueue] using hx)⟩
      · exact h.waits n x (by simpa [Placement.setQueue, hne] using hx)
    · intro n
      rw [hsamples]
      exact h.depth n
  · intro x n hx
    constructor
    · exact hx.known
    · exact hx.loose
    · exact (congrFun hm.handle x).trans hx.owner
    · rw [hhandles]
      exact hx.registered
    · exact (congrFun hm.space x).trans hx.space

theorem mem_leave (h : Apart p.queues) (hmem : a ∈ p.queues (handle, .waitingList)) (n x : Nat) :
    x ∈ (p.setQueue handle .waitingList
        ((p.queues (handle, .waitingList)).erase a)).queues (n, .waitingList) ↔
      x ≠ a ∧ x ∈ p.queues (n, .waitingList) := by
  rcases eq_or_ne n handle with rfl | hne
  · simp only [Placement.setQueue, Function.update_self]
    exact (h.nodup _).mem_erase_iff
  · have hkey : (n, Queue.waitingList) ≠ (handle, .waitingList) := by simp [hne]
    simp only [Placement.setQueue, Function.update_of_ne hkey]
    constructor
    · intro hx
      refine ⟨?_, hx⟩
      rintro rfl
      exact hkey (h.unique hx hmem)
    · exact fun hx => hx.2

theorem mem_file_of_ne {x : Nat} (hxa : x ≠ a) (n : Nat) :
    x ∈ (p.setQueue handle .waitingList
        (p.queues (handle, .waitingList) ++ [a])).queues (n, .waitingList) ↔
      x ∈ p.queues (n, .waitingList) := by
  rcases eq_or_ne n handle with rfl | hne
  · simp [Placement.setQueue, hxa]
  · simp [Placement.setQueue, hne]

theorem sheds_setWaiting (xs : List Nat) : p.Sheds [] (p.setQueue handle .waitingList xs) := by
  constructor <;> simp [Placement.setQueue]

theorem leaveWaitingList_settled (ret : ReturnCode) (h : c.Settled limits p)
    (hp : c.Pending p a handle) (hmem : a ∈ p.queues (handle, .waitingList)) :
    ∃ c' p', c.leaveWaitingList a handle ret = some (.failed ret, c') ∧
      Obtains limits a handle (.failed ret) [] c c' p p' := by
  obtain ⟨i, hi, rfl⟩ := exists_instance hp.registered
  obtain ⟨m, l, hunfile, holds, hm⟩ := h.unfile hi hmem
  obtain ⟨h₁, hpending⟩ := h.setWaiting hi holds hm
    (fun x hx => (h.waits _ x (List.mem_of_mem_erase hx)).2)
  have hwaiting := mem_leave h.queues hmem
  obtain ⟨h₂, hspares⟩ := h₁.giveUp (hpending a _ hp) (fun n hin => ((hwaiting n a).mp hin).1 rfl)
  refine ⟨(c.setInstance m (i.setQueue .waitingList l)).releaseBuffer a,
    p.setQueue i.instanceHandle .waitingList
      ((p.queues (i.instanceHandle, .waitingList)).erase a), ?_, ?_⟩
  · simp only [leaveWaitingList, h.getHandleInstance hi, Option.bind_eq_bind, Option.bind_some,
      show InstanceDataSampleList.dequeue c.fuel c.elements i.waitingList a = _ from hunfile]
    rfl
  · constructor
    · exact h₂
    · exact sheds_setWaiting _
    · exact fun x n hxa hx => hspares x n hxa (hpending x n hx)
    · intro n x
      rw [hwaiting]
      simp
    · exact fun hne => absurd rfl (hne ret)

theorem Settled.returns (h : c.Settled limits p) (hp : c.Pending p a handle)
    (hfree : ∀ n, a ∉ p.queues (n, .waitingList)) {outcome : Obtained}
    (hwait : outcome ≠ .waits .space) : Obtains limits a handle outcome [] c c p p where
  settled := h
  sheds := Placement.Sheds.refl
  spares x n _ hx := hx
  waiting n x := by
    constructor
    · intro hx
      exact .inl ⟨fun heq => hfree n (heq ▸ hx), hx⟩
    · rintro (hx | ⟨-, -, hx⟩)
      · exact hx.2
      · exact absurd hx hwait
  pending _ := hp

theorem Obtains.after {es es' : List Nat} {c₁ : Container} {p₁ : Placement} {outcome : Obtained}
    (hsheds : p.Sheds es p₁) (hspares : ∀ x n, x ≠ a → c.Pending p x n → c₁.Pending p₁ x n)
    (hwaiting : ∀ n, p₁.queues (n, .waitingList) = p.queues (n, .waitingList))
    (h : Obtains limits a handle outcome es' c₁ c' p₁ p') :
    Obtains limits a handle outcome (es ++ es') c c' p p' where
  settled := h.settled
  sheds := hsheds.trans h.sheds
  spares x n hxa hx := h.spares x n hxa (hspares x n hxa hx)
  waiting n x := by
    rw [h.waiting, hwaiting]
  pending := h.pending

/-- The last part of `obtain_buffer`, for an element that waits nowhere. A buffer is
returned without any change. -/
theorem awaitSpace_settled (ret : ReturnCode) (oldestReleased expired : Bool)
    (h : c.Settled limits p) (hp : c.Pending p a handle)
    (hfree : ∀ n, a ∉ p.queues (n, .waitingList)) :
    ∃ outcome c' p', c.awaitSpace limits a handle ret oldestReleased expired =
        some (outcome, c') ∧
      Obtains limits a handle outcome [] c c' p p' ∧
      (outcome = .buffer → ret = .ok ∧ ∀ i ∈ c.getHandleInstance handle,
        ¬ (limits.shouldBlock ∧ (i.waitingList.head ≠ none ∨ ¬ oldestReleased))) := by
  obtain ⟨i, hi, rfl⟩ := exists_instance hp.registered
  by_cases hret : ret = .ok
  · subst hret
    by_cases hwait : limits.shouldBlock ∧ (i.waitingList.head ≠ none ∨ ¬ oldestReleased)
    · have hfree' : ∀ key, a ∉ p.queues key := by
        rintro ⟨n, q⟩
        cases q with
        | samples => exact h.pending_samples hp n
        | waitingList => exact hfree n
      obtain ⟨m, l, hfile, holds, hm⟩ := h.fileTail .waitingList hi hp.known hfree'
      obtain ⟨h₁, hpending⟩ := h.setWaiting hi holds hm (by
        intro x hx
        rcases List.mem_append.mp hx with hx | hx
        · exact (h.waits _ x hx).2
        · rw [List.mem_singleton.mp hx]
          exact hp.loose)
      have hequation : c.awaitSpace limits a i.instanceHandle .ok oldestReleased expired =
          if c.shutdown ∨ expired then
            (c.setInstance m (i.setQueue .waitingList l)).leaveWaitingList a i.instanceHandle
              .timeout
          else some (.waits .space, c.setInstance m (i.setQueue .waitingList l)) := by
        simp only [awaitSpace, h.getHandleInstance hi, Option.bind_eq_bind, Option.bind_some,
          if_pos hwait, show InstanceDataSampleList.enqueueTail c.elements i.waitingList a = _
            from hfile]
        rfl
      rw [hequation]
      split_ifs with hexpired
      · obtain ⟨c', p', heq, hobtains⟩ := leaveWaitingList_settled .timeout h₁ (hpending a _ hp)
          (by simp [Placement.setQueue])
        refine ⟨.failed .timeout, c', p', heq, ?_, by simp⟩
        constructor
        · exact hobtains.settled
        · exact (sheds_setWaiting _).trans hobtains.sheds
        · exact fun x n hxa hx => hobtains.spares x n hxa (hpending x n hx)
        · intro n x
          rw [hobtains.waiting]
          have hother : x ≠ a → (x ∈ (p.setQueue i.instanceHandle .waitingList
              (p.queues (i.instanceHandle, .waitingList) ++ [a])).queues (n, .waitingList) ↔
              x ∈ p.queues (n, .waitingList)) := fun hxa => mem_file_of_ne hxa n
          constructor
          · rintro (⟨hxa, hx⟩ | ⟨-, -, hx⟩)
            · exact .inl ⟨hxa, (hother hxa).mp hx⟩
            · simp at hx
          · rintro (⟨hxa, hx⟩ | ⟨-, -, hx⟩)
            · exact .inl ⟨hxa, (hother hxa).mpr hx⟩
            · simp at hx
        · exact hobtains.pending
      · refine ⟨.waits .space, c.setInstance m (i.setQueue .waitingList l),
          p.setQueue i.instanceHandle .waitingList
            (p.queues (i.instanceHandle, .waitingList) ++ [a]), rfl, ?_, by simp⟩
        constructor
        · exact h₁
        · exact sheds_setWaiting _
        · exact fun x n _ hx => hpending x n hx
        · intro n x
          by_cases hxa : x = a
          · subst hxa
            rcases eq_or_ne n i.instanceHandle with rfl | hne
            · simp [Placement.setQueue]
            · simpa [Placement.setQueue, hne] using hfree n
          · rw [mem_file_of_ne hxa]
            simp [hxa]
        · exact fun _ => hpending a _ hp
    · refine ⟨.buffer, c, p, ?_, h.returns hp hfree (by simp), ?_⟩
      rotate_left
      · intro _
        refine ⟨rfl, ?_⟩
        intro j hj
        rw [h.getHandleInstance hi, Option.mem_some_iff] at hj
        rwa [← hj]
      simp only [awaitSpace, h.getHandleInstance hi, Option.bind_eq_bind, Option.bind_some,
        if_neg hwait]
      simp
  · refine ⟨.failed ret, c.releaseBuffer a, p, ?_, h.failed ret hp hfree, by simp⟩
    simp [awaitSpace, hret]

theorem removeFromAny_settled (h : c.Settled limits p) :
    ∃ ret c' p' es, c.removeFromAny limits = some (ret, c') ∧ c'.Settled limits p' ∧
      Evicts es c c' p p' := by
  unfold removeFromAny
  split_ifs
  · exact makeRoom_settled h
  · exact ⟨.ok, c, p, [], rfl, h, Evicts.refl⟩

theorem awaitResources_settled (oldestReleased expired : Bool) (h : c.Settled limits p)
    (hp : c.Pending p a handle) (hfree : ∀ n, a ∉ p.queues (n, .waitingList)) :
    ∃ outcome es c' p', c.awaitResources limits a handle oldestReleased expired =
        some (outcome, c') ∧
      Obtains limits a handle outcome es c c' p p' := by
  by_cases hlimit : limits.maxNumSamples > 0 ∧ c.numAllSamples ≥ limits.maxNumSamples
  · obtain ⟨ret, c₁, p₁, es, hroom, h₁, hev⟩ := removeFromAny_settled h
    have hp₁ := hev.spares.pending a handle (by simp) hp
    have hfree₁ : ∀ n, a ∉ p₁.queues (n, .waitingList) := by
      intro n
      rw [hev.waiting]
      exact hfree n
    have hafter : ∀ {outcome es' c' p'}, Obtains limits a handle outcome es' c₁ c' p₁ p' →
        Obtains limits a handle outcome (es ++ es') c c' p p' :=
      Obtains.after hev.toSheds (fun x n _ hx => hev.spares.pending x n (by simp) hx) hev.waiting
    simp only [awaitResources, if_pos hlimit, hroom, Option.bind_eq_bind, Option.bind_some]
    split_ifs
    · exact ⟨_, _, _, _, rfl, hafter (h₁.failed .timeout hp₁ hfree₁)⟩
    · have hwaits : Obtains limits a handle (.waits (.resource ret oldestReleased)) [] c₁ c₁ p₁ p₁ :=
        h₁.returns hp₁ hfree₁ (by simp)
      exact ⟨_, _, _, _, rfl, hafter hwaits⟩
    · obtain ⟨outcome, c', p', heq, hobtains, -⟩ :=
        awaitSpace_settled ret oldestReleased expired h₁ hp₁ hfree₁
      exact ⟨outcome, _, c', p', heq, hafter hobtains⟩
  · obtain ⟨outcome, c', p', heq, hobtains, -⟩ :=
      awaitSpace_settled .ok oldestReleased expired h hp hfree
    refine ⟨outcome, [], c', p', ?_, hobtains⟩
    rw [awaitResources, if_neg hlimit, heq]

theorem Settled.allocate (h : c.Settled limits p) (fresh : a ∉ c.allocated)
    (hhandle : handle ∈ c.handles) :
    (c.allocate a handle).Settled limits p ∧ (c.allocate a handle).Pending p a handle ∧
      (∀ n, a ∉ p.queues (n, .waitingList)) ∧
      ∀ x n, c.Pending p x n → (c.allocate a handle).Pending p x n := by
  have hother : ∀ x ∈ c.allocated, (c.allocate a handle).elements.handle x =
      c.elements.handle x := by
    intro x hx
    have hxa : x ≠ a := fun heq => fresh (heq ▸ hx)
    simp [Container.allocate, Elements.construct, hxa]
  have hactive : ∀ x, p.Active x → x ∈ c.allocated := by
    rintro x (hx | hx | hx)
    · exact h.known _ x hx
    · exact h.known _ x hx
    · exact h.known _ x hx
  refine ⟨?_, ?_, ?_, ?_⟩
  · refine { h.construct fresh with
      owned := ?_, registered := ?_, waits := h.waits, depth := h.depth, accounted := h.accounted }
    · intro n x
      constructor
      · intro hx
        rw [hother x (h.queued _ x hx)]
        exact (h.owned n x).mp hx
      · rintro ⟨howner, hx⟩
        rw [hother x (hactive x hx)] at howner
        exact (h.owned n x).mpr ⟨howner, hx⟩
    · intro x hx
      rw [hother x (hactive x hx)]
      exact h.registered x hx
  · constructor
    · exact List.mem_cons_self
    · exact fun state hx => fresh (h.known state a hx)
    · simp [Container.allocate, Elements.construct]
    · exact hhandle
    · simp [Container.allocate, Elements.construct]
  · exact fun n hx => fresh (h.queued _ a hx)
  · intro x n hx
    have hxa : x ≠ a := fun heq => fresh (heq ▸ hx.known)
    constructor
    · exact List.mem_cons_of_mem _ hx.known
    · exact hx.loose
    · rw [hother x hx.known]
      exact hx.owner
    · exact hx.registered
    · simpa [Container.allocate, Elements.construct, hxa] using hx.space

theorem keepDepth_settled (h : c.Settled limits p) (hi : i ∈ c.instances) :
    ∃ ret oldestReleased c' p' es, c.keepDepth limits i = some (ret, oldestReleased, c') ∧
      c'.Settled limits p' ∧ Evicts es c c' p p' ∧
      (ret = .ok → (p'.queues (i.instanceHandle, .samples)).length < limits.depth) := by
  have hsize : i.samples.size = (p.queues (i.instanceHandle, .samples)).length :=
    (h.keeps i hi .samples).size
  have hdepth := h.depth i.instanceHandle
  have hnot : ¬ i.samples.size > limits.depth := by omega
  unfold keepDepth
  split_ifs with hfull
  · cases hxs : p.queues (i.instanceHandle, .samples) with
    | nil =>
      have hhead : i.samples.head = none := by
        have hkeeps := (h.keeps i hi .samples).head
        rwa [hxs] at hkeeps
      refine ⟨.error, true, c, p, [], ?_, h, Evicts.refl, by simp⟩
      simp [removeOldestSample, h.getHandleInstance hi, hhead]
    | cons x xs =>
      obtain ⟨c', p', heq, h', hev⟩ := removeOldestSample_spec true h hi hxs
      refine ⟨.ok, _, c', p', [x], heq, h', hev, ?_⟩
      have hle := List.length_filter_le (fun y => decide (y ∉ [x])) xs
      rw [hev.samples, hxs, List.filter_cons_of_neg (by simp)]
      rw [hxs, List.length_cons] at hsize
      omega
  · refine ⟨.ok, true, c, p, [], rfl, h, Evicts.refl, ?_⟩
    omega

theorem obtainBuffer_settled (expired : Bool) (h : c.Settled limits p) (fresh : a ∉ c.allocated)
    (hhandle : handle ∈ c.handles) :
    ∃ outcome es c' p', c.obtainBuffer limits a handle expired = some (outcome, c') ∧
      Obtains limits a handle outcome es c c' p p' ∧
      (outcome = .buffer → (p'.queues (handle, .samples)).length < limits.depth) := by
  obtain ⟨h₀, hp₀, hfree₀, hspares₀⟩ := h.allocate fresh hhandle
  obtain ⟨i, hi, rfl⟩ := exists_instance hhandle
  obtain ⟨ret, oldestReleased, c₁, p₁, es, hkeep, h₁, hev, hroom⟩ := keepDepth_settled h₀ hi
  have hp₁ := hev.spares.pending a _ (by simp) hp₀
  have hfree₁ : ∀ n, a ∉ p₁.queues (n, .waitingList) := by
    intro n
    rw [hev.waiting]
    exact hfree₀ n
  have hafter : ∀ {outcome es' c' p'}, Obtains limits a i.instanceHandle outcome es' c₁ c' p₁ p' →
      Obtains limits a i.instanceHandle outcome (es ++ es') c c' p p' :=
    Obtains.after hev.toSheds
      (fun x n _ hx => hev.spares.pending x n (by simp) (hspares₀ x n hx)) hev.waiting
  simp only [obtainBuffer, h.getHandleInstance hi, hkeep, Option.bind_eq_bind, Option.bind_some]
  split_ifs with hret
  · refine ⟨.failed ret, _, _, _, rfl, hafter (h₁.failed ret hp₁ hfree₁), ?_⟩
    simp
  · obtain ⟨outcome, es', c', p', heq, hobtains⟩ :=
      awaitResources_settled oldestReleased expired h₁ hp₁ hfree₁
    refine ⟨outcome, _, c', p', heq, hafter hobtains, ?_⟩
    intro _
    rw [hobtains.sheds.samples]
    exact Nat.lt_of_le_of_lt (List.length_filter_le _ _) (hroom (not_not.mp hret))

theorem resume_resource_settled (ret : ReturnCode) (oldestReleased : Bool) (result : WaitResult)
    (expired : Bool) (h : c.Settled limits p) (hp : c.Pending p a handle)
    (hfree : ∀ n, a ∉ p.queues (n, .waitingList)) :
    ∃ outcome c' p', c.resume limits a handle (.resource ret oldestReleased) result expired =
        some (outcome, c') ∧
      Obtains limits a handle outcome [] c c' p p' ∧
      (outcome = .buffer → result = .signaled ∧ ret = .ok ∧
        (c.numAllSamples < limits.maxNumSamples ∨ c.shutdown ∨ expired) ∧
        ∀ i ∈ c.getHandleInstance handle,
          ¬ (limits.shouldBlock ∧ (i.waitingList.head ≠ none ∨ ¬ oldestReleased))) := by
  cases result with
  | signaled =>
    simp only [resume]
    split_ifs with hleaves
    · obtain ⟨outcome, c', p', heq, hobtains, hbuffer⟩ :=
        awaitSpace_settled ret oldestReleased expired h hp hfree
      refine ⟨outcome, c', p', heq, hobtains, ?_⟩
      intro houtcome
      exact ⟨trivial, (hbuffer houtcome).1, hleaves, (hbuffer houtcome).2⟩
    · exact ⟨_, _, _, rfl, h.returns hp hfree (by simp), by simp⟩
  | timedOut => exact ⟨_, _, _, rfl, h.failed .timeout hp hfree, by simp⟩
  | failed => exact ⟨_, _, _, rfl, h.failed .error hp hfree, by simp⟩

/-- A writer that waits for space is never told that there is any: it goes on waiting or
gives up, as long as it is not woken at shutdown or after its deadline. -/
theorem resume_space_settled (result : WaitResult) (expired : Bool) (h : c.Settled limits p)
    (hp : c.Pending p a handle) (hmem : a ∈ p.queues (handle, .waitingList))
    (hquiet : result = .signaled → c.shutdown = false ∧ expired = false) :
    ∃ outcome c' p', c.resume limits a handle .space result expired = some (outcome, c') ∧
      Obtains limits a handle outcome [] c c' p p' ∧ outcome ≠ .buffer := by
  cases result with
  | signaled =>
    obtain ⟨hshutdown, hexpired⟩ := hquiet rfl
    refine ⟨.waits .space, c, p, by simp [resume, hp.space, hshutdown, hexpired], ?_, by simp⟩
    constructor
    · exact h
    · exact Placement.Sheds.refl
    · exact fun x n _ hx => hx
    · intro n x
      constructor
      · intro hx
        by_cases hxa : x = a
        · have hkey := h.queues.unique (hxa ▸ hx) hmem
          exact .inr ⟨hxa, by simpa using hkey, rfl⟩
        · exact .inl ⟨hxa, hx⟩
      · rintro (hx | ⟨rfl, rfl, -⟩)
        · exact hx.2
        · exact hmem
    · exact fun _ => hp
  | timedOut =>
    obtain ⟨c', p', heq, hobtains⟩ := leaveWaitingList_settled .timeout h hp hmem
    exact ⟨_, c', p', heq, hobtains, by simp⟩
  | failed =>
    obtain ⟨c', p', heq, hobtains⟩ := leaveWaitingList_settled .error h hp hmem
    exact ⟨_, c', p', by simpa [resume, hp.space] using heq, hobtains, by simp⟩

end OpenDDS.Source.Container
