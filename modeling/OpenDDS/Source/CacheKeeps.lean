import OpenDDS.Source.CacheStays

/-!
# What every message keeps

A property of a cache and its lists that each kind of step keeps, what is there of it when an
instance is made, told something, or given a sample, is kept by every message that is received.
The order of the samples and the generations of the instances are such properties.
-/
namespace OpenDDS.Source.ReaderCache
open Library.AssociationList Library.Folds Cache

variable {δ : Type} {c c' c'' : Cache δ} {samples samples' : Nat → List Nat} {handle ptr a : Nat}
  {inst : SubscriptionInstance} {qos : Qos} {msg : Message δ}
  {I : Cache δ → (Nat → List Nat) → Prop}

/-- The element is one that is allocated for the message, which is not a sign of life. -/
structure Owns (msg : Message δ) (ptr : Nat) : Prop where
  element : ptr = msg.newElement ∨ ptr = msg.secondElement
  stored : msg.messageId ≠ .datawriterLiveliness

/-- The instance of a message has been told of it and has the sample on its list. -/
structure Queues (c c' : Cache δ) (samples : Nat → List Nat) (qos : Qos) (msg : Message δ)
    (handle ptr : Nat) (inst : SubscriptionInstance) : Prop where
  found : c.getHandleInstance handle = some inst
  owns : Owns msg ptr
  unregistered : msg.messageId ≠ .instanceRegistration
  off : ∀ h, ptr ∉ samples h
  touches : Touches c c' handle ptr
  found' : ∃ list empty, c'.getHandleInstance handle =
    some ⟨{ (told qos msg inst.instanceState).2 with empty := empty }, list⟩
  element : c'.element ptr = newSample (told qos msg inst.instanceState).2 msg

/-- The steps that a message can make keep `I`. -/
structure Keeps (I : Cache δ → (Nat → List Nat) → Prop) (qos : Qos) (msg : Message δ) : Prop where
  drops : ∀ {c c' : Cache δ} {samples samples' : Nat → List Nat}, I c samples → Stays c c' →
    (∀ h, (samples' h).Sublist (samples h)) → I c' samples'
  enters : ∀ {c : Cache δ} {samples : Nat → List Nat}, Wf c samples → I c samples →
    c.instanceMap.lookup msg.key = none → c.getHandleInstance msg.newHandle = none →
    I (withInstance c qos msg) samples
  registers : msg.messageId = .instanceRegistration →
    ∀ {c : Cache δ} {samples : Nat → List Nat} {handle : Nat} {inst : SubscriptionInstance},
    I c samples → c.getHandleInstance handle = some inst →
    I (c.setInstance handle { inst with instanceState := inst.instanceState.lively msg.pub }) samples
  enlivens : msg.messageId = .datawriterLiveliness →
    ∀ {c : Cache δ} {samples : Nat → List Nat}, I c samples → I (c.livelyAll msg.pub) samples
  stores : ∀ {c c' : Cache δ} {samples : Nat → List Nat} {handle ptr : Nat}
    {inst : SubscriptionInstance}, I c samples → Queues c c' samples qos msg handle ptr inst →
    I c' (Function.update samples handle (queued c qos msg ptr (samples handle)))

/-- What a message leaves: the property holds still, and the lists have at most one sample more. -/
def Stores (I : Cache δ → (Nat → List Nat) → Prop) (c : Cache δ) (samples : Nat → List Nat)
    (ptr : Nat) (c' : Cache δ) : Prop :=
  Remains c c' ∧ ∃ samples', Wf c' samples' ∧ I c' samples' ∧
    ∀ h, ∀ a ∈ samples' h, a ∈ samples h ∨ a = ptr

theorem Drops.keeps (h : Drops c samples c') (keeps : Keeps I qos msg) (inv : I c samples) :
    ∃ samples', Wf c' samples' ∧ I c' samples' ∧ ∀ h, (samples' h).Sublist (samples h) := by
  obtain ⟨hstays, samples', hw, hsub⟩ := h
  exact ⟨samples', hw, keeps.drops inv hstays hsub, hsub⟩

theorem Drops.stores (h : Drops c samples c') (keeps : Keeps I qos msg) (inv : I c samples)
    (ptr : Nat) : Stores I c samples ptr c' := by
  obtain ⟨samples', hw, hinv, hsub⟩ := h.keeps keeps inv
  exact ⟨h.1.remains, samples', hw, hinv, fun i a ha => .inl ((hsub i).subset ha)⟩

theorem Drops.then (h : Drops c samples c') (keeps : Keeps I qos msg) (inv : I c samples)
    (off : ∀ h, ptr ∉ samples h)
    (next : ∀ samples', Wf c' samples' → I c' samples' → (∀ h, ptr ∉ samples' h) →
      Stores I c' samples' ptr c'') : Stores I c samples ptr c'' := by
  obtain ⟨samples', hw, hinv, hsub⟩ := h.keeps keeps inv
  obtain ⟨hremains, samples'', hw', hinv', hgains⟩ :=
    next samples' hw hinv fun i hin => off i ((hsub i).subset hin)
  exact ⟨h.1.remains.trans hremains, samples'', hw', hinv',
    fun i a ha => (hgains i a ha).imp (fun hin => (hsub i).subset hin) id⟩

theorem Stores.drops (h : Stores I c samples ptr c') (keeps : Keeps I qos msg)
    (next : ∀ samples', Wf c' samples' → Drops c' samples' c'') : Stores I c samples ptr c'' := by
  obtain ⟨hremains, samples', hw, hinv, hgains⟩ := h
  have hdrops := next samples' hw
  obtain ⟨samples'', hw', hinv', hsub⟩ := hdrops.keeps keeps hinv
  exact ⟨hremains.trans hdrops.1.remains, samples'', hw', hinv',
    fun i a ha => hgains i a ((hsub i).subset ha)⟩

theorem Touches.remains (h : Touches c c' handle ptr) (found : c.getHandleInstance handle = some inst) :
    Remains c c' where
  found i hi := by
    by_cases hh : i = handle
    · rw [hh, found]
      rfl
    · rwa [h.others i hh] at hi
  keys _ hentry _ := h.map ▸ hentry

theorem queueSample_stores (keeps : Keeps I qos msg) (w : Wf c samples) (inv : I c samples)
    (owns : Owns msg ptr) (unregistered : msg.messageId ≠ .instanceRegistration)
    (off : ∀ h, ptr ∉ samples h) (found : c.getHandleInstance handle = some inst)
    (h : (c.setInstance handle
      { inst with instanceState := (told qos msg inst.instanceState).2 }).queueSample
        qos handle msg ptr = .ok c') : Stores I c samples ptr c' := by
  have htold := found_setInstance c.links
    { inst with instanceState := (told qos msg inst.instanceState).2 } found
  have hw := w.restate found (told qos msg inst.instanceState).2
  have htouches : Touches c (c.setInstance handle
      { inst with instanceState := (told qos msg inst.instanceState).2 }) handle ptr :=
    touches_setInstance c.links _ found
  obtain ⟨c₁, list, empty, hadd, hw₁, htouches₁, hfound₁, -, helement⟩ :=
    add_queued qos msg hw htold off
  obtain ⟨inst₀, hderef, h⟩ := bind_eq_ok h
  cases htold.symm.trans (deref_found hderef)
  obtain ⟨added, hadded, h⟩ := bind_eq_ok h
  cases hadd.symm.trans hadded
  obtain ⟨trimmed, htrim, h⟩ := bind_eq_ok h
  rw [htouches.queued_eq] at hw₁
  have hqueues : Queues c c₁ samples qos msg handle ptr inst :=
    ⟨found, owns, unregistered, off, htouches.trans htouches₁, ⟨list, empty, hfound₁⟩, helement⟩
  have hstores : Stores I c samples ptr c₁ := by
    refine ⟨(htouches.trans htouches₁).remains found, _, hw₁, keeps.stores inv hqueues, ?_⟩
    intro i x hx
    by_cases hi : i = handle
    · subst hi
      rw [Function.update_self] at hx
      have hin := (inserted_perm qos (timestamps c msg ptr) ptr (samples i)).mem_iff.mp hx
      exact (List.mem_cons.mp hin).symm
    · rw [Function.update_of_ne hi] at hx
      exact .inl hx
  split at h
  · cases h
  · cases h
    exact hstores.drops keeps fun _ hw' => trim_drops hw' htrim

theorem storeAt_stores (keeps : Keeps I qos msg) (w : Wf c samples) (inv : I c samples)
    (owns : Owns msg ptr) (unregistered : msg.messageId ≠ .instanceRegistration)
    (off : ∀ h, ptr ∉ samples h) (h : c.storeAt qos handle msg ptr = .ok c') : Stores I c samples ptr c' := by
  obtain ⟨room, hroom, h⟩ := bind_eq_ok h
  have hdrops := makeRoom_drops w hroom
  split at h
  · cases h
    exact hdrops.stores keeps inv ptr
  · obtain ⟨recorded, hrecord, h⟩ := bind_eq_ok h
    apply hdrops.then keeps inv off
    intro samples₁ hw₁ hinv₁ hoff₁
    obtain ⟨inst, hfound⟩ : ∃ inst, room.2.getHandleInstance handle = some inst := by
      obtain ⟨inst, hderef, -⟩ := bind_eq_ok hrecord
      exact ⟨inst, deref_found hderef⟩
    rw [recordMessage_eq hfound] at hrecord
    cases hrecord
    by_cases htold : (told qos msg inst.instanceState).1 = true
    · rw [if_pos htold] at h
      exact queueSample_stores keeps hw₁ hinv₁ owns unregistered hoff₁ hfound h
    · rw [if_neg htold] at h
      cases h
      have hcalm := told_calm (Bool.eq_false_iff.mpr htold)
      exact (restate_drops hw₁ hfound hcalm).stores keeps hinv₁ ptr

theorem enter_cases (w : Wf c samples)
    (unused : c.instanceMap.lookup msg.key = none → c.getHandleInstance msg.newHandle = none)
    (off : ∀ h, ptr ∉ samples h) (entered : ¬ Unentered c qos msg) :
    ∃ handle just c₁, c.enter qos msg = (.entered handle just, c₁) ∧ Wf c₁ samples ∧
      c₁.instanceMap.lookup msg.key = some handle ∧
      (c₁ = c ∨ c.instanceMap.lookup msg.key = none ∧ handle = msg.newHandle ∧
        c₁ = withInstance c qos msg) := by
  cases hkey : c.instanceMap.lookup msg.key with
  | some handle =>
    refine ⟨handle, false, c, ?_, w, hkey, .inl rfl⟩
    unfold enter
    rw [hkey]
  | none =>
    -- The element of the message is the one that is used.
    let renamed : Message δ := { msg with newElement := ptr }
    have hunused : Unused c samples renamed := ⟨unused hkey, off⟩
    have hnew : Entered c (withInstance c qos renamed) samples qos renamed msg.newHandle :=
      entered_new w hunused hkey
    refine ⟨msg.newHandle, true, withInstance c qos msg, ?_, hnew.wf, hnew.key,
      Or.inr ⟨rfl, rfl, rfl⟩⟩
    have hdata : ¬ msg.isNotice = true := fun h => entered ⟨hkey, .inl h⟩
    have hroom : ¬ Full c qos := fun h => entered ⟨hkey, .inr h⟩
    unfold enter
    rw [hkey]
    rw [if_neg hdata]
    exact if_neg hroom

variable {stored : Stored × Cache δ}

section

variable (keeps : Keeps I qos msg) (w : Wf c samples) (inv : I c samples)
  (unused : c.instanceMap.lookup msg.key = none → c.getHandleInstance msg.newHandle = none)
  (owns : Owns msg ptr) (off : ∀ h, ptr ∉ samples h)
  (h : c.storeInstanceData qos msg ptr = .ok stored)
include keeps w inv unused owns off h

theorem storeInstanceData_stores :
    stored.2 = c ∨ ∃ handle c₁, c₁.instanceMap.lookup msg.key = some handle ∧
      (c₁ = c ∨ handle = msg.newHandle) ∧ Stores I c₁ samples ptr stored.2 := by
  by_cases hentered : Unentered c qos msg
  · rw [storeInstanceData_unentered hentered] at h
    cases h
    exact .inl rfl
  · obtain ⟨handle, just, c₁, henter, hw₁, hkey₁, hcase⟩ := enter_cases w unused off hentered
    have hinv₁ : I c₁ samples := by
      rcases hcase with rfl | ⟨hkey, -, rfl⟩
      · exact inv
      · exact keeps.enters w inv hkey (unused hkey)
    refine .inr ⟨handle, c₁, hkey₁, hcase.imp id fun hnew => hnew.2.1, ?_⟩
    unfold storeInstanceData at h
    rw [henter] at h
    dsimp only at h
    split at h
    · rename_i hregistration
      obtain ⟨inst, hderef, h⟩ := bind_eq_ok h
      cases h
      have hfound := deref_found hderef
      refine ⟨?_, samples, hw₁.restate hfound _,
        keeps.registers hregistration hinv₁ hfound, fun _ _ => .inl⟩
      refine Touches.remains (?_ : Touches c₁ _ handle ptr) hfound
      exact touches_setInstance c₁.links _ hfound
    · split at h
      · cases h
        exact (Drops.refl hw₁).stores keeps hinv₁ ptr
      · rename_i hunregistered _
        obtain ⟨stored', hstore, h⟩ := bind_eq_ok h
        cases h
        exact storeAt_stores keeps hw₁ hinv₁ owns hunregistered off hstore

theorem storeInstanceData_keeps : ∃ samples', Wf stored.2 samples' ∧ I stored.2 samples' ∧
      ∀ h, ∀ a ∈ samples' h, a ∈ samples h ∨ a = ptr := by
  rcases storeInstanceData_stores keeps w inv unused owns off h with hsame | ⟨-, c₁, -, -, hstores⟩
  · rw [hsame]
    exact ⟨samples, w, inv, fun _ _ => .inl⟩
  · exact hstores.2

end

theorem storeInstanceData_unused (keeps : Keeps I qos msg) (w : Wf c samples) (inv : I c samples)
    (unused : c.getHandleInstance msg.newHandle = none) (owns : Owns msg ptr)
    (off : ∀ h, ptr ∉ samples h) (h : c.storeInstanceData qos msg ptr = .ok stored)
    (unknown : stored.2.instanceMap.lookup msg.key = none) :
    stored.2.getHandleInstance msg.newHandle = none := by
  rcases storeInstanceData_stores keeps w inv (fun _ => unused) owns off h with
    hsame | ⟨handle, c₁, hkey, hcase, hremains, -⟩
  · rw [hsame]
    exact unused
  · by_contra hne
    have hsome : (stored.2.getHandleInstance msg.newHandle).isSome := by
      cases hfind : stored.2.getHandleInstance msg.newHandle with
      | none => exact absurd hfind hne
      | some inst => rfl
    rcases hcase with rfl | rfl
    · have hfound := hremains.found _ hsome
      rw [unused] at hfound
      cases hfound
    · have hin := hremains.keys (msg.key, msg.newHandle) (mem_of_lookup hkey) hsome
      have hlookup := lookup_isSome hin
      rw [unknown] at hlookup
      cases hlookup

theorem getHandleInstance_restateAll (f : InstanceState → InstanceState) (h : Nat) :
    ({ c with instances := c.instances.map fun entry =>
      (entry.1, { entry.2 with instanceState := f entry.2.instanceState }) } :
        Cache δ).getHandleInstance h =
      (c.getHandleInstance h).map fun inst => { inst with instanceState := f inst.instanceState } :=
  lookup_map_values (fun (_ : Nat) (inst : SubscriptionInstance) =>
    { inst with instanceState := f inst.instanceState }) c.instances

theorem Wf.restateAll (f : InstanceState → InstanceState) (w : Wf c samples) :
    Wf { c with instances := c.instances.map fun entry =>
      (entry.1, { entry.2 with instanceState := f entry.2.instanceState }) } samples := by
  constructor
  · intro entry hentry
    rw [getHandleInstance_restateAll, Option.isSome_map]
    exact w.mapped entry hentry
  · exact w.distinct
  · intro h inst' hinst'
    rw [getHandleInstance_restateAll] at hinst'
    obtain ⟨inst, hinst, rfl⟩ := Option.map_eq_some_iff.mp hinst'
    exact w.lists h inst hinst
  · intro h hnone
    rw [getHandleInstance_restateAll, Option.map_eq_none_iff] at hnone
    exact w.vacant h hnone
  · exact w.apart
  · exact w.live

theorem sampleReceived_keeps (keeps : Keeps I qos msg) (w : Wf c samples) (inv : I c samples)
    (unused : Unused c samples msg) (stored : msg.messageId ≠ .datawriterLiveliness) (h : c.sampleReceived qos msg = .ok c') :
    ∃ samples', Wf c' samples' ∧ I c' samples' := by
  unfold sampleReceived at h
  split at h
  · cases h
    exact ⟨samples, w, inv⟩
  · obtain ⟨result, hstore, h⟩ := bind_eq_ok h
    obtain ⟨samples₁, hw₁, hinv₁, -⟩ :=
      storeInstanceData_keeps keeps w inv (fun _ => unused.handle) ⟨.inl rfl, stored⟩
        unused.element hstore
    split at h
    · cases h
      exact ⟨samples₁, hw₁, hinv₁⟩
    · obtain ⟨verified, hverify, h⟩ := bind_eq_ok h
      obtain ⟨-, -, h⟩ := bind_eq_ok h
      cases h
      unfold verifySample at hverify
      split at hverify
      · obtain ⟨samples', hw', hinv', -⟩ := (verifyCoherent_drops hw₁ hverify).keeps keeps hinv₁
        exact ⟨samples', hw', hinv'⟩
      · cases hverify
        exact ⟨samples₁, hw₁, hinv₁⟩

theorem dataReceived_keeps (keeps : Keeps I qos msg) (w : Wf c samples) (inv : I c samples)
    (fresh : Fresh c samples msg) (h : c.dataReceived qos msg = .ok c') :
    ∃ samples', Wf c' samples' ∧ I c' samples' := by
  have hstore : ∀ {stored : Stored × Cache δ}, msg.messageId ≠ .datawriterLiveliness →
      c.storeInstanceData qos msg msg.newElement = .ok stored →
      ∃ samples', Wf stored.2 samples' ∧ I stored.2 samples' := by
    intro stored hkind hstored
    obtain ⟨samples', hw', hinv', -⟩ :=
      storeInstanceData_keeps keeps w inv (fun _ => fresh.handle) ⟨.inl rfl, hkind⟩
        fresh.element hstored
    exact ⟨samples', hw', hinv'⟩
  unfold dataReceived at h
  split at h
  · rename_i hid
    exact sampleReceived_keeps keeps w inv fresh.toUnused (by simp [hid]) h
  · rename_i hid
    exact sampleReceived_keeps keeps w inv fresh.toUnused (by simp [hid]) h
  · obtain ⟨samples', hw', hinv', -⟩ := (verifyCoherent_drops w h).keeps keeps inv
    exact ⟨samples', hw', hinv'⟩
  · rename_i hliveliness
    cases h
    exact ⟨samples, w.restateAll fun state => state.lively msg.pub, keeps.enlivens hliveliness inv⟩
  · rename_i hid
    obtain ⟨-, -, h⟩ := bind_eq_ok h
    obtain ⟨stored, hstored, h⟩ := bind_eq_ok h
    cases h
    exact hstore (by simp [hid]) hstored
  · rename_i hid
    obtain ⟨stored, hstored, h⟩ := bind_eq_ok h
    cases h
    exact hstore (by simp [hid]) hstored
  · rename_i hid
    have hkind : msg.messageId ≠ .datawriterLiveliness := by simp [hid]
    obtain ⟨-, -, h⟩ := bind_eq_ok h
    obtain ⟨disposed, hdisposed, h⟩ := bind_eq_ok h
    obtain ⟨unregistered, hunregistered, h⟩ := bind_eq_ok h
    cases h
    obtain ⟨samples₁, hw₁, hinv₁, hgains⟩ :=
      storeInstanceData_keeps keeps w inv (fun _ => fresh.handle) ⟨.inl rfl, hkind⟩
        fresh.element hdisposed
    have hoff : ∀ i, msg.secondElement ∉ samples₁ i := by
      intro i hin
      rcases hgains i _ hin with hold | hnew
      · exact fresh.second i hold
      · exact fresh.distinct hnew
    have hunused : disposed.2.instanceMap.lookup msg.key = none →
        disposed.2.getHandleInstance msg.newHandle = none :=
      storeInstanceData_unused keeps w inv fresh.handle ⟨.inl rfl, hkind⟩ fresh.element hdisposed
    obtain ⟨samples₂, hw₂, hinv₂, -⟩ :=
      storeInstanceData_keeps keeps hw₁ hinv₁ hunused ⟨.inr rfl, hkind⟩ hoff hunregistered
    exact ⟨samples₂, hw₂, hinv₂⟩
  · cases h
    exact ⟨samples, w, inv⟩

end OpenDDS.Source.ReaderCache

/-!
# The handles of the instances

In every cache that a reader can have, an instance knows its own handle, which is not `HANDLE_NIL`,
and `instance_map_` leads to every instance.
-/
namespace OpenDDS.Source

namespace ReaderCache
open Library.AssociationList Library.Folds Cache

variable {δ : Type} {c c' : Cache δ} {samples samples' : Nat → List Nat} {handle : Nat}
  {inst : SubscriptionInstance} {qos : Qos} {msg : Message δ} {s : InstanceState}

/-- The instances have handles, know them and can be found by a key. -/
structure Addressed (c : Cache δ) : Prop where
  named : ∀ h inst, c.getHandleInstance h = some inst → inst.instanceState.handle = h
  keyed : ∀ h, (c.getHandleInstance h).isSome → ∃ entry ∈ c.instanceMap, entry.2 = h
  nonzero : c.getHandleInstance 0 = none

theorem Addressed.stays (h : Addressed c) (stays : Stays c c') : Addressed c' where
  named i inst' hinst' := by
    obtain ⟨inst, hinst, hcalm⟩ := stays.states i inst' hinst'
    exact hcalm.handle.trans (h.named i inst hinst)
  keyed i hsome := by
    obtain ⟨entry, hentry, rfl⟩ := h.keyed i (stays.remains.found i hsome)
    exact ⟨entry, stays.remains.keys entry hentry hsome, rfl⟩
  nonzero := by
    rw [← Option.not_isSome_iff_eq_none]
    intro hsome
    have hzero := stays.remains.found 0 hsome
    rw [h.nonzero] at hzero
    cases hzero

theorem Addressed.restate {inst' : SubscriptionInstance} (h : Addressed c)
    (found : c.getHandleInstance handle = some inst)
    (same : inst'.instanceState.handle = inst.instanceState.handle)
    (others : ∀ i, i ≠ handle → c'.getHandleInstance i = c.getHandleInstance i)
    (found' : c'.getHandleInstance handle = some inst') (map : c'.instanceMap = c.instanceMap) :
    Addressed c' where
  named i inst hinst := by
    by_cases hi : i = handle
    · subst hi
      cases found'.symm.trans hinst
      exact same.trans (h.named i _ found)
    · rw [others i hi] at hinst
      exact h.named i inst hinst
  keyed i hsome := by
    rw [map]
    apply h.keyed
    by_cases hi : i = handle
    · rw [hi, found]
      rfl
    · rwa [others i hi] at hsome
  nonzero := by
    have hne : 0 ≠ handle := by
      rintro rfl
      rw [h.nonzero] at found
      cases found
    rw [others 0 hne, h.nonzero]

theorem Addressed.restateAll (h : Addressed c) (f : InstanceState → InstanceState)
    (same : ∀ state, (f state).handle = state.handle) :
    Addressed { c with instances := c.instances.map fun entry =>
      (entry.1, { entry.2 with instanceState := f entry.2.instanceState }) } where
  named i inst' hinst' := by
    rw [getHandleInstance_restateAll f] at hinst'
    obtain ⟨inst, hinst, rfl⟩ := Option.map_eq_some_iff.mp hinst'
    exact (same _).trans (h.named i inst hinst)
  keyed i hsome := by
    rw [getHandleInstance_restateAll f, Option.isSome_map] at hsome
    exact h.keyed i hsome
  nonzero := by
    rw [getHandleInstance_restateAll f, h.nonzero]
    rfl

theorem told_handle : (told qos msg s).2.handle = s.handle := by
  unfold told
  split
  · rcases s.disposeWasReceived_cases qos.lifecycle msg.pub msg.isOwner with
      ⟨heq, -⟩ | ⟨-, -, pending, timer, heq⟩
    · rw [heq]
    · rw [heq]
  · unfold InstanceState.unregisterWasReceived
    rcases s.withdraw_cases qos.lifecycle msg.pub with ⟨heq, -⟩ | ⟨-, -, -, pending, timer, heq⟩
    · rw [heq]
    · rw [heq]
  · rfl

theorem lively_handle (s : InstanceState) (writer : Nat) : (s.lively writer).handle = s.handle := by
  unfold InstanceState.lively
  split
  · rfl
  · rfl

theorem writerBecameDead_handle (s : InstanceState) (qos : ReaderDataLifecycle) (writer : Nat) :
    (s.writerBecameDead qos writer).handle = s.handle := by
  unfold InstanceState.writerBecameDead
  rcases s.withdraw_cases qos writer with ⟨heq, -⟩ | ⟨-, -, -, pending, timer, heq⟩
  · rw [heq]
  · rw [heq]

theorem addressed_keeps (qos : Qos) (msg : Message δ) (allocated : msg.newHandle ≠ 0) :
    Keeps (fun c _ => Addressed c) qos msg where
  drops h stays _ := h.stays stays
  enters {c _} _ h _ unused := by
    have hfind : ∀ i, (withInstance c qos msg).getHandleInstance i = if i = msg.newHandle then
        some ⟨.create msg.newHandle qos.exclusive, .empty⟩ else c.getHandleInstance i :=
      getHandleInstance_withInstance unused
    constructor
    · intro i inst hinst
      rw [hfind] at hinst
      split at hinst
      · cases hinst
        exact ‹i = _›.symm
      · exact h.named i inst hinst
    · intro i hsome
      obtain ⟨as, bs, hmap, hinsert⟩ := insertKey_eq msg.key msg.newHandle c.instanceMap
      show ∃ entry ∈ insertKey msg.key msg.newHandle c.instanceMap, entry.2 = i
      rw [hinsert]
      by_cases hi : i = msg.newHandle
      · exact ⟨(msg.key, msg.newHandle), by simp, hi.symm⟩
      · rw [hfind, if_neg hi] at hsome
        obtain ⟨entry, hentry, hhandle⟩ := h.keyed i hsome
        rw [hmap] at hentry
        refine ⟨entry, ?_, hhandle⟩
        exact (List.mem_append.mp hentry).elim (List.mem_append_left _)
          fun hin => List.mem_append_right _ (List.mem_cons_of_mem _ hin)
    · rw [hfind, if_neg allocated.symm, h.nonzero]
  registers _ _ _ _ _ h found :=
    h.restate found (lively_handle _ _)
      (fun i hi => by rw [getHandleInstance_setInstance found, if_neg hi])
      (by rw [getHandleInstance_setInstance found, if_pos rfl]) rfl
  enlivens _ _ _ h := h.restateAll (fun state => state.lively msg.pub) fun _ => lively_handle _ _
  stores h queues := by
    obtain ⟨list, empty, hfound'⟩ := queues.found'
    exact h.restate queues.found told_handle queues.touches.others hfound' queues.touches.map

end ReaderCache

end OpenDDS.Source
