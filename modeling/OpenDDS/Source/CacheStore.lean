import OpenDDS.Source.CacheInvariant

/-!
# Storing a message in a cache in order

Each step of `store_instance_data` on a cache in order: the limits make room or reject the
message, the instance state is told, the sample is queued and the history is trimmed. The
steps name the conditions under which a later step uses what an earlier one has released.
-/
namespace OpenDDS.Source.ReaderCache
open SampleLinks Cache
open Function (update update_eq_self update_idem update_of_ne update_self)

variable {δ : Type} {c c' c'' : Cache δ} {samples : Nat → List Nat} {handle ptr : Nat}
  {inst inst' : SubscriptionInstance} {qos : Qos} {msg : Message δ} {xs ys : List Nat}

/-- What an operation on one instance and one new sample leaves alone. -/
structure Touches (c c' : Cache δ) (handle ptr : Nat) : Prop where
  map : c'.instanceMap = c.instanceMap
  handles : c'.instances.map Prod.fst = c.instances.map Prod.fst
  others : ∀ h, h ≠ handle → c'.getHandleInstance h = c.getHandleInstance h
  elements : ∀ a, a ≠ ptr → c'.element a = c.element a

theorem Touches.refl (c : Cache δ) (handle ptr : Nat) : Touches c c handle ptr :=
  ⟨rfl, rfl, fun _ _ => rfl, fun _ _ => rfl⟩

theorem Touches.trans (h : Touches c c' handle ptr) (h' : Touches c' c'' handle ptr) :
    Touches c c'' handle ptr where
  map := h'.map.trans h.map
  handles := h'.handles.trans h.handles
  others i hi := (h'.others i hi).trans (h.others i hi)
  elements a ha := (h'.elements a ha).trans (h.elements a ha)

theorem Touches.decRef (h : Touches c c' handle ptr) (a : Nat) :
    Touches c (c'.decRefDataElement a) handle ptr :=
  ⟨h.map, h.handles, h.others, h.elements⟩

theorem setInstance_handles (c : Cache δ) (handle : Nat) (inst : SubscriptionInstance) :
    (c.setInstance handle inst).instances.map Prod.fst = c.instances.map Prod.fst := by
  unfold setInstance
  rw [List.map_map]
  apply List.map_congr_left
  intro entry _
  by_cases heq : entry.1 = handle
  · simp [heq]
  · simp [heq]

section

variable (links : SampleLinks) (inst' : SubscriptionInstance)
  (found : c.getHandleInstance handle = some inst)
include found

theorem touches_setInstance :
    Touches c ({ c with links := links }.setInstance handle inst') handle ptr where
  map := rfl
  handles := setInstance_handles _ _ _
  others h hne := by
    rw [getHandleInstance_setInstance (c := { c with links := links }) found, if_neg hne]
    rfl
  elements _ _ := rfl

theorem found_setInstance :
    ({ c with links := links }.setInstance handle inst').getHandleInstance handle = some inst' := by
  rw [getHandleInstance_setInstance (c := { c with links := links }) found, if_pos rfl]

end

/-- A data sample meets a limit. -/
def Limited (c : Cache δ) (qos : Qos) (msg : Message δ) (xs : List Nat) : Prop :=
  c.limitReached qos xs.length = true ∧ msg.isNotice = false

instance : Decidable (Limited c qos msg xs) := inferInstanceAs (Decidable (_ ∧ _))

section

variable (w : Wf c samples) (found : c.getHandleInstance handle = some inst)
include w found

theorem limited_iff : (c.limitReached qos inst.rcvdSamples.size && !msg.isNotice) = true ↔
      Limited c qos msg (samples handle) := by
  unfold Limited
  rw [(w.lists handle inst found).size]
  simp

theorem makeRoom_pass (free : ¬ Limited c qos msg (samples handle)) :
    c.makeRoom qos handle msg = .ok (false, c) := by
  unfold makeRoom
  rw [deref_eq_ok found]
  exact if_neg (mt (limited_iff w found).mp free)

theorem makeRoom_limited (limited : Limited c qos msg (samples handle)) :
    c.makeRoom qos handle msg =
      (match (samples handle).head? with
      | none => .error .emptyHead
      | some head =>
        if (c.element head).sampleState = .notRead then .ok (true, c)
        else (c.removeSample handle head).map fun removed =>
          (false, removed.2.decRefDataElement head)) := by
  unfold makeRoom
  rw [deref_eq_ok found, ← (w.lists handle inst found).head]
  exact if_pos ((limited_iff w found).mpr limited)

end

theorem Wf.decRef {a : Nat} (w : Wf c samples) (off : ∀ h, a ∉ samples h) :
    Wf (c.decRefDataElement a) samples where
  mapped := w.mapped
  distinct := w.distinct
  lists := w.lists
  vacant := w.vacant
  apart := w.apart
  live h x hx := by
    have hne : x ≠ a := fun heq => off h (heq ▸ hx)
    show 0 < update c.refCount a (c.refCount a - 1) x
    rw [update_of_ne hne]
    exact w.live h x hx

theorem Wf.head_off {x : Nat} (w : Wf c samples) (hxs : samples handle = x :: xs) :
    ∀ h, x ∉ update samples handle xs h := by
  intro h hin
  by_cases heq : h = handle
  · rw [heq, update_self] at hin
    have hnodup := w.apart.nodup handle
    rw [hxs] at hnodup
    exact (List.nodup_cons.mp hnodup).1 hin
  · rw [update_of_ne heq] at hin
    exact heq (w.apart.unique hin (by simp [hxs]))

theorem makeRoom_evicts {x : Nat} (ptr : Nat) (w : Wf c samples)
    (found : c.getHandleInstance handle = some inst)
    (limited : Limited c qos msg (samples handle)) (hxs : samples handle = x :: xs)
    (read : (c.element x).sampleState ≠ .notRead) :
    (Releases inst.instanceState xs.isEmpty → ∃ c', c.makeRoom qos handle msg = .ok (false, c') ∧
        c'.getHandleInstance handle = none) ∧
      (¬ Releases inst.instanceState xs.isEmpty → ∃ c' list, c.makeRoom qos handle msg = .ok (false, c') ∧
        Wf c' (update samples handle xs) ∧ Touches c c' handle ptr ∧
        c'.getHandleInstance handle = some ⟨emptied inst.instanceState xs.isEmpty, list⟩) := by
  have hmem : x ∈ samples handle := by simp [hxs]
  obtain ⟨links, list, hlists, hrelinked, hremove⟩ := removeSample_eq w found hmem
  have herase : (samples handle).erase x = xs := by rw [hxs, List.erase_cons_head]
  have htold : decide ((samples handle).erase x = []) = xs.isEmpty := by
    rw [herase]
    cases xs <;> rfl
  have hroom := makeRoom_limited w found limited
  rw [htold] at hremove
  rw [hxs, List.head?_cons] at hroom
  dsimp only at hroom
  rw [if_neg read, hremove] at hroom
  constructor
  · intro hreleases
    refine ⟨_, hroom, ?_⟩
    rw [removed_released hreleases]
    show (({ c with links := links }.release handle).getHandleInstance handle) = none
    rw [getHandleInstance_release, if_pos rfl]
  · intro hkept
    rw [removed_kept hkept] at hroom
    have hsub : xs.Sublist (samples handle) := by
      rw [hxs]
      exact List.sublist_cons_self x xs
    have hshort := w.shorten found (herase ▸ hlists) hrelinked hsub
      (emptied inst.instanceState xs.isEmpty)
    refine ⟨_, list, hroom, ?_, ?_, ?_⟩
    · exact hshort.decRef (w.head_off hxs)
    · exact (touches_setInstance links _ found).decRef x
    · exact found_setInstance links _ found

theorem Wf.restate (w : Wf c samples) (found : c.getHandleInstance handle = some inst)
    (state : InstanceState) : Wf (c.setInstance handle ⟨state, inst.rcvdSamples⟩) samples := by
  have hshort := w.shorten found (w.lists handle inst found) (Relinked.refl _ _)
    (List.Sublist.refl _) state
  rw [update_eq_self] at hshort
  exact hshort

/-- What the instance state is told, and whether a sample is queued for it. -/
def told (qos : Qos) (msg : Message δ) (state : InstanceState) : Bool × InstanceState :=
  match msg.messageId with
  | .disposeInstance => state.disposeWasReceived qos.lifecycle msg.isOwner msg.pub
  | .unregisterInstance => state.unregisterWasReceived qos.lifecycle msg.pub
  | _ => (true, state.dataWasReceived msg.pub)

theorem told_data (data : msg.isNotice = false) (state : InstanceState) :
    told qos msg state = (true, state.dataWasReceived msg.pub) := by
  unfold Message.isNotice at data
  unfold told
  split
  · rename_i hid
    simp [hid] at data
  · rename_i hid
    simp [hid] at data
  · rfl

theorem recordMessage_eq (found : c.getHandleInstance handle = some inst) :
    c.recordMessage qos handle msg = .ok ((told qos msg inst.instanceState).1,
      c.setInstance handle { inst with instanceState := (told qos msg inst.instanceState).2 }) := by
  unfold recordMessage
  rw [deref_eq_ok found]
  rfl

theorem Wf.allocate (w : Wf c samples) (off : ∀ h, ptr ∉ samples h) (item : ReceivedDataElement δ) :
    Wf (c.allocate ptr item) samples where
  mapped := w.mapped
  distinct := w.distinct
  lists := w.lists
  vacant := w.vacant
  apart := w.apart
  live h x hx := by
    have hne : x ≠ ptr := fun heq => off h (heq ▸ hx)
    show 0 < update c.refCount ptr 1 x
    rw [update_of_ne hne]
    exact w.live h x hx

def inserted (qos : Qos) (timestamp : Nat → Int) (ptr : Nat) (xs : List Nat) : List Nat :=
  if qos.bySourceTimestamp then SourceDataStrategy.insertSample timestamp ptr xs else xs ++ [ptr]

theorem inserted_perm (qos : Qos) (timestamp : Nat → Int) (ptr : Nat) (xs : List Nat) :
    (inserted qos timestamp ptr xs).Perm (ptr :: xs) := by
  unfold inserted
  split
  · exact SourceDataStrategy.insertSample_perm timestamp ptr xs
  · exact List.perm_append_singleton ptr xs

theorem addSample_eq (qos : Qos) (w : Wf c samples) (found : c.getHandleInstance handle = some inst)
    (off : ∀ h, ptr ∉ samples h) :
    ∃ links list empty,
      links.Lists list (inserted qos (fun a => (c.element a).sourceTimestamp) ptr (samples handle)) ∧
      c.links.Relinked links
        (inserted qos (fun a => (c.element a).sourceTimestamp) ptr (samples handle)) ∧
      c.addSample qos handle ptr = .ok ({ c with links := links }.setInstance handle
        ⟨{ inst.instanceState with empty := empty }, list⟩) := by
  have hlists := w.lists handle inst found
  have hnodup := w.apart.nodup handle
  unfold addSample inserted
  rw [deref_eq_ok found]
  by_cases hsource : qos.bySourceTimestamp = true
  · obtain ⟨atEnd, links, list, hadd, hlists', hrelinked, -⟩ :=
      SourceDataStrategy.add_spec (fun a => (c.element a).sourceTimestamp) hlists hnodup (off handle)
    refine ⟨links, list, if atEnd then false else inst.instanceState.empty, ?_, ?_, ?_⟩
    · rw [if_pos hsource]
      exact hlists'
    · rw [if_pos hsource]
      exact hrelinked
    · dsimp only [bind, Except.bind]
      rw [if_pos hsource, hadd]
      cases atEnd <;> rfl
  · obtain ⟨links, list, hadd, hlists', hrelinked⟩ :=
      ReceivedDataElementList.add_spec hlists hnodup (off handle)
    refine ⟨links, list, false, ?_, ?_, ?_⟩
    · rw [if_neg hsource]
      exact hlists'
    · rw [if_neg hsource]
      exact hrelinked
    · dsimp only [bind, Except.bind]
      rw [if_neg hsource, hadd]
      rfl

/-- The timestamps once the sample of a message is allocated. -/
def timestamps (c : Cache δ) (msg : Message δ) (ptr : Nat) : Nat → Int :=
  fun a => if a = ptr then msg.sourceTimestamp else (c.element a).sourceTimestamp

def queued (c : Cache δ) (qos : Qos) (msg : Message δ) (ptr : Nat) (xs : List Nat) : List Nat :=
  inserted qos (timestamps c msg ptr) ptr xs

/-- A data sample makes the list longer than the history depth. -/
def Trims (qos : Qos) (msg : Message δ) (ys : List Nat) : Prop :=
  msg.isNotice = false ∧ qos.depth < ys.length

instance : Decidable (Trims qos msg ys) := inferInstanceAs (Decidable (_ ∧ _))

def kept (qos : Qos) (msg : Message δ) (ys : List Nat) : List Nat :=
  if Trims qos msg ys then ys.tail else ys

theorem allocate_timestamps (state : InstanceState) :
    (fun a => ((c.allocate ptr (newSample state msg)).element a).sourceTimestamp) =
      timestamps c msg ptr := by
  funext a
  unfold Cache.allocate timestamps
  dsimp only
  by_cases ha : a = ptr
  · rw [ha, update_self, if_pos rfl]
    rfl
  · rw [update_of_ne ha, if_neg ha]

theorem add_queued (qos : Qos) (msg : Message δ) (w : Wf c samples) (found : c.getHandleInstance handle = some inst)
    (off : ∀ h, ptr ∉ samples h) : ∃ c₁ list empty,
      (c.allocate ptr (newSample inst.instanceState msg)).addSample qos handle ptr = .ok c₁ ∧
      Wf c₁ (update samples handle (queued c qos msg ptr (samples handle))) ∧
      Touches c c₁ handle ptr ∧
      c₁.getHandleInstance handle = some ⟨{ inst.instanceState with empty := empty }, list⟩ ∧
      c₁.refCount ptr = 1 ∧ c₁.element ptr = newSample inst.instanceState msg := by
  have hw := w.allocate off (newSample inst.instanceState msg)
  have hfound : (c.allocate ptr (newSample inst.instanceState msg)).getHandleInstance handle =
      some inst := found
  obtain ⟨links, list, empty, hlists, hrelinked, hadd⟩ := addSample_eq qos hw hfound off
  rw [allocate_timestamps] at hlists hrelinked
  have hperm := inserted_perm qos (timestamps c msg ptr) ptr (samples handle)
  have hcase : ∀ x ∈ queued c qos msg ptr (samples handle), x = ptr ∨ x ∈ samples handle := by
    intro x hx
    exact List.mem_cons.mp (hperm.mem_iff.mp hx)
  have hown : ∀ x ∈ queued c qos msg ptr (samples handle), ∀ h, x ∈ samples h → h = handle := by
    intro x hx h hmem
    rcases hcase x hx with rfl | hin
    · exact absurd hmem (off h)
    · exact w.own x hin h hmem
  have hcount : (c.allocate ptr (newSample inst.instanceState msg)).refCount ptr = 1 :=
    update_self ..
  refine ⟨_, list, empty, hadd, ?_, ?_, ?_, ?_, ?_⟩
  · apply hw.step ⟨{ inst.instanceState with empty := empty }, list⟩
      (queued c qos msg ptr (samples handle))
    · rfl
    · intro h
      exact getHandleInstance_setInstance
        (c := { c.allocate ptr (newSample inst.instanceState msg) with links := links }) hfound
    · exact hlists
    · exact hrelinked
    · exact hown
    · exact hperm.nodup_iff.mpr (List.nodup_cons.mpr ⟨off handle, w.apart.nodup handle⟩)
    · exact hown
    · intro x hx
      rcases hcase x hx with heq | hin
      · rw [heq]
        exact Nat.lt_of_lt_of_eq Nat.zero_lt_one hcount.symm
      · exact hw.live handle x hin
    · intro h _ x hx
      exact hw.live h x hx
  · refine ⟨rfl, setInstance_handles _ _ _, ?_, ?_⟩
    · intro h hne
      rw [getHandleInstance_setInstance
        (c := { c.allocate ptr (newSample inst.instanceState msg) with links := links }) hfound,
        if_neg hne]
      rfl
    · intro a ha
      exact update_of_ne ha _ _
  · exact found_setInstance (c := c.allocate ptr (newSample inst.instanceState msg)) links _ hfound
  · exact hcount
  · exact update_self ..

theorem trim_keep (w : Wf c samples) (found : c.getHandleInstance handle = some inst)
    (short : ¬ Trims qos msg (samples handle)) : c.trim qos handle msg = .ok (false, c) := by
  unfold trim
  rw [deref_eq_ok found]
  apply if_neg
  rw [(w.lists handle inst found).size]
  simpa [Trims] using short

theorem trim_drop {x : Nat} (ptr : Nat) (w : Wf c samples) (found : c.getHandleInstance handle = some inst)
    (trims : Trims qos msg (samples handle)) (hxs : samples handle = x :: xs)
    (calm : inst.instanceState.releasePending = false) : ∃ c' list empty,
      c.trim qos handle msg = .ok (decide ((c.element x).sampleState = .notRead), c') ∧
      Wf c' (update samples handle xs) ∧
      Touches c c' handle ptr ∧
      c'.getHandleInstance handle = some ⟨{ inst.instanceState with empty := empty }, list⟩ ∧
      c'.refCount = update c.refCount x (c.refCount x - 1) ∧ c'.element = c.element := by
  have hmem : x ∈ samples handle := by simp [hxs]
  obtain ⟨links, list, hlists, hrelinked, hremove⟩ := removeSample_eq w found hmem
  have herase : (samples handle).erase x = xs := by rw [hxs, List.erase_cons_head]
  rw [herase] at hlists hremove
  have hkept : ¬ Releases inst.instanceState (decide (xs = [])) := by
    rintro ⟨-, hpending, -⟩
    rw [calm] at hpending
    cases hpending
  rw [removed_kept hkept] at hremove
  have hsub : xs.Sublist (samples handle) := by
    rw [hxs]
    exact List.sublist_cons_self x xs
  have hshort := w.shorten found hlists hrelinked hsub
    (emptied inst.instanceState (decide (xs = [])))
  refine ⟨_, list, _, ?_, hshort.decRef (w.head_off hxs), (touches_setInstance links _ found).decRef x,
    found_setInstance links _ found, rfl, rfl⟩
  unfold trim
  rw [deref_eq_ok found]
  have hcond : (!msg.isNotice && decide (inst.rcvdSamples.size > qos.depth)) = true := by
    rw [(w.lists handle inst found).size]
    simpa [Trims] using trims
  dsimp only [bind, Except.bind]
  rw [if_pos hcond, (w.lists handle inst found).head, hxs, List.head?_cons]
  dsimp only
  rw [hremove]

/-- The new sample is freed: the trim drops it, or it is taken while the loss of the head of
the list, which is unread, is told of. -/
def Frees (c : Cache δ) (ptr : Nat) (taken : Bool) (ys : List Nat) : Prop :=
  ys.head? = some ptr ∨ taken = true ∧ ∃ x, ys.head? = some x ∧ (c.element x).sampleState = .notRead

theorem Touches.frees_iff {taken : Bool} (h : Touches c c' handle ptr) :
    Frees c' ptr taken ys ↔ Frees c ptr taken ys := by
  unfold Frees
  by_cases hhead : ys.head? = some ptr
  · exact iff_of_true (.inl hhead) (.inl hhead)
  · have hsame : ∀ x, ys.head? = some x → c'.element x = c.element x := by
      intro x hx
      exact h.elements x fun heq => hhead (heq ▸ hx)
    rw [or_iff_right hhead, or_iff_right hhead]
    apply and_congr_right'
    constructor
    · rintro ⟨x, hx, hnot⟩
      exact ⟨x, hx, hsame x hx ▸ hnot⟩
    · rintro ⟨x, hx, hnot⟩
      exact ⟨x, hx, (hsame x hx).symm ▸ hnot⟩

/-- The end of `store_instance_data`: the new sample is used after it was freed, or it is on the
list of the instance behind the trim. -/
theorem queueSample_spec (qos : Qos) (msg : Message δ) (taken : Bool) (w : Wf c samples)
    (found : c.getHandleInstance handle = some inst) (off : ∀ h, ptr ∉ samples h)
    (calm : msg.isNotice = false → inst.instanceState.releasePending = false) :
    (Trims qos msg (queued c qos msg ptr (samples handle)) ∧
        Frees c ptr taken (queued c qos msg ptr (samples handle)) →
      c.queueSample qos handle msg ptr taken = .error .releasedElement) ∧
    (¬ (Trims qos msg (queued c qos msg ptr (samples handle)) ∧
        Frees c ptr taken (queued c qos msg ptr (samples handle))) →
      ∃ c' list empty, c.queueSample qos handle msg ptr taken = .ok c' ∧
        Wf c' (update samples handle
          (kept qos msg (queued c qos msg ptr (samples handle)))) ∧
        Touches c c' handle ptr ∧
        c'.getHandleInstance handle = some ⟨{ inst.instanceState with empty := empty }, list⟩ ∧
        c'.element ptr = newSample inst.instanceState msg) := by
  obtain ⟨c₁, list₁, empty₁, hadd, hw₁, htouches₁, hfound₁, hcount₁, helement₁⟩ :=
    add_queued qos msg w found off
  have hlist : update samples handle (queued c qos msg ptr (samples handle)) handle =
      queued c qos msg ptr (samples handle) := update_self ..
  have hqueue : c.queueSample qos handle msg ptr taken =
      (c₁.trim qos handle msg).bind fun trimmed =>
        if trimmed.2.refCount ptr = 0 ∨ (trimmed.1 && taken) = true then .error .releasedElement
        else .ok trimmed.2 := by
    unfold queueSample
    rw [deref_eq_ok found]
    dsimp only [bind, Except.bind]
    rw [hadd]
  rw [← htouches₁.frees_iff]
  by_cases htrims : Trims qos msg (queued c qos msg ptr (samples handle))
  · have hne : queued c qos msg ptr (samples handle) ≠ [] := by
      intro hnil
      have hmem := (inserted_perm qos (timestamps c msg ptr) ptr (samples handle)).mem_iff.mpr
        (List.mem_cons_self)
      unfold queued at hnil
      rw [hnil] at hmem
      exact List.not_mem_nil hmem
    obtain ⟨x, xs, hxs⟩ := List.exists_cons_of_ne_nil hne
    rw [← hlist] at htrims
    obtain ⟨c₂, list₂, empty₂, htrim, hw₂, htouches₂, hfound₂, hcount₂, helement₂⟩ :=
      trim_drop ptr hw₁ hfound₁ htrims (hlist.trans hxs) (calm htrims.1)
    rw [hlist] at htrims
    rw [htrim] at hqueue
    have hfreed : (c₂.refCount ptr = 0 ∨
        (decide ((c₁.element x).sampleState = .notRead) && taken) = true) ↔
        Frees c₁ ptr taken (queued c qos msg ptr (samples handle)) := by
      have hcount : c₂.refCount ptr = 0 ↔ x = ptr := by
        rw [hcount₂]
        by_cases hx : x = ptr
        · rw [hx, update_self, hcount₁]
          exact iff_of_true rfl rfl
        · rw [update_of_ne (Ne.symm hx), hcount₁]
          exact iff_of_false Nat.one_ne_zero hx
      unfold Frees
      rw [hcount, hxs, List.head?_cons]
      simp [and_comm]
    constructor
    · rintro ⟨-, hfrees⟩
      rw [hqueue]
      exact if_pos (hfreed.mpr hfrees)
    · intro hsafe
      refine ⟨c₂, list₂, empty₂, ?_, ?_, htouches₁.trans htouches₂, hfound₂, ?_⟩
      · rw [hqueue]
        exact if_neg fun h => hsafe ⟨htrims, hfreed.mp h⟩
      · rw [update_idem] at hw₂
        unfold kept
        rw [if_pos htrims, hxs]
        exact hw₂
      · rw [helement₂]
        exact helement₁
  · have hshort : ¬ Trims qos msg (update samples handle
        (queued c qos msg ptr (samples handle)) handle) := by
      rw [hlist]
      exact htrims
    rw [trim_keep hw₁ hfound₁ hshort] at hqueue
    constructor
    · rintro ⟨htrims', -⟩
      exact absurd htrims' htrims
    · intro _
      refine ⟨c₁, list₁, empty₁, ?_, ?_, htouches₁, hfound₁, helement₁⟩
      · rw [hqueue]
        apply if_neg
        simp [hcount₁]
      · unfold kept
        rw [if_neg htrims]
        exact hw₁

end OpenDDS.Source.ReaderCache
