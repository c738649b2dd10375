import OpenDDS.Source.CacheReception
import OpenDDS.Source.RakeCopying
import OpenDDS.Source.RakeSelection

/-!
# What does not touch the generations

Most of what is done to a cache takes samples off their lists, marks them, or releases instances:
room is made, a history is trimmed, a coherent set ends, samples are read or taken, a loan comes
back. The instances that are left have their handles, their states and their generation counts
still, and so have the samples their counts. Only a message or a writer that dies changes more.
-/
namespace OpenDDS.Source

/-- How often the instance came back after a disposal, and after the loss of its writers. -/
def InstanceState.counts (state : InstanceState) : Nat × Nat :=
  (state.disposedGenerationCount, state.noWritersGenerationCount)

/-- The handle, the kind and the counts of an instance are the same. -/
structure InstanceState.Calm (s s' : InstanceState) : Prop where
  handle : s'.handle = s.handle
  kind : s'.instanceState = s.instanceState
  counts : s'.counts = s.counts

namespace ReaderCache
open Library.LinkedList Library.Folds SampleLinks Cache
open Function (update update_of_ne update_self)

variable {δ : Type} {c c' c'' : Cache δ} {samples samples' : Nat → List Nat} {handle a : Nat}
  {inst : SubscriptionInstance} {qos : Qos} {msg : Message δ} {handles : List Nat}
  {s s' s'' : InstanceState}

theorem calm_refl (s : InstanceState) : s.Calm s := ⟨rfl, rfl, rfl⟩

theorem calm_trans (h : s.Calm s') (h' : s'.Calm s'') : s.Calm s'' :=
  ⟨h'.handle.trans h.handle, h'.kind.trans h.kind, h'.counts.trans h.counts⟩

namespace Cache

variable (c : Cache δ)

/-- The counts that a sample was stored with. -/
def counts (a : Nat) : Nat × Nat :=
  ((c.element a).disposedGenerationCount, (c.element a).noWritersGenerationCount)

/-- The samples on the list of an instance. -/
def held (handle : Nat) : List Nat :=
  match c.getHandleInstance handle with
  | none => []
  | some inst =>
    (walk c.links.nextDataSample inst.rcvdSamples.size.toNat inst.rcvdSamples.head).getD []

def instancesLivelinessUpdate (qos : Qos) (writer : Nat) : Cache δ :=
  { c with instances := c.instances.map fun entry =>
      (entry.1, { entry.2 with
        instanceState := entry.2.instanceState.writerBecameDead qos.lifecycle writer }) }

/-- `release_instance`, with the samples that the instance still has; an unknown handle is
reported. -/
def releaseInstance (handle : Nat) : Cache δ :=
  { c with refCount := fun a => if a ∈ c.held handle then c.refCount a - 1 else c.refCount a }.release
    handle

end Cache

theorem held_eq (w : Wf c samples) (handle : Nat) : c.held handle = samples handle := by
  unfold held
  cases hfind : c.getHandleInstance handle with
  | none => exact (w.vacant handle hfind).symm
  | some inst =>
    dsimp only
    rw [(w.lists handle inst hfind).walk]
    rfl

/-- What is there of the instances was there before, and the keys lead to it still. -/
structure Remains (c c' : Cache δ) : Prop where
  found : ∀ h, (c'.getHandleInstance h).isSome → (c.getHandleInstance h).isSome
  keys : ∀ entry ∈ c.instanceMap, (c'.getHandleInstance entry.2).isSome → entry ∈ c'.instanceMap

theorem Remains.trans (h : Remains c c') (h' : Remains c' c'') : Remains c c'' where
  found i hi := h.found i (h'.found i hi)
  keys entry hentry hsome := h'.keys entry (h.keys entry hentry (h'.found _ hsome)) hsome

/-- The samples and the instances that are left are as they were, but for what does not count. -/
structure Stays (c c' : Cache δ) : Prop where
  remains : Remains c c'
  mapped : ∀ entry ∈ c'.instanceMap, entry ∈ c.instanceMap
  counts : ∀ a, c'.counts a = c.counts a
  states : ∀ h inst', c'.getHandleInstance h = some inst' → ∃ inst,
    c.getHandleInstance h = some inst ∧ inst.instanceState.Calm inst'.instanceState

theorem stays_of_eq (map : c'.instanceMap = c.instanceMap) (instances : c'.instances = c.instances)
    (counts : ∀ a, c'.counts a = c.counts a) : Stays c c' := by
  have hfind : ∀ h, c'.getHandleInstance h = c.getHandleInstance h := by
    intro h
    unfold getHandleInstance
    rw [instances]
  refine ⟨⟨fun h hsome => hfind h ▸ hsome, fun entry hentry _ => map ▸ hentry⟩,
    fun entry hentry => map ▸ hentry, counts, ?_⟩
  intro h inst hinst
  exact ⟨inst, hfind h ▸ hinst, calm_refl _⟩

theorem Stays.refl (c : Cache δ) : Stays c c := stays_of_eq rfl rfl fun _ => rfl

theorem Stays.trans (h : Stays c c') (h' : Stays c' c'') : Stays c c'' where
  remains := h.remains.trans h'.remains
  mapped entry hentry := h.mapped entry (h'.mapped entry hentry)
  counts a := (h'.counts a).trans (h.counts a)
  states i inst'' hinst'' := by
    obtain ⟨inst', hinst', hcalm'⟩ := h'.states i inst'' hinst''
    obtain ⟨inst, hinst, hcalm⟩ := h.states i inst' hinst'
    exact ⟨inst, hinst, calm_trans hcalm hcalm'⟩

theorem deref_found (h : c.deref handle = .ok inst) : c.getHandleInstance handle = some inst := by
  unfold deref at h
  split at h
  · rename_i hfound
    cases h
    exact hfound
  · cases h

theorem stays_setInstance {inst' : SubscriptionInstance} (links : SampleLinks)
    (found : c.getHandleInstance handle = some inst)
    (calm : inst.instanceState.Calm inst'.instanceState) :
    Stays c ({ c with links := links }.setInstance handle inst') where
  remains := by
    refine ⟨fun h hsome => ?_, fun _ hentry _ => hentry⟩
    rw [getHandleInstance_setInstance (c := { c with links := links }) found] at hsome
    split at hsome
    · rename_i hh
      rw [hh, found]
      rfl
    · exact hsome
  mapped _ hentry := hentry
  counts _ := rfl
  states h i hi := by
    rw [getHandleInstance_setInstance (c := { c with links := links }) found] at hi
    split at hi
    · rename_i hh
      cases hi
      exact ⟨inst, hh ▸ found, calm⟩
    · exact ⟨i, hi, calm_refl _⟩

theorem stays_release (links : SampleLinks) :
    Stays c ({ c with links := links }.release handle) where
  remains := by
    constructor
    · intro h hsome
      rw [getHandleInstance_release] at hsome
      split at hsome
      · cases hsome
      · exact hsome
    · intro entry hentry hsome
      rw [getHandleInstance_release] at hsome
      split at hsome
      · cases hsome
      · exact List.mem_filter.mpr ⟨hentry, by simpa using ‹_›⟩
  mapped _ hentry := (List.mem_filter.mp hentry).1
  counts _ := rfl
  states h i hi := by
    rw [getHandleInstance_release] at hi
    split at hi
    · cases hi
    · exact ⟨i, hi, calm_refl _⟩

theorem stays_decRef (c : Cache δ) (a : Nat) : Stays c (c.decRefDataElement a) :=
  stays_of_eq rfl rfl fun _ => rfl

theorem setEmpty_calm (state : InstanceState) (value : Bool) : state.Calm (state.setEmpty value).2 := by
  unfold InstanceState.setEmpty InstanceState.releaseIfEmpty InstanceState.schedulePending
  split
  · split <;> exact ⟨rfl, rfl, rfl⟩
  · exact ⟨rfl, rfl, rfl⟩

theorem stays_removed (found : c.getHandleInstance handle = some inst)
    (result : Bool × SampleLinks × Header Nat) : Stays c (c.removed handle inst result).2 := by
  unfold Cache.removed
  dsimp only
  split
  · split
    · exact stays_release _
    · exact stays_setInstance _ found (setEmpty_calm _ _)
  · exact stays_setInstance _ found (calm_refl _)

theorem stays_removeSample {removed : Bool × Cache δ} (h : c.removeSample handle a = .ok removed) :
    Stays c removed.2 := by
  obtain ⟨inst, hderef, h⟩ := bind_eq_ok h
  split at h
  · cases h
  · cases h
    exact stays_removed (deref_found hderef) _

theorem removeSample_later {removed : Bool × Cache δ} (w : Wf c samples) (own : a ∈ samples handle)
    (h : c.removeSample handle a = .ok removed) :
    Wf (removed.2.decRefDataElement a) (update samples handle ((samples handle).erase a)) ∧
    Stays c (removed.2.decRefDataElement a) := by
  obtain ⟨inst, -, hfound, -⟩ := w.owner own
  obtain ⟨released, c', hok, hw, -⟩ := removeSample_spec w hfound own
  have hstays := (stays_removeSample h).trans (stays_decRef removed.2 a)
  rw [hok] at h
  cases h
  exact ⟨hw, hstays⟩

theorem sublist_update {ys : List Nat} (sub : ys.Sublist (samples handle)) (h : Nat) :
    (update samples handle ys h).Sublist (samples h) := by
  by_cases hh : h = handle
  · rw [hh, update_self]
    exact sub
  · rw [update_of_ne hh]

/-- A cache in order from which samples may have gone. -/
def Drops (c : Cache δ) (samples : Nat → List Nat) (c' : Cache δ) : Prop :=
  Stays c c' ∧ ∃ samples', Wf c' samples' ∧ ∀ h, (samples' h).Sublist (samples h)

theorem Drops.refl (w : Wf c samples) : Drops c samples c :=
  ⟨.refl c, samples, w, fun _ => List.Sublist.refl _⟩

theorem makeRoom_drops {room : Bool × Cache δ} (w : Wf c samples)
    (h : c.makeRoom qos handle msg = .ok room) : Drops c samples room.2 := by
  have hderef : ∃ inst, c.getHandleInstance handle = some inst := by
    obtain ⟨inst, hderef, -⟩ := bind_eq_ok h
    exact ⟨inst, deref_found hderef⟩
  obtain ⟨inst, hfound⟩ := hderef
  by_cases hlimited : Limited c qos msg (samples handle)
  · rw [makeRoom_limited w hfound hlimited] at h
    cases hhead : (samples handle).head? with
    | none =>
      rw [hhead] at h
      cases h
    | some head =>
      rw [hhead] at h
      dsimp only at h
      split at h
      · cases h
        exact .refl w
      · obtain ⟨removed, hremove, rfl⟩ := map_eq_ok h
        obtain ⟨hw, hstays⟩ := removeSample_later w (List.mem_of_mem_head? hhead) hremove
        exact ⟨hstays, _, hw, sublist_update List.erase_sublist⟩
  · rw [makeRoom_pass w hfound hlimited] at h
    cases h
    exact .refl w

theorem trim_drops {unread : Bool} (w : Wf c samples)
    (h : c.trim qos handle msg = .ok (unread, c')) : Drops c samples c' := by
  obtain ⟨inst, hderef, h⟩ := bind_eq_ok h
  have hhead := (w.lists handle inst (deref_found hderef)).head
  split at h
  · split at h
    · cases h
    · rename_i head hsome
      rw [hhead] at hsome
      obtain ⟨removed, hremove, h⟩ := bind_eq_ok h
      cases h
      obtain ⟨hw, hstays⟩ := removeSample_later w (List.mem_of_mem_head? hsome) hremove
      exact ⟨hstays, _, hw, sublist_update List.erase_sublist⟩
  · cases h
    exact .refl w

theorem told_calm (ignored : (told qos msg s).1 = false) : s.Calm (told qos msg s).2 := by
  unfold told at ignored ⊢
  split at ignored
  · rcases s.disposeWasReceived_cases qos.lifecycle msg.pub msg.isOwner with ⟨heq, -⟩ | ⟨htold, -⟩
    · rw [heq]
      exact ⟨rfl, rfl, rfl⟩
    · rw [htold] at ignored
      cases ignored
  · unfold InstanceState.unregisterWasReceived at ignored ⊢
    rcases s.withdraw_cases qos.lifecycle msg.pub with ⟨heq, -⟩ | ⟨htold, -⟩
    · rw [heq]
      exact ⟨rfl, rfl, rfl⟩
    · rw [htold] at ignored
      cases ignored
  · cases ignored

theorem restate_drops {state : InstanceState} (w : Wf c samples)
    (found : c.getHandleInstance handle = some inst) (calm : inst.instanceState.Calm state) :
    Drops c samples (c.setInstance handle { inst with instanceState := state }) :=
  ⟨stays_setInstance c.links found calm, samples, w.restate found _, fun _ => List.Sublist.refl _⟩

theorem acceptCoherent_drops (writer publisher : Nat) (w : Wf c samples)
    (h : c.acceptCoherent writer publisher handles = .ok c') : Drops c samples c' := by
  have hkeeps : Stays c c' ∧ Wf c' samples := by
    refine foldlM_preserves (fun c' : Cache δ => Stays c c' ∧ Wf c' samples) ?_ ⟨.refl c, w⟩ h
    rintro c₁ c₂ handle - ⟨hstays, hw⟩ hstep
    obtain ⟨inst, -, hstep⟩ := bind_eq_ok hstep
    split at hstep
    · cases hstep
    · cases hstep
      refine ⟨hstays.trans (stays_of_eq rfl rfl ?_),
        ⟨hw.mapped, hw.distinct, hw.lists, hw.vacant, hw.apart, hw.live⟩⟩
      intro a
      unfold Cache.counts
      dsimp only
      split <;> rfl
  exact ⟨hkeeps.1, samples, hkeeps.2, fun _ => List.Sublist.refl _⟩

theorem stays_rejectCoherent (writer publisher : Nat)
    (h : c.rejectCoherent writer publisher handles = .ok c') : Stays c c' := by
  refine foldlM_preserves (fun c' : Cache δ => Stays c c') ?_ (.refl c) h
  intro c₁ c₂ handle _ hstays hstep
  obtain ⟨inst, hderef, hstep⟩ := bind_eq_ok hstep
  split at hstep
  · cases hstep
  · split at hstep
    · cases hstep
    · cases hstep
      exact hstays.trans (stays_removed (deref_found hderef) _)

theorem rejectCoherent_wf (writer publisher : Nat) (w : Wf c samples)
    (found : ∀ h ∈ handles, (c.getHandleInstance h).isSome)
    (h : c.rejectCoherent writer publisher handles = .ok c') :
    ∃ samples', Wf c' samples' ∧ ∀ h, (samples' h).Sublist (samples h) := by
  induction handles generalizing c samples with
  | nil =>
    cases h
    exact ⟨samples, w, fun _ => List.Sublist.refl _⟩
  | cons handle handles ih =>
    obtain ⟨inst, hfound⟩ := Option.isSome_iff_exists.mp (found handle List.mem_cons_self)
    obtain ⟨hbad, hgood⟩ := rejectCoherent_cons writer publisher w hfound handles
    by_cases hdoomed : Doomed c samples writer publisher handle
    · rw [hbad hdoomed] at h
      cases h
    · obtain ⟨c₁, heq, hw₁, hothers, hsome, -⟩ := hgood hdoomed
      rw [heq] at h
      have hfound₁ : ∀ i ∈ handles, (c₁.getHandleInstance i).isSome := by
        intro i hi
        by_cases hih : i = handle
        · rw [hih]
          exact hsome
        · rw [hothers i hih]
          exact found i (List.mem_cons_of_mem handle hi)
      obtain ⟨samples', hw', hsub⟩ := ih hw₁ hfound₁ h
      exact ⟨samples', hw', fun i => (hsub i).trans (sublist_update List.filter_sublist i)⟩

theorem verifyCoherent_drops (w : Wf c samples) (h : c.verifyCoherent msg = .ok c') :
    Drops c samples c' := by
  unfold verifyCoherent at h
  split at h
  · cases h
    exact .refl w
  · exact acceptCoherent_drops _ _ w h
  · exact ⟨stays_rejectCoherent _ _ h, rejectCoherent_wf _ _ w (fun _ => found_of_mem) h⟩

theorem stays_copyOne {oper : Operation} {zeroCopy : Bool} {s s' : Copying δ} {rd : RakeData}
    (h : s.copyOne oper zeroCopy rd = .ok s') : Stays s.cache s'.cache := by
  unfold Copying.copyOne at h
  split at h
  · cases h
  · obtain ⟨inst, -, h⟩ := bind_eq_ok h
    obtain ⟨id, -, h⟩ := bind_eq_ok h
    obtain ⟨rest, htake, h⟩ := bind_eq_ok h
    cases h
    have hmark : Stays s.cache (s.cache.markRead zeroCopy rd.rde) := by
      refine stays_of_eq rfl rfl ?_
      intro a
      unfold Cache.counts markRead
      dsimp only
      by_cases ha : a = rd.rde
      · rw [ha, update_self]
      · rw [update_of_ne ha]
    cases oper with
    | read =>
      cases htake
      exact hmark
    | take =>
      obtain ⟨removed, hremove, htake⟩ := bind_eq_ok htake
      cases htake
      exact (hmark.trans (stays_removeSample hremove)).trans (stays_decRef _ _)

theorem stays_access {released : List Nat} {entry : Nat × InstanceData}
    (h : c.access released entry = .ok c') : Stays c c' := by
  unfold Cache.access at h
  split at h
  · cases h
    exact .refl c
  · split at h
    · obtain ⟨inst, hderef, h⟩ := bind_eq_ok h
      cases h
      exact stays_setInstance c.links (deref_found hderef) ⟨rfl, rfl, rfl⟩
    · cases h
      exact .refl c

theorem stays_copyInto {oper : Operation} {zeroCopy : Bool} {chosen : List RakeData}
    {result : Output δ × Cache δ} (h : c.copyInto oper zeroCopy chosen = .ok result) :
    Stays c result.2 := by
  obtain ⟨s, hcopy, h⟩ := bind_eq_ok h
  obtain ⟨accessed, haccess, h⟩ := bind_eq_ok h
  cases h
  have hcopied : Stays c s.cache :=
    foldlM_preserves (fun s : Copying δ => Stays c s.cache)
      (fun _ _ _ _ hstays hstep => hstays.trans (stays_copyOne hstep)) (.refl c) hcopy
  exact foldlM_preserves (fun c' : Cache δ => Stays c c')
    (fun _ _ _ _ hstays hstep => hstays.trans (stays_access hstep)) hcopied haccess

section

variable (w : Wf c samples) (nodup : handles.Nodup)
  (found : ∀ h ∈ handles, (c.getHandleInstance h).isSome)
include w nodup found

theorem rake_summary {oper : Operation} {req : Request δ} {masks : Masks} {output : Output δ}
    (h : c.rake oper req masks handles = .ok (output, c')) :
    ∃ results, c.gather req masks handles = .ok results ∧ FilterTotal c req masks handles ∧
      Selected samples (chosen req results) ∧
      output = (summary c samples req.zeroCopy (chosen req results)).output ∧
      c.copyInto oper req.zeroCopy (chosen req results) = .ok (output, c') ∧
      Wf c' (left oper samples (chosen req results)) := by
  obtain ⟨results, hgather, hcopy⟩ := bind_eq_ok h
  have htotal : FilterTotal c req masks handles := by
    by_contra hundefined
    obtain ⟨fault, herror⟩ := gather_error w found hundefined
    rw [herror] at hgather
    cases hgather
  obtain ⟨results', hgather', hselected⟩ := gather_selected w nodup found (htotal.defined w)
  rw [hgather'] at hgather
  cases hgather
  obtain ⟨after, hcopied, hw, -⟩ := copyInto_spec oper req.zeroCopy w hselected
  cases hcopied.symm.trans hcopy
  exact ⟨results, hgather', htotal, hselected, rfl, hcopied, hw⟩

theorem rake_drops {oper : Operation} {req : Request δ} {masks : Masks} {output : Output δ}
    (h : c.rake oper req masks handles = .ok (output, c')) : Drops c samples c' := by
  obtain ⟨results, -, -, -, -, hcopy, hw⟩ := rake_summary w nodup found h
  refine ⟨stays_copyInto hcopy, _, hw, ?_⟩
  intro i
  cases oper with
  | read => exact List.Sublist.refl _
  | take => exact List.filter_sublist

end

theorem decRef_drops (w : Wf c samples) (lent : ∀ h, a ∈ samples h → 1 < c.refCount a) :
    Drops c samples (c.decRefDataElement a) := by
  refine ⟨stays_decRef c a, samples,
    ⟨w.mapped, w.distinct, w.lists, w.vacant, w.apart, ?_⟩, fun _ => List.Sublist.refl _⟩
  intro h x hx
  show 0 < update c.refCount a (c.refCount a - 1) x
  by_cases hxa : x = a
  · have hcount := lent h (hxa ▸ hx)
    rw [hxa, update_self]
    omega
  · rw [update_of_ne hxa]
    exact w.live h x hx

theorem releaseInstance_drops (w : Wf c samples) (handle : Nat) :
    Drops c samples (c.releaseInstance handle) := by
  have hdropped : Stays c { c with
      refCount := fun a => if a ∈ c.held handle then c.refCount a - 1 else c.refCount a } :=
    stays_of_eq rfl rfl fun _ => rfl
  have hstays : Stays c (c.releaseInstance handle) := hdropped.trans (stays_release c.links)
  refine ⟨hstays, update samples handle [],
    w.release (SampleLinks.Relinked.refl c.links _) fun h hh x hin => ?_,
    sublist_update (List.nil_sublist _)⟩
  have hoff : x ∉ c.held handle := by
    rw [held_eq w]
    exact fun hown => hh (w.own x hown h hin)
  show 0 < if x ∈ c.held handle then c.refCount x - 1 else c.refCount x
  rw [if_neg hoff]
  exact w.live h x hin

end ReaderCache

end OpenDDS.Source

/-!
# What an access to one instance leaves alone

A read or take of the samples of one instance touches no other instance, and no other sample. The
keys stay as they are, but for that of an instance that is released.
-/
namespace OpenDDS.Source.ReaderCache
open Library.LinkedList Library.Folds Cache
open Function (update_of_ne)

variable {δ : Type} {c c' c'' : Cache δ} {samples : Nat → List Nat} {handle a : Nat}
  {inst : SubscriptionInstance} {masks : Masks} {oper : Operation} {zeroCopy : Bool}

/-- Only the instance `handle` and the samples `items` may differ. -/
structure Frame (handle : Nat) (items : List Nat) (c c' : Cache δ) : Prop where
  others : ∀ i, i ≠ handle → c'.getHandleInstance i = c.getHandleInstance i
  element : ∀ a, a ∉ items → c'.element a = c.element a
  keys : c'.instanceMap = c.instanceMap ∨
    c'.instanceMap = c.instanceMap.filter fun entry => entry.2 ≠ handle

variable {items : List Nat}

theorem Frame.refl (c : Cache δ) : Frame handle items c c :=
  ⟨fun _ _ => rfl, fun _ _ => rfl, .inl rfl⟩

theorem Frame.trans (h : Frame handle items c c') (h' : Frame handle items c' c'') :
    Frame handle items c c'' where
  others i hi := (h'.others i hi).trans (h.others i hi)
  element a ha := (h'.element a ha).trans (h.element a ha)
  keys := by
    rcases h'.keys with hsame' | hless'
    · rw [hsame']
      exact h.keys
    · right
      rcases h.keys with hsame | hless
      · rw [hless', hsame]
      · rw [hless', hless, List.filter_filter]
        simp only [Bool.and_self]

theorem frame_setInstance {inst' : SubscriptionInstance} (links : SampleLinks)
    (found : c.getHandleInstance handle = some inst) :
    Frame handle items c ({ c with links := links }.setInstance handle inst') where
  others i hi := by
    rw [getHandleInstance_setInstance (c := { c with links := links }) found, if_neg hi]
    rfl
  element _ _ := rfl
  keys := Or.inl rfl

theorem frame_removed (found : c.getHandleInstance handle = some inst)
    (result : Bool × SampleLinks × Header Nat) :
    Frame handle items c (c.removed handle inst result).2 := by
  unfold Cache.removed
  dsimp only
  split
  · split
    · refine ⟨fun i hi => ?_, fun _ _ => rfl, .inr rfl⟩
      rw [getHandleInstance_release, if_neg hi]
      rfl
    · exact frame_setInstance _ found
  · exact frame_setInstance _ found

theorem frame_removeSample {removed : Bool × Cache δ}
    (h : c.removeSample handle a = .ok removed) : Frame handle items c removed.2 := by
  obtain ⟨inst, hderef, h⟩ := bind_eq_ok h
  split at h
  · cases h
  · cases h
    exact frame_removed (deref_found hderef) _

theorem frame_copyOne {s s' : Copying δ} {rd : RakeData} (item : rd.rde ∈ items)
    (h : s.copyOne oper zeroCopy rd = .ok s') : Frame rd.si items s.cache s'.cache := by
  unfold Copying.copyOne at h
  split at h
  · cases h
  · obtain ⟨inst, -, h⟩ := bind_eq_ok h
    obtain ⟨id, -, h⟩ := bind_eq_ok h
    obtain ⟨rest, htake, h⟩ := bind_eq_ok h
    cases h
    have hmark : Frame rd.si items s.cache (s.cache.markRead zeroCopy rd.rde) := by
      refine ⟨fun _ _ => rfl, ?_, .inl rfl⟩
      intro a ha
      have hne : a ≠ rd.rde := fun heq => ha (heq ▸ item)
      exact update_of_ne hne _ _
    cases oper with
    | read =>
      cases htake
      exact hmark
    | take =>
      obtain ⟨removed, hremove, htake⟩ := bind_eq_ok htake
      cases htake
      have hdropped : Frame rd.si items removed.2 (removed.2.decRefDataElement rd.rde) :=
        ⟨fun _ _ => rfl, fun _ _ => rfl, .inl rfl⟩
      exact (hmark.trans (frame_removeSample hremove)).trans hdropped

theorem frame_access {released : List Nat} {entry : Nat × InstanceData}
    (h : c.access released entry = .ok c') : Frame entry.1 items c c' := by
  unfold Cache.access at h
  split at h
  · cases h
    exact .refl c
  · split at h
    · obtain ⟨inst, hderef, h⟩ := bind_eq_ok h
      cases h
      exact frame_setInstance c.links (deref_found hderef)
    · cases h
      exact .refl c

theorem copyOne_keys {s s' : Copying δ} {rd : RakeData}
    (h : s.copyOne oper zeroCopy rd = .ok s') :
    ∀ entry ∈ s'.rake.instMap, entry.1 = rd.si ∨ entry ∈ s.rake.instMap := by
  unfold Copying.copyOne at h
  split at h
  · cases h
  · obtain ⟨inst, -, h⟩ := bind_eq_ok h
    obtain ⟨id, -, h⟩ := bind_eq_ok h
    obtain ⟨rest, -, h⟩ := bind_eq_ok h
    cases h
    intro entry hentry
    rcases List.mem_cons.mp hentry with rfl | hkept
    · exact .inl rfl
    · exact .inr (List.mem_filter.mp hkept).1

theorem frame_copyInto {chosen : List RakeData} {result : Output δ × Cache δ}
    (own : ∀ rd ∈ chosen, rd.si = handle ∧ rd.rde ∈ items)
    (h : c.copyInto oper zeroCopy chosen = .ok result) : Frame handle items c result.2 := by
  obtain ⟨s, hcopy, h⟩ := bind_eq_ok h
  obtain ⟨accessed, haccess, h⟩ := bind_eq_ok h
  cases h
  have hcopied : Frame handle items c s.cache ∧ ∀ entry ∈ s.rake.instMap, entry.1 = handle := by
    refine foldlM_preserves (fun s : Copying δ => Frame handle items c s.cache ∧
      ∀ entry ∈ s.rake.instMap, entry.1 = handle) ?_
      ⟨.refl c, fun _ hnone => absurd hnone List.not_mem_nil⟩ hcopy
    rintro s₁ s₂ rd hrd ⟨hframe, hkeys⟩ hstep
    obtain ⟨rfl, hitem⟩ := own rd hrd
    refine ⟨hframe.trans (frame_copyOne hitem hstep), ?_⟩
    intro entry hentry
    exact (copyOne_keys hstep entry hentry).elim id (hkeys entry)
  refine foldlM_preserves (fun c' : Cache δ => Frame handle items c c') ?_ hcopied.1 haccess
  intro c₁ c₂ entry hentry hframe hstep
  exact hframe.trans (hcopied.2 entry hentry ▸ frame_access hstep)

theorem Frame.admitted {samples' : Nat → List Nat} {i : Nat}
    (h : Frame handle (samples handle) c c') (w : Wf c samples) (w' : Wf c' samples')
    (other : i ≠ handle) (same : samples' i = samples i) :
    c'.admitted masks i = c.admitted masks i := by
  have hfind := h.others i other
  cases hinst : c.getHandleInstance i with
  | none =>
    unfold Cache.admitted
    rw [hfind, hinst]
  | some inst =>
    rw [hinst] at hfind
    by_cases hadmits : masks.admitsInstance inst.instanceState = true
    · rw [admitted_eq w' hfind hadmits, admitted_eq w hinst hadmits, same]
      apply List.filter_congr
      intro a ha
      rw [h.element a fun hin => other (w.own a hin i ha)]
    · unfold Cache.admitted
      rw [hfind, hinst]
      dsimp only
      rw [if_neg hadmits, if_neg hadmits]

end OpenDDS.Source.ReaderCache
