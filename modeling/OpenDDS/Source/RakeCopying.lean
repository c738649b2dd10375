import OpenDDS.Source.CacheStore
import OpenDDS.Source.RakeResults

/-!
# Copying the selected samples

The loop of `copy_into` for a cache in order. What it puts together for the user is told from
the cache before the loop alone (`summary`), whether the samples are read or taken: a sample
that is still to come is on its list, its instance has not been released, and the most recent
sample of an instance is looked up before any of its samples is removed.
-/
namespace OpenDDS.Source.ReaderCache
open Library.LinkedList Library.AssociationList Library.Folds SampleLinks Cache
open Function (update update_of_ne update_self)

variable {δ : Type} {c : Cache δ} {samples : Nat → List Nat} {handle : Nat}
  {inst : SubscriptionInstance} {rd : RakeData} {done chosen : List RakeData} {zeroCopy : Bool}
  {oper : Operation} {s : Copying δ}

def summarize (c : Cache δ) (samples : Nat → List Nat) (zeroCopy : Bool) (r : Rake δ)
    (rd : RakeData) : Rake δ :=
  match c.getHandleInstance rd.si, (samples rd.si).getLast? with
  | some inst, some mrs => r.record zeroCopy inst.instanceState (c.element rd.rde) rd
      ((r.instMap.lookup rd.si).getD (.start (c.element mrs)))
  | _, _ => r

def summary (c : Cache δ) (samples : Nat → List Nat) (zeroCopy : Bool) (done : List RakeData) :
    Rake δ :=
  done.foldl (summarize c samples zeroCopy) .start

/-- The samples that an operation leaves on the lists. -/
def left (oper : Operation) (samples : Nat → List Nat) (done : List RakeData) (h : Nat) : List Nat :=
  match oper with
  | .read => samples h
  | .take => (samples h).filter fun a => a ∉ done.map RakeData.rde

/-- The list of an instance has become empty, and the instance is released. -/
def Gone (state : InstanceState) (before after : List Nat) : Prop :=
  before ≠ [] ∧ after = [] ∧ state.releasePending = true ∧ state.writers = ∅

/-- The loop behind the samples `done`. -/
structure Copied (oper : Operation) (zeroCopy : Bool) (c : Cache δ) (samples : Nat → List Nat)
    (done : List RakeData) (s : Copying δ) : Prop where
  rake : s.rake = summary c samples zeroCopy done
  wf : Wf s.cache (left oper samples done)
  element : ∀ a, s.cache.element a = if a ∈ done.map RakeData.rde then
    { c.element a with sampleState := .read } else c.element a
  kept : ∀ h inst, c.getHandleInstance h = some inst →
    ¬ Gone inst.instanceState (samples h) (left oper samples done h) →
    ∃ list empty, s.cache.getHandleInstance h =
      some ⟨{ inst.instanceState with empty := empty }, list⟩
  gone : ∀ h inst, c.getHandleInstance h = some inst →
    Gone inst.instanceState (samples h) (left oper samples done h) →
    s.cache.getHandleInstance h = none ∧ h ∈ s.releasedInstances
  vacant : ∀ h, c.getHandleInstance h = none → s.cache.getHandleInstance h = none

theorem record_keys (r : Rake δ) (state : InstanceState) (item : ReceivedDataElement δ)
    (id : InstanceData) (h : Nat) :
    ((r.record zeroCopy state item rd id).instMap.lookup h).isSome ↔
      h = rd.si ∨ (r.instMap.lookup h).isSome := by
  unfold Rake.record
  by_cases hh : h = rd.si
  · rw [hh, List.lookup_cons_self]
    simp
  · simp [hh]

theorem Wf.owner {a : Nat} (w : Wf c samples) (own : a ∈ samples handle) :
    ∃ inst mrs, c.getHandleInstance handle = some inst ∧ (samples handle).getLast? = some mrs := by
  have hne : samples handle ≠ [] := List.ne_nil_of_mem own
  cases hfind : c.getHandleInstance handle with
  | none => exact absurd (w.vacant handle hfind) hne
  | some inst => exact ⟨inst, _, rfl, List.getLast?_eq_some_getLast hne⟩

theorem summarize_eq {mrs : Nat} (r : Rake δ) (found : c.getHandleInstance rd.si = some inst)
    (last : (samples rd.si).getLast? = some mrs) :
    summarize c samples zeroCopy r rd = r.record zeroCopy inst.instanceState (c.element rd.rde) rd
      ((r.instMap.lookup rd.si).getD (.start (c.element mrs))) := by
  unfold summarize
  rw [found, last]

theorem Selected.before {rest : List RakeData} (h : Selected samples (done ++ rest)) :
    Selected samples done where
  nodup := h.nodup.sublist ((List.sublist_append_left _ _).map _)
  own rd hrd := h.own rd (List.mem_append_left _ hrd)

theorem summary_keys (zeroCopy : Bool) (w : Wf c samples) (selected : Selected samples done) (h : Nat) :
    ((summary c samples zeroCopy done).instMap.lookup h).isSome ↔ ∃ rd ∈ done, rd.si = h := by
  unfold summary
  induction done using List.reverseRecOn with
  | nil => simp [Rake.start]
  | append_singleton done rd ih =>
    obtain ⟨inst, mrs, hfound, hlast⟩ := w.owner (selected.own rd (by simp))
    rw [List.foldl_concat, summarize_eq _ hfound hlast, record_keys, ih selected.before]
    constructor
    · rintro (rfl | ⟨other, hother, rfl⟩)
      · exact ⟨rd, by simp, rfl⟩
      · exact ⟨other, by simp [hother], rfl⟩
    · rintro ⟨other, hother, rfl⟩
      rcases List.mem_append.mp hother with hin | hin
      · exact .inr ⟨other, hin, rfl⟩
      · rw [List.mem_singleton.mp hin]
        exact .inl rfl

theorem left_subset : ∀ a ∈ left oper samples done handle, a ∈ samples handle := by
  intro a ha
  cases oper with
  | read => exact ha
  | take => exact (List.mem_filter.mp ha).1

theorem mem_left {a : Nat} (own : a ∈ samples handle) (fresh : a ∉ done.map RakeData.rde) :
    a ∈ left oper samples done handle := by
  cases oper with
  | read => exact own
  | take => exact List.mem_filter.mpr ⟨own, by simpa using fresh⟩

theorem left_unseen (w : Wf c samples) (selected : Selected samples done)
    (unseen : ∀ rd ∈ done, rd.si ≠ handle) : left oper samples done handle = samples handle := by
  cases oper with
  | read => rfl
  | take =>
    apply List.filter_eq_self.mpr
    intro a ha
    rw [decide_eq_true_iff]
    intro hin
    obtain ⟨rd, hrd, rfl⟩ := List.mem_map.mp hin
    exact unseen rd hrd (w.apart.unique (selected.own rd hrd) ha)

theorem left_take (done : List RakeData) (w : Wf c samples) (own : rd.rde ∈ samples rd.si) :
    left .take samples (done ++ [rd]) = update (left .take samples done) rd.si
      ((left .take samples done rd.si).erase rd.rde) := by
  funext h
  have hsplit : left .take samples (done ++ [rd]) h =
      (left .take samples done h).filter fun a => a ≠ rd.rde := by
    unfold left
    rw [List.filter_filter]
    apply List.filter_congr
    intro a _
    rw [Bool.eq_iff_iff]
    simp only [decide_eq_true_iff, Bool.and_eq_true, List.map_append, List.mem_append,
      List.map_cons, List.map_nil, List.mem_singleton]
    tauto
  rw [hsplit]
  by_cases hh : h = rd.si
  · subst hh
    rw [update_self]
    have hnodup : (left .take samples done rd.si).Nodup := (w.apart.nodup rd.si).filter _
    rw [hnodup.erase_eq_filter]
    apply List.filter_congr
    intro a _
    rw [Bool.eq_iff_iff, decide_eq_true_iff, bne_iff_ne]
  · rw [update_of_ne hh]
    apply List.filter_eq_self.mpr
    intro a ha
    rw [decide_eq_true_iff]
    rintro rfl
    exact hh (w.own _ own h (left_subset _ ha))

theorem Wf.markRead (w : Wf c samples) (zeroCopy : Bool) (a : Nat) :
    Wf (c.markRead zeroCopy a) samples where
  mapped := w.mapped
  distinct := w.distinct
  lists := w.lists
  vacant := w.vacant
  apart := w.apart
  live h x hx := by
    have hlive := w.live h x hx
    unfold Cache.markRead
    dsimp only
    split
    · by_cases hxa : x = a
      · rw [hxa, update_self]
        exact Nat.succ_pos _
      · rw [update_of_ne hxa]
        exact hlive
    · exact hlive

theorem Wf.release {links : SampleLinks} {refCount : Nat → Nat} (w : Wf c samples)
    (relinked : c.links.Relinked links (samples handle))
    (live : ∀ h, h ≠ handle → ∀ a ∈ samples h, 0 < refCount a) :
    Wf ({ c with links := links, refCount := refCount }.release handle)
      (update samples handle []) := by
  have hfind : ∀ h, ({ c with links := links, refCount := refCount }.release handle).getHandleInstance h =
      if h = handle then none else c.getHandleInstance h := by
    intro h
    exact getHandleInstance_release
  have hcase : ∀ {h a}, a ∈ update samples handle [] h → h ≠ handle ∧ a ∈ samples h := by
    intro h a ha
    by_cases hh : h = handle
    · rw [hh, update_self] at ha
      cases ha
    · rw [update_of_ne hh] at ha
      exact ⟨hh, ha⟩
  constructor
  · intro entry hentry
    obtain ⟨hin, hne⟩ := List.mem_filter.mp hentry
    rw [hfind, if_neg (by simpa using hne)]
    exact w.mapped entry hin
  · exact w.distinct.sublist (List.filter_sublist.map _)
  · intro h inst hinst
    rw [hfind] at hinst
    split at hinst
    · cases hinst
    · rename_i hh
      rw [update_of_ne hh]
      apply relinked.lists _ (w.lists h inst hinst)
      intro x hx hin
      exact hh (w.own x hin h hx)
  · intro h hnone
    by_cases hh : h = handle
    · rw [hh, update_self]
    · rw [hfind, if_neg hh] at hnone
      rw [update_of_ne hh]
      exact w.vacant h hnone
  · constructor
    · intro h
      by_cases hh : h = handle
      · rw [hh, update_self]
        exact List.nodup_nil
      · rw [update_of_ne hh]
        exact w.apart.nodup h
    · intro i j a hi hj
      exact w.apart.unique (hcase hi).2 (hcase hj).2
  · intro h a ha
    exact live h (hcase ha).1 a (hcase ha).2

theorem removeSample_spec {a : Nat} (w : Wf c samples)
    (found : c.getHandleInstance handle = some inst) (own : a ∈ samples handle) :
    ∃ released c', c.removeSample handle a = .ok (released, c') ∧
      Wf (c'.decRefDataElement a) (update samples handle ((samples handle).erase a)) ∧
      c'.element = c.element ∧
      (∀ h, h ≠ handle → c'.getHandleInstance h = c.getHandleInstance h) ∧
      (Gone inst.instanceState (samples handle) ((samples handle).erase a) →
        released = true ∧ c'.getHandleInstance handle = none) ∧
      (¬ Gone inst.instanceState (samples handle) ((samples handle).erase a) →
        ∃ list empty, c'.getHandleInstance handle =
          some ⟨{ inst.instanceState with empty := empty }, list⟩) := by
  obtain ⟨links, list, hlists, hrelinked, hremove⟩ := removeSample_eq w found own
  have hgone : Releases inst.instanceState (decide ((samples handle).erase a = [])) ↔
      Gone inst.instanceState (samples handle) ((samples handle).erase a) := by
    unfold Releases Gone
    rw [decide_eq_true_iff]
    exact ⟨fun h => ⟨List.ne_nil_of_mem own, h⟩, fun h => h.2⟩
  have hoff : ∀ h, a ∉ update samples handle ((samples handle).erase a) h := by
    intro h hin
    by_cases hh : h = handle
    · rw [hh, update_self] at hin
      exact (w.apart.nodup handle).not_mem_erase hin
    · rw [update_of_ne hh] at hin
      exact hh (w.own a own h hin)
  by_cases hreleases : Releases inst.instanceState (decide ((samples handle).erase a = []))
  · rw [removed_released hreleases] at hremove
    have hempty := (hgone.mp hreleases).2.1
    refine ⟨true, _, hremove, ?_, rfl, ?_, ?_, ?_⟩
    · rw [hempty] at hoff ⊢
      exact (w.release hrelinked fun h _ => w.live h).decRef hoff
    · intro h hh
      rw [getHandleInstance_release, if_neg hh]
      rfl
    · intro _
      rw [getHandleInstance_release, if_pos rfl]
      exact ⟨rfl, rfl⟩
    · intro hkept
      exact absurd (hgone.mp hreleases) hkept
  · rw [removed_kept hreleases] at hremove
    refine ⟨false, _, hremove, ?_, rfl, ?_, ?_, ?_⟩
    · exact (w.shorten found hlists hrelinked List.erase_sublist _).decRef hoff
    · intro h hh
      rw [getHandleInstance_setInstance (c := { c with links := links }) found, if_neg hh]
      rfl
    · intro h
      exact absurd (hgone.mpr h) hreleases
    · intro _
      exact ⟨list, _, found_setInstance links _ found⟩

theorem Copied.instanceData_eq {mrs : Nat} {state : InstanceState} {list : Header Nat}
    (w : Wf c samples) (selected : Selected samples done)
    (h : Copied oper zeroCopy c samples done s)
    (found : s.cache.getHandleInstance rd.si = some ⟨state, list⟩)
    (last : (samples rd.si).getLast? = some mrs) :
    s.cache.instanceData ⟨state, list⟩ (s.rake.instMap.lookup rd.si) =
      .ok (((summary c samples zeroCopy done).instMap.lookup rd.si).getD
        (.start (c.element mrs))) := by
  rw [h.rake]
  cases hseen : (summary c samples zeroCopy done).instMap.lookup rd.si with
  | some id => rfl
  | none =>
    have hunseen : ∀ other ∈ done, other.si ≠ rd.si := by
      intro other hother heq
      have hsome := (summary_keys zeroCopy w selected rd.si).mpr ⟨other, hother, heq⟩
      rw [hseen] at hsome
      cases hsome
    have htail : list.tail = some mrs := by
      rw [(h.wf.lists rd.si _ found).tail, left_unseen w selected hunseen]
      exact last
    unfold instanceData
    rw [htail]
    dsimp only
    rw [h.element mrs]
    split <;> rfl

theorem markRead_element (h : Copied oper zeroCopy c samples done s)
    (fresh : rd.rde ∉ done.map RakeData.rde) (a : Nat) :
    (s.cache.markRead zeroCopy rd.rde).element a =
      if a ∈ (done ++ [rd]).map RakeData.rde then { c.element a with sampleState := .read }
      else c.element a := by
  unfold Cache.markRead
  dsimp only
  by_cases ha : a = rd.rde
  · rw [ha, update_self, h.element, if_neg fresh, if_pos (by simp)]
  · have hiff : a ∈ (done ++ [rd]).map RakeData.rde ↔ a ∈ done.map RakeData.rde := by
      simp [ha]
    rw [update_of_ne ha, h.element, if_congr hiff rfl rfl]

theorem Copied.copyOne_eq {rest : List RakeData} (w : Wf c samples)
    (selected : Selected samples (done ++ rd :: rest)) (h : Copied oper zeroCopy c samples done s) :
    ∃ inst list empty, c.getHandleInstance rd.si = some inst ∧
      s.cache.getHandleInstance rd.si = some ⟨{ inst.instanceState with empty := empty }, list⟩ ∧
      rd.rde ∈ left oper samples done rd.si ∧ rd.rde ∉ done.map RakeData.rde ∧
      s.copyOne oper zeroCopy rd =
        ((s.cache.markRead zeroCopy rd.rde).takeSample oper s.releasedInstances rd).map
          fun rest => ⟨summary c samples zeroCopy (done ++ [rd]), rest.1, rest.2⟩ := by
  have hown : rd.rde ∈ samples rd.si := selected.own rd (by simp)
  obtain ⟨inst, mrs, hinst, hlast⟩ := w.owner hown
  have hfresh : rd.rde ∉ done.map RakeData.rde := by
    intro hin
    have hnodup := selected.nodup
    rw [List.map_append, List.map_cons] at hnodup
    exact (List.nodup_append.mp hnodup).2.2 _ hin _ List.mem_cons_self rfl
  have hleft : rd.rde ∈ left oper samples done rd.si := mem_left hown hfresh
  have hkept : ¬ Gone inst.instanceState (samples rd.si) (left oper samples done rd.si) :=
    fun hgone => List.ne_nil_of_mem hleft hgone.2.1
  obtain ⟨list, empty, hfound⟩ := h.kept rd.si inst hinst hkept
  refine ⟨inst, list, empty, hinst, hfound, hleft, hfresh, ?_⟩
  have hlive : ¬ s.cache.refCount rd.rde = 0 := by
    have hpos := h.wf.live rd.si rd.rde hleft
    omega
  have hrecord : summary c samples zeroCopy (done ++ [rd]) =
      s.rake.record zeroCopy inst.instanceState (s.cache.element rd.rde) rd
        (((summary c samples zeroCopy done).instMap.lookup rd.si).getD
          (.start (c.element mrs))) := by
    unfold summary
    rw [List.foldl_concat, summarize_eq _ hinst hlast, h.element, if_neg hfresh, h.rake]
    rfl
  unfold Copying.copyOne
  rw [if_neg hlive, deref_eq_ok hfound]
  dsimp only [bind, Except.bind]
  rw [h.instanceData_eq w selected.before hfound hlast, hrecord]
  rfl

theorem gone_iff {state : InstanceState} {empty : Bool} {before before' after : List Nat}
    (nonempty : before ≠ []) (nonempty' : before' ≠ []) :
    Gone { state with empty := empty } before' after ↔ Gone state before after := by
  unfold Gone
  simp [nonempty, nonempty']

/-- One more sample is read or taken. -/
theorem Copied.step {rest : List RakeData} (w : Wf c samples)
    (selected : Selected samples (done ++ rd :: rest)) (h : Copied oper zeroCopy c samples done s) :
    ∃ s', s.copyOne oper zeroCopy rd = .ok s' ∧
      Copied oper zeroCopy c samples (done ++ [rd]) s' := by
  obtain ⟨inst, list, empty, hinst, hfound, hleft, hfresh, hcopy⟩ := h.copyOne_eq w selected
  have hown : rd.rde ∈ samples rd.si := selected.own rd (by simp)
  cases oper with
  | read =>
    refine ⟨_, hcopy, rfl, h.wf.markRead zeroCopy rd.rde, markRead_element h hfresh, h.kept, ?_,
      h.vacant⟩
    intro i inst' _ hgone
    exact absurd hgone.2.1 hgone.1
  | take =>
    obtain ⟨released, c', hremove, hw', helement, hothers, hgone, hkept⟩ :=
      removeSample_spec (h.wf.markRead zeroCopy rd.rde) hfound hleft
    have htake : (s.cache.markRead zeroCopy rd.rde).takeSample .take s.releasedInstances rd =
        .ok (if released then rd.si :: s.releasedInstances else s.releasedInstances,
          c'.decRefDataElement rd.rde) := by
      unfold takeSample
      rw [hremove]
      rfl
    rw [htake] at hcopy
    have hleft' := left_take done w hown
    rw [← hleft'] at hw'
    have hself : (left .take samples done rd.si).erase rd.rde =
        left .take samples (done ++ [rd]) rd.si := by
      rw [hleft', update_self]
    have hother : ∀ i, i ≠ rd.si →
        left .take samples (done ++ [rd]) i = left .take samples done i := by
      intro i hi
      rw [hleft', update_of_ne hi]
    rw [hself, gone_iff (List.ne_nil_of_mem hown) (List.ne_nil_of_mem hleft)] at hgone hkept
    refine ⟨_, hcopy, rfl, hw', ?_, ?_, ?_, ?_⟩
    · intro a
      have hmark := markRead_element h hfresh a
      rw [← hmark, ← helement]
      rfl
    · intro i inst' hinst' hnot
      by_cases hi : i = rd.si
      · subst hi
        rw [hinst] at hinst'
        cases hinst'
        exact hkept hnot
      · rw [hother i hi] at hnot
        obtain ⟨list', empty', hfind⟩ := h.kept i inst' hinst' hnot
        exact ⟨list', empty', (hothers i hi).trans hfind⟩
    · intro i inst' hinst' hg
      by_cases hi : i = rd.si
      · subst hi
        rw [hinst] at hinst'
        cases hinst'
        obtain ⟨hreleased, hnone⟩ := hgone hg
        refine ⟨hnone, ?_⟩
        rw [if_pos hreleased]
        exact List.mem_cons_self
      · rw [hother i hi] at hg
        obtain ⟨hnone, hmem⟩ := h.gone i inst' hinst' hg
        refine ⟨(hothers i hi).trans hnone, ?_⟩
        split
        · exact List.mem_cons_of_mem _ hmem
        · exact hmem
    · intro i hnone
      have hi : i ≠ rd.si := by
        rintro rfl
        rw [hinst] at hnone
        cases hnone
      exact (hothers i hi).trans (h.vacant i hnone)

theorem Copied.start (w : Wf c samples) : Copied oper zeroCopy c samples [] ⟨.start, [], c⟩ := by
  have hleft : left oper samples [] = samples := by
    funext h
    cases oper with
    | read => rfl
    | take => simp [left]
  have hkept : ∀ (state : InstanceState) (h : Nat), ¬ Gone state (samples h) (samples h) :=
    fun state h hgone => hgone.1 hgone.2.1
  constructor
  · rfl
  · rw [hleft]
    exact w
  · simp
  · intro h inst hinst _
    exact ⟨inst.rcvdSamples, inst.instanceState.empty, hinst⟩
  · intro h inst _ hgone
    rw [hleft] at hgone
    exact absurd hgone (hkept _ h)
  · exact fun _ hnone => hnone

theorem Copied.access (w : Wf c samples) (selected : Selected samples done)
    (h : Copied oper zeroCopy c samples done s) :
    ∃ c', s.rake.instMap.foldlM (fun c entry => c.access s.releasedInstances entry) s.cache =
        .ok c' ∧ Wf c' (left oper samples done) ∧
      ∀ i, (c'.getHandleInstance i).isSome = (s.cache.getHandleInstance i).isSome := by
  apply foldlM_total (fun _ (c' : Cache δ) => Wf c' (left oper samples done) ∧
    ∀ i, (c'.getHandleInstance i).isSome = (s.cache.getHandleInstance i).isSome)
  · exact ⟨h.wf, fun _ => rfl⟩
  · rintro seen entry rest c' hsplit ⟨hw, hsame⟩
    by_cases hreleased : entry.1 ∈ s.releasedInstances
    · refine ⟨c', ?_, hw, hsame⟩
      unfold Cache.access
      rw [if_pos hreleased]
    · have hentry : entry ∈ (summary c samples zeroCopy done).instMap := by
        rw [← h.rake, hsplit]
        simp
      obtain ⟨rd, hrd, hsi⟩ := (summary_keys zeroCopy w selected entry.1).mp (lookup_isSome hentry)
      obtain ⟨inst, -, hinst, -⟩ := w.owner (selected.own rd hrd)
      rw [hsi] at hinst
      have hkept : ¬ Gone inst.instanceState (samples entry.1) (left oper samples done entry.1) :=
        fun hgone => hreleased (h.gone entry.1 inst hinst hgone).2
      obtain ⟨list, empty, hfound⟩ := h.kept entry.1 inst hinst hkept
      have hsome : (c'.getHandleInstance entry.1).isSome := by
        rw [hsame, hfound]
        rfl
      obtain ⟨inst', hinst'⟩ := Option.isSome_iff_exists.mp hsome
      unfold Cache.access
      rw [if_neg hreleased]
      by_cases hrecent : entry.2.mostRecentGeneration = true
      · rw [if_pos hrecent, deref_eq_ok hinst']
        refine ⟨_, rfl, hw.restate hinst' _, ?_⟩
        intro i
        rw [getHandleInstance_setInstance hinst']
        by_cases hi : i = entry.1
        · rw [if_pos hi, hi, ← hsame, hinst']
          rfl
        · rw [if_neg hi, hsame]
      · rw [if_neg hrecent]
        exact ⟨c', rfl, hw, hsame⟩

theorem copyInto_spec (oper : Operation) (zeroCopy : Bool) (w : Wf c samples)
    (selected : Selected samples chosen) :
    ∃ c', c.copyInto oper zeroCopy chosen = .ok ((summary c samples zeroCopy chosen).output, c') ∧
      Wf c' (left oper samples chosen) ∧
      ∀ h inst, c.getHandleInstance h = some inst → (c'.getHandleInstance h = none ↔
        Gone inst.instanceState (samples h) (left oper samples chosen h)) := by
  have hloop : ∃ s, chosen.foldlM (Copying.copyOne oper zeroCopy) ⟨.start, [], c⟩ = .ok s ∧
      Copied oper zeroCopy c samples chosen s := by
    apply foldlM_total (fun done s => Copied oper zeroCopy c samples done s)
    · exact Copied.start w
    · intro done rd rest s hsplit h
      exact h.step w (hsplit ▸ selected)
  obtain ⟨s, hok, h⟩ := hloop
  obtain ⟨c', haccess, hw, hsame⟩ := h.access w selected
  refine ⟨c', ?_, hw, ?_⟩
  · unfold copyInto
    rw [hok]
    dsimp only [bind, Except.bind]
    rw [haccess, h.rake]
  · intro i inst hinst
    rw [← Option.isNone_iff_eq_none, ← Option.not_isSome, hsame]
    constructor
    · intro hnone
      by_contra hkept
      obtain ⟨list, empty, hfound⟩ := h.kept i inst hinst hkept
      rw [hfound] at hnone
      cases hnone
    · intro hgone
      rw [(h.gone i inst hinst hgone).1]
      rfl

end OpenDDS.Source.ReaderCache
