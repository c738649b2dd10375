import OpenDDS.Library.AssociationList
import OpenDDS.Source.ReaderCache

/-!
# A cache in order

`Wf c samples` says that the cache `c` holds the instances with the lists `samples` of their
samples: every key leads to an instance of its own, the lists are linked as they should be, no sample is
on two lists, and no sample on a list has been freed. Each operation on the list of one
instance is stated here for such a cache: what it does to that list, and that the rest of
the cache stays.
-/
namespace OpenDDS.Source.ReaderCache
open Library.LinkedList Library.AssociationList SampleLinks
open Function (update update_of_ne update_self)

variable {δ : Type}

structure Wf (c : Cache δ) (samples : Nat → List Nat) : Prop where
  mapped : ∀ entry ∈ c.instanceMap, (c.getHandleInstance entry.2).isSome
  distinct : (c.instanceMap.map Prod.snd).Nodup
  lists : ∀ handle inst, c.getHandleInstance handle = some inst →
    c.links.Lists inst.rcvdSamples (samples handle)
  vacant : ∀ handle, c.getHandleInstance handle = none → samples handle = []
  apart : Apart samples
  live : ∀ handle, ∀ a ∈ samples handle, 0 < c.refCount a

variable {c c' : Cache δ} {samples : Nat → List Nat} {handle handle' a : Nat}
  {inst inst' : SubscriptionInstance} {ys zs : List Nat}

namespace Cache

theorem getHandleInstance_setInstance (found : c.getHandleInstance handle = some inst) :
    (c.setInstance handle inst').getHandleInstance handle' =
      if handle' = handle then some inst' else c.getHandleInstance handle' := by
  have hreplace : (c.setInstance handle inst').getHandleInstance handle' =
      if handle' = handle then (c.instances.lookup handle).map fun _ => inst'
      else c.instances.lookup handle' := lookup_replace c.instances
  unfold getHandleInstance at found
  rw [hreplace, found]
  rfl

theorem getHandleInstance_release : (c.release handle).getHandleInstance handle' =
    if handle' = handle then none else c.getHandleInstance handle' :=
  lookup_erase c.instances

theorem deref_eq_ok (found : c.getHandleInstance handle = some inst) :
    c.deref handle = .ok inst := by
  unfold deref
  rw [found]

theorem deref_eq_error (released : c.getHandleInstance handle = none) :
    c.deref handle = .error .releasedInstance := by
  unfold deref
  rw [released]

end Cache

open Cache

/-- The list of one instance changes. -/
theorem Wf.step (w : Wf c samples) (inst' : SubscriptionInstance) (zs : List Nat)
    (map : c'.instanceMap = c.instanceMap)
    (find : ∀ h, c'.getHandleInstance h = if h = handle then some inst' else c.getHandleInstance h)
    (lists : c'.links.Lists inst'.rcvdSamples ys)
    (relinked : c.links.Relinked c'.links zs)
    (within : ∀ x ∈ zs, ∀ h, x ∈ samples h → h = handle)
    (nodup : ys.Nodup) (fresh : ∀ x ∈ ys, ∀ h, x ∈ samples h → h = handle)
    (live : ∀ x ∈ ys, 0 < c'.refCount x)
    (kept : ∀ h, h ≠ handle → ∀ x ∈ samples h, 0 < c'.refCount x) :
    Wf c' (update samples handle ys) where
  mapped entry hentry := by
    rw [find]
    split
    · rfl
    · exact w.mapped entry (map ▸ hentry)
  distinct := map ▸ w.distinct
  lists h i hfind := by
    rw [find] at hfind
    split at hfind
    · rename_i heq
      cases hfind
      rw [heq, update_self]
      exact lists
    · rename_i hne
      rw [update_of_ne hne]
      apply relinked.lists _ (w.lists h i hfind)
      intro x hx hzs
      exact hne (within x hzs h hx)
  vacant h hfind := by
    rw [find] at hfind
    split at hfind
    · cases hfind
    · rename_i hne
      rw [update_of_ne hne]
      exact w.vacant h hfind
  apart := by
    have hcase : ∀ {h x}, x ∈ update samples handle ys h → h = handle ∧ x ∈ ys ∨
        h ≠ handle ∧ x ∈ samples h := by
      intro h x hx
      by_cases heq : h = handle
      · rw [heq, update_self] at hx
        exact .inl ⟨heq, hx⟩
      · rw [update_of_ne heq] at hx
        exact .inr ⟨heq, hx⟩
    constructor
    · intro h
      by_cases heq : h = handle
      · rw [heq, update_self]
        exact nodup
      · rw [update_of_ne heq]
        exact w.apart.nodup h
    · intro i j x hi hj
      rcases hcase hi with ⟨hi', hx⟩ | ⟨hi', hx⟩ <;> rcases hcase hj with ⟨hj', hx'⟩ | ⟨hj', hx'⟩
      · exact hi'.trans hj'.symm
      · exact absurd (fresh x hx j hx') hj'
      · exact absurd (fresh x hx' i hx) hi'
      · exact w.apart.unique hx hx'
  live h x hx := by
    by_cases heq : h = handle
    · rw [heq, update_self] at hx
      exact live x hx
    · rw [update_of_ne heq] at hx
      exact kept h heq x hx

theorem Wf.found (w : Wf c samples) :
    ∀ h ∈ c.instanceMap.map Prod.snd, (c.getHandleInstance h).isSome := by
  intro h hin
  obtain ⟨entry, hentry, rfl⟩ := List.mem_map.mp hin
  exact w.mapped entry hentry

theorem Wf.own (w : Wf c samples) : ∀ x ∈ samples handle, ∀ h, x ∈ samples h → h = handle :=
  fun _ hx _ hx' => w.apart.unique hx' hx

theorem Wf.single (key : Nat) {xs : List Nat} (map : c.instanceMap = [(key, handle)])
    (instances : c.instances = [(handle, inst)]) (lists : c.links.Lists inst.rcvdSamples xs)
    (nodup : xs.Nodup) (live : ∀ a ∈ xs, 0 < c.refCount a) :
    Wf c fun h => if h = handle then xs else [] := by
  have hfind : ∀ h, c.getHandleInstance h = if h = handle then some inst else none := by
    intro h
    unfold getHandleInstance
    rw [instances]
    by_cases hh : h = handle
    · simp [hh]
    · simp [hh]
  have hcase : ∀ {h a}, a ∈ (if h = handle then xs else []) → h = handle ∧ a ∈ xs := by
    intro h a ha
    split at ha
    · exact ⟨‹_›, ha⟩
    · cases ha
  constructor
  · intro entry hentry
    rw [map] at hentry
    rw [hfind, List.mem_singleton.mp hentry, if_pos rfl]
    rfl
  · rw [map]
    exact List.nodup_singleton handle
  · intro h i hi
    rw [hfind] at hi
    split at hi
    · rename_i hh
      cases hi
      rw [if_pos hh]
      exact lists
    · cases hi
  · intro h hnone
    rw [hfind] at hnone
    split at hnone
    · cases hnone
    · rename_i hh
      exact if_neg hh
  · constructor
    · intro h
      split
      · exact nodup
      · exact List.nodup_nil
    · intro i j a hi hj
      exact (hcase hi).1.trans (hcase hj).1.symm
  · intro h a ha
    exact live a (hcase ha).2

section

/-- An instance that is told that its list has become empty is released. -/
def Releases (state : InstanceState) (told : Bool) : Prop :=
  told = true ∧ state.releasePending = true ∧ state.writers = ∅

/-- The state of an instance that is not released. -/
def emptied (state : InstanceState) (told : Bool) : InstanceState :=
  { state with empty := state.empty || told }

variable {told : Bool} {links : SampleLinks} {list : Header Nat}

theorem removed_released (h : Releases inst.instanceState told) :
    c.removed handle inst (told, links, list) = (true, { c with links := links }.release handle) := by
  obtain ⟨rfl, hpending, hwriters⟩ := h
  simp [removed, InstanceState.setEmpty, InstanceState.releaseIfEmpty, hpending, hwriters]

theorem removed_kept (h : ¬ Releases inst.instanceState told) :
    c.removed handle inst (told, links, list) = (false,
      { c with links := links }.setInstance handle ⟨emptied inst.instanceState told, list⟩) := by
  cases told with
  | false => simp [removed, emptied]
  | true =>
    unfold removed emptied InstanceState.setEmpty InstanceState.releaseIfEmpty
      InstanceState.schedulePending
    by_cases hpending : inst.instanceState.releasePending = true
    · have hwriters : ¬ inst.instanceState.writers = ∅ := fun hempty => h ⟨rfl, hpending, hempty⟩
      simp [hpending, hwriters]
    · simp [hpending]

theorem removeSample_eq (w : Wf c samples) (found : c.getHandleInstance handle = some inst)
    (hmem : a ∈ samples handle) :
    ∃ links list, links.Lists list ((samples handle).erase a) ∧
      c.links.Relinked links (samples handle) ∧
      c.removeSample handle a =
        .ok (c.removed handle inst (decide ((samples handle).erase a = []), links, list)) := by
  obtain ⟨links, list, hremove, hlists, hrelinked⟩ :=
    ReceivedDataElementList.remove_spec (w.lists handle inst found) (w.apart.nodup handle) hmem
  refine ⟨links, list, hlists, hrelinked, ?_⟩
  unfold removeSample
  rw [deref_eq_ok found]
  simp only [bind, Except.bind, hremove]

theorem Wf.shorten (w : Wf c samples) (found : c.getHandleInstance handle = some inst)
    (lists : links.Lists list ys) (relinked : c.links.Relinked links (samples handle))
    (sub : ys.Sublist (samples handle)) (state : InstanceState) :
    Wf ({ c with links := links }.setInstance handle ⟨state, list⟩)
      (update samples handle ys) := by
  apply w.step ⟨state, list⟩ (samples handle)
  · rfl
  · intro h
    exact getHandleInstance_setInstance (c := { c with links := links }) found
  · exact lists
  · exact relinked
  · exact w.own
  · exact (w.apart.nodup handle).sublist sub
  · intro x hx
    exact w.own x (sub.subset hx)
  · intro x hx
    exact w.live handle x (sub.subset hx)
  · intro h _ x hx
    exact w.live h x hx

end

end OpenDDS.Source.ReaderCache
