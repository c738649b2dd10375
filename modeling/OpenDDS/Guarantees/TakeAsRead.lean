import OpenDDS.Source.RakeCopying

/-!
# Taking samples

A take gives the user what a read would, from every cache in order and with every masks, limit
and query condition whose filter is defined on the samples that the masks let through. The
samples are gone from their lists afterwards, and an instance is released exactly where the
last of its samples is taken while its release is pending and it has no writers.
-/
namespace OpenDDS.Guarantees.TakeAsRead
open Source Source.ReaderCache Cache

variable {δ : Type} {c : Cache δ} {samples : Nat → List Nat} {req : Request δ} {masks : Masks}

/-- What the user gets for a sample. -/
def place (c : Cache δ) (zeroCopy : Bool) (a : Nat) : Received δ :=
  if zeroCopy then .loaned a else .copied (c.element a).registeredData

/-- A read and a take from the same cache. -/
structure TakesAsRead (c : Cache δ) (samples : Nat → List Nat) (zeroCopy : Bool)
    (read take : Except Fault (Output δ × Cache δ)) (output : Output δ) (afterRead afterTake : Cache δ)
    (returned : List Nat) : Prop where
  read : read = .ok (output, afterRead)
  take : take = .ok (output, afterTake)
  nodup : returned.Nodup
  received : output.receivedData = returned.map (place c zeroCopy)
  kept : Wf afterRead samples
  removed : Wf afterTake fun handle => (samples handle).filter (· ∉ returned)
  released : ∀ handle inst, c.getHandleInstance handle = some inst →
    (afterTake.getHandleInstance handle = none ↔
      samples handle ≠ [] ∧ (samples handle).filter (· ∉ returned) = [] ∧
        inst.instanceState.releasePending = true ∧ inst.instanceState.writers = ∅)

theorem summary_received (zeroCopy : Bool) {chosen : List RakeData} (w : Wf c samples)
    (selected : Selected samples chosen) :
    (summary c samples zeroCopy chosen).receivedData =
      (chosen.map RakeData.rde).map (place c zeroCopy) := by
  unfold summary
  induction chosen using List.reverseRecOn with
  | nil => rfl
  | append_singleton done rd ih =>
    obtain ⟨inst, mrs, hfound, hlast⟩ := w.owner (selected.own rd (by simp))
    rw [List.foldl_concat, summarize_eq _ hfound hlast, Rake.record, ih selected.before]
    simp [place]

theorem rake_takes_as_read (w : Wf c samples) {handles : List Nat} (nodup : handles.Nodup)
    (found : ∀ h ∈ handles, (c.getHandleInstance h).isSome)
    (defined : Defined c samples req masks handles) :
    ∃ output afterRead afterTake returned, TakesAsRead c samples req.zeroCopy
      (c.rake .read req masks handles) (c.rake .take req masks handles) output afterRead afterTake
      returned := by
  obtain ⟨results, hgather, hselected⟩ := gather_selected w nodup found defined
  obtain ⟨afterRead, hread, hkept, -⟩ := copyInto_spec .read req.zeroCopy w hselected
  obtain ⟨afterTake, htake, hremoved, hreleased⟩ := copyInto_spec .take req.zeroCopy w hselected
  refine ⟨(summary c samples req.zeroCopy (chosen req results)).output, afterRead, afterTake,
    (chosen req results).map RakeData.rde, ?_, ?_, hselected.nodup,
    summary_received req.zeroCopy w hselected, hkept, hremoved, hreleased⟩
  · unfold rake
    rw [hgather]
    exact hread
  · unfold rake
    rw [hgather]
    exact htake

/-- A take is a read that removes what it returns. -/
theorem take_as_read (w : Wf c samples) (req : Request δ) (masks : Masks) :
    (Defined c samples req masks (c.instanceMap.map Prod.snd) →
      ∃ output afterRead afterTake returned, TakesAsRead c samples req.zeroCopy (c.readI req masks)
        (c.takeI req masks) output afterRead afterTake returned) ∧
    ∀ handle inst, c.getHandleInstance handle = some inst →
      Defined c samples req masks [handle] →
      ∃ output afterRead afterTake returned, TakesAsRead c samples req.zeroCopy
        (c.readInstanceI req masks handle) (c.takeInstanceI req masks handle) output afterRead
        afterTake returned := by
  constructor
  · intro hdefined
    exact rake_takes_as_read w w.distinct w.found hdefined
  · intro handle inst hinst hdefined
    apply rake_takes_as_read w (List.nodup_singleton handle) _ hdefined
    intro h hin
    rw [List.mem_singleton.mp hin, hinst]
    rfl

def withdrawn : InstanceState :=
  { InstanceState.create 1 false with
    instanceState := .notAliveNoWriters
    viewState := .notNew
    releasePending := true }

/-- A cache with one sample, of an instance whose release is pending. -/
def lastHeld : Cache Nat where
  links := ⟨fun _ => none, fun _ => none⟩
  element := fun _ => ⟨1, some 7, .notRead, 0, false, 1, 0, 0⟩
  refCount := fun _ => 1
  instanceMap := [(1, 1)]
  instances := [(1, ⟨withdrawn, ⟨some 10, some 10, 1⟩⟩)]

theorem lastHeld_wf : Wf lastHeld fun handle => if handle = 1 then [10] else [] := by
  apply Wf.single 1 rfl rfl
  · exact ⟨⟨rfl, rfl, rfl⟩, ⟨rfl, trivial⟩, ⟨rfl, trivial⟩⟩
  · exact List.nodup_singleton 10
  · intro _ _
    exact Nat.zero_lt_one

def anySample : Request Nat := ⟨lengthUnlimited, false, none, false⟩

def anyState : Masks := ⟨0xffff, 0xffff, 0xffff⟩

/-- With another instance that stays: a writer is left that has it. -/
def twoHeld : Cache Nat :=
  { lastHeld with
    instanceMap := [(1, 1), (2, 2)]
    instances := (2, ⟨{ withdrawn with handle := 2, writers := {1} }, ⟨some 11, some 11, 1⟩⟩) ::
      lastHeld.instances }

def twoSamples (handle : Nat) : List Nat :=
  if handle = 1 then [10] else if handle = 2 then [11] else []

theorem twoHeld_wf : Wf twoHeld twoSamples := by
  have hcases : ∀ h, (h = 1 ∧ twoSamples h = [10]) ∨ (h = 2 ∧ twoSamples h = [11]) ∨
      (twoHeld.getHandleInstance h = none ∧ twoSamples h = []) := by
    intro h
    by_cases h1 : h = 1
    · exact .inl ⟨h1, if_pos h1⟩
    · by_cases h2 : h = 2
      · exact .inr (.inl ⟨h2, by simp [twoSamples, h2]⟩)
      · refine .inr (.inr ⟨?_, by simp [twoSamples, h1, h2]⟩)
        simp [getHandleInstance, twoHeld, lastHeld, h1, h2]
  constructor
  · decide
  · decide
  · intro h inst hfind
    rcases hcases h with ⟨rfl, hs⟩ | ⟨rfl, hs⟩ | ⟨hnone, -⟩
    · cases hfind
      exact ⟨⟨rfl, rfl, rfl⟩, ⟨rfl, trivial⟩, ⟨rfl, trivial⟩⟩
    · cases hfind
      exact ⟨⟨rfl, rfl, rfl⟩, ⟨rfl, trivial⟩, ⟨rfl, trivial⟩⟩
    · cases hnone.symm.trans hfind
  · intro h hnone
    rcases hcases h with ⟨rfl, -⟩ | ⟨rfl, -⟩ | ⟨-, hs⟩
    · cases hnone
    · cases hnone
    · exact hs
  · constructor
    · intro h
      rcases hcases h with ⟨-, hs⟩ | ⟨-, hs⟩ | ⟨-, hs⟩ <;> simp [hs]
    · intro i j a hi hj
      rcases hcases i with ⟨hi', hs⟩ | ⟨hi', hs⟩ | ⟨-, hs⟩ <;>
        rcases hcases j with ⟨hj', hs'⟩ | ⟨hj', hs'⟩ | ⟨-, hs'⟩ <;> simp_all
  · intro _ _ _
    exact Nat.zero_lt_one

theorem take_as_read_two :
    (∃ output afterRead afterTake returned, TakesAsRead twoHeld twoSamples false
      (twoHeld.readI anySample anyState) (twoHeld.takeI anySample anyState) output afterRead
      afterTake returned) ∧
    ∃ output afterRead afterTake returned, TakesAsRead twoHeld twoSamples false
      (twoHeld.readInstanceI anySample anyState 2) (twoHeld.takeInstanceI anySample anyState 2)
      output afterRead afterTake returned := by
  constructor
  · apply (take_as_read twoHeld_wf anySample anyState).1
    exact fun _ _ _ _ _ _ _ _ hfilter => nomatch hfilter
  · apply (take_as_read twoHeld_wf anySample anyState).2 2 _ rfl
    exact fun _ _ _ _ _ _ _ _ hfilter => nomatch hfilter

example : (twoHeld.takeI anySample anyState).map
    (fun result => (result.1.infoSeq.length, result.2.instances.length)) = .ok (2, 1) := by
  decide +kernel

end OpenDDS.Guarantees.TakeAsRead
