import OpenDDS.Source.RakeCopying
import OpenDDS.Source.ReaderAccess

/-!
`read_next_sample` and `take_next_sample` (dds/idl/CPPTemplate.txt), each with a loop of its own
over the samples, and `DataReaderImpl::sample_info` (dds/DCPS/DataReaderImpl.cpp), by which they get
the ranks. The loop over the samples of an instance takes a number of steps after which it is still
running: the one of `take_next_sample` does not go on from a sample that was read.
-/
namespace OpenDDS.Source.ReaderCache

/-- Samples that were not read, in `ANY_VIEW_STATE` and `ANY_INSTANCE_STATE`. -/
def notReadSamples : Masks := ⟨2, 0xffff, 0xffff⟩

def anySamples : Masks := ⟨0xffff, 0xffff, 0xffff⟩

/-- What a call returns, and the variables of the caller afterwards; `sample_info` is none where it
is not written. -/
structure Next (δ : Type) where
  code : ReturnCode
  receivedData : δ
  sampleInfo : Option SampleInfo
  cache : Cache δ

/-- `DataReaderImpl::sample_info`. -/
def SampleInfo.withRanks {δ : Type} (info : SampleInfo) (ptr : ReceivedDataElement δ) :
    SampleInfo :=
  { info with
    sampleRank := 0
    generationRank :=
      info.disposedGenerationCount + info.noWritersGenerationCount - info.generationRank
    absoluteGenerationRank :=
      toLong ptr.disposedGenerationCount + toLong ptr.noWritersGenerationCount -
        info.absoluteGenerationRank }

namespace Cache

variable {δ : Type} (c : Cache δ)

/-- The loop over the samples of an instance from `item`: none where it is still running, and
otherwise the sample that it has found. -/
def scan (oper : Operation) : Nat → Option Nat → Option (Option Nat)
  | 0, _ => none
  | _ + 1, none => some none
  | fuel + 1, some item =>
    if (c.element item).coherentChange then scan oper fuel (c.links.nextDataSample item)
    else if (c.element item).sampleState.bits &&& notReadSamples.sampleStates ≠ 0 then
      some (some item)
    else
      match oper with
      | .read => scan oper fuel (c.links.nextDataSample item)
      -- only the other two branches of the loop in take_next_sample move on
      | .take => scan oper fuel (some item)

/-- The loop over the instances: none where the loop inside is still running, and otherwise the
instance and the sample that were found. -/
def search (oper : Operation) (fuel : Nat) : List Nat → Except Fault (Option (Option (Nat × Nat)))
  | [] => .ok (some none)
  | handle :: rest => do
    let inst ← c.deref handle
    if notReadSamples.admitsInstance inst.instanceState then
      match c.scan oper fuel inst.rcvdSamples.head with
      | none => .ok none
      | some none => search oper fuel rest
      | some (some item) => .ok (some (some (handle, item)))
    else search oper fuel rest

/-- `accessed`, if the sample is of the most recent generation. -/
def accessRecent (mrg : Bool) (handle : Nat) : Except Fault (Cache δ) :=
  if mrg then do
    let inst ← c.deref handle
    .ok (c.setInstance handle { inst with instanceState := inst.instanceState.accessed })
  else .ok c

/-- The ranks from the sample at the end of the list. -/
def tailRanks (handle : Nat) (info : SampleInfo) : Except Fault SampleInfo := do
  let inst ← c.deref handle
  match inst.rcvdSamples.tail with
  | none => .error .brokenList
  | some tail => .ok (info.withRanks (c.element tail))

/-- The sample that `read_next_sample` has found. -/
def readFound (receivedData : δ) (handle item : Nat) : Except Fault (Next δ) := do
  let inst ← c.deref handle
  let accessed ← (c.markRead false item).accessRecent
    (mostRecentGeneration inst.instanceState (c.element item)) handle
  let info ← accessed.tailRanks handle (ReaderCache.sampleInfo inst.instanceState (c.element item))
  .ok ⟨.ok, (c.element item).registeredData.getD receivedData, some info, accessed⟩

/-- The sample that `take_next_sample` has found, which is removed at the end if it is the last of
its instance. -/
def takeFound (receivedData : δ) (handle item : Nat) : Except Fault (Next δ) := do
  let inst ← c.deref handle
  let data := (c.element item).registeredData.getD receivedData
  let info := ReaderCache.sampleInfo inst.instanceState (c.element item)
  let mrg := mostRecentGeneration inst.instanceState (c.element item)
  if inst.rcvdSamples.tail = some item then do
    let accessed ← (c.markRead false item).accessRecent mrg handle
    let removed ← accessed.removeSample handle item
    .ok ⟨.ok, data, some (info.withRanks (accessed.element item)), removed.2.decRefDataElement item⟩
  else do
    let removed ← (c.markRead false item).removeSample handle item
    let accessed ← (removed.2.decRefDataElement item).accessRecent mrg handle
    let info ← accessed.tailRanks handle info
    .ok ⟨.ok, data, some info, accessed⟩

/-- A call, whose loops make `fuel` steps for each instance: none where it is still running. -/
def nextSample (oper : Operation) (fuel : Nat) (receivedData : δ) :
    Except Fault (Option (Next δ)) := do
  match ← c.search oper fuel (c.instanceMap.map Prod.snd) with
  | none => .ok none
  | some none => .ok (some ⟨.noData, receivedData, none, c⟩)
  | some (some (handle, item)) =>
    match oper with
    | .read => (c.readFound receivedData handle item).map some
    | .take => (c.takeFound receivedData handle item).map some

def readNextSample (fuel : Nat) (receivedData : δ) : Except Fault (Option (Next δ)) :=
  c.nextSample .read fuel receivedData

def takeNextSample (fuel : Nat) (receivedData : δ) : Except Fault (Option (Next δ)) :=
  c.nextSample .take fuel receivedData

end Cache

end OpenDDS.Source.ReaderCache

/-!
# What the loops of `read_next_sample` and `take_next_sample` find

The first sample that was not read; the loop of `take_next_sample` finds nothing at all where it
meets a sample that was read first.
-/
namespace OpenDDS.Source.ReaderCache
open Library.LinkedList Cache

variable {δ : Type} {c : Cache δ} {samples : Nat → List Nat} {oper : Operation}
  {handle fuel a : Nat}

/-- What the loops find among the samples they see: nothing at all where they do not end. -/
def outcome {β : Type} (oper : Operation) (unread : β → Bool) (seen : List β) : Option (Option β) :=
  match oper, seen with
  | .read, seen => some (seen.find? unread)
  | .take, [] => some none
  | .take, first :: _ => if unread first then some (some first) else none

section

variable {β γ : Type} {unread : β → Bool} {xs ys : List β}

theorem outcome_append : outcome oper unread (xs ++ ys) =
    match outcome oper unread xs with
    | some none => outcome oper unread ys
    | found => found := by
  cases oper with
  | read =>
    simp only [outcome, List.find?_append]
    cases xs.find? unread with
    | none => rfl
    | some first => rfl
  | take =>
    cases xs with
    | nil => rfl
    | cons first rest =>
      cases hunread : unread first with
      | true => simp [outcome, hunread]
      | false => simp [outcome, hunread]

theorem outcome_map (f : γ → β) (xs : List γ) :
    outcome oper unread (xs.map f) = (outcome oper (unread ∘ f) xs).map (Option.map f) := by
  cases oper with
  | read => simp [outcome, List.find?_map]
  | take =>
    cases xs with
    | nil => rfl
    | cons first rest =>
      cases hunread : unread (f first) with
      | true => simp [outcome, hunread]
      | false => simp [outcome, hunread]

theorem outcome_skip {first : β} (h : unread first = false) :
    outcome oper unread (first :: xs) =
      match oper with
      | .read => outcome oper unread xs
      | .take => none := by
  cases oper with
  | read => simp [outcome, h]
  | take => simp [outcome, h]

theorem outcome_found {first : β} (h : unread first = true) :
    outcome oper unread (first :: xs) = some (some first) := by
  cases oper with
  | read => simp [outcome, h]
  | take => simp [outcome, h]

end

/-- A sample that was not read. -/
def unread (c : Cache δ) (a : Nat) : Bool :=
  decide ((c.element a).sampleState.bits &&& notReadSamples.sampleStates ≠ 0)

theorem admits_any : anySamples.admitsSample (c.element a) = !(c.element a).coherentChange := by
  unfold Masks.admitsSample
  cases (c.element a).sampleState with
  | read => rfl
  | notRead => rfl

theorem scan_eq (oper : Operation) (fuel : Nat) {items : List Nat}
    (path : Path c.links.nextDataSample items none) :
    (fuel ≤ items.length ∧ c.scan oper fuel items.head? = none) ∨
      c.scan oper fuel items.head? = outcome oper (unread c)
        (items.filter fun a => anySamples.admitsSample (c.element a)) := by
  induction fuel generalizing items with
  | zero =>
    left
    exact ⟨Nat.zero_le _, by cases items <;> rfl⟩
  | succ fuel ih =>
    cases items with
    | nil =>
      right
      cases oper <;> rfl
    | cons item rest =>
      have hnext : c.links.nextDataSample item = rest.head? := by simpa using path.1
      have hrest := ih path.2
      rw [List.filter_cons, admits_any, List.head?_cons, List.length_cons]
      unfold scan
      by_cases hcoherent : (c.element item).coherentChange = true
      · rw [if_pos hcoherent, hnext, hcoherent]
        rcases hrest with ⟨hshort, hrunning⟩ | hend
        · exact .inl ⟨by omega, hrunning⟩
        · exact .inr hend
      · rw [if_neg hcoherent, eq_false_of_ne_true hcoherent]
        by_cases hunread : unread c item = true
        · right
          rw [if_pos (of_decide_eq_true hunread)]
          exact (outcome_found hunread).symm
        · rw [if_neg fun h => hunread (decide_eq_true h)]
          simp only [Bool.not_false, if_true]
          rw [outcome_skip (eq_false_of_ne_true hunread)]
          cases oper with
          | read =>
            rw [hnext]
            rcases hrest with ⟨hshort, hrunning⟩ | hend
            · exact .inl ⟨by omega, hrunning⟩
            · exact .inr hend
          | take =>
            right
            have hstays := ih path
            rw [List.head?_cons, List.filter_cons, admits_any, eq_false_of_ne_true hcoherent]
              at hstays
            simp only [Bool.not_false, if_true] at hstays
            rw [outcome_skip (eq_false_of_ne_true hunread)] at hstays
            rcases hstays with ⟨-, hrunning⟩ | hend
            · exact hrunning
            · exact hend

/-- The samples of a list of instances that the masks admit, each with its instance. -/
def seen (c : Cache δ) (masks : Masks) (handles : List Nat) : List (Nat × Nat) :=
  handles.flatMap fun handle => (c.admitted masks handle).map (Prod.mk handle)

theorem search_eq (oper : Operation) (fuel : Nat) (w : Wf c samples)
    {handles : List Nat}
    (found : ∀ h ∈ handles, (c.getHandleInstance h).isSome) :
    ((∃ h ∈ handles, fuel ≤ (samples h).length) ∧ c.search oper fuel handles = .ok none) ∨
      c.search oper fuel handles =
        .ok (outcome oper (unread c ∘ Prod.snd) (seen c anySamples handles)) := by
  induction handles with
  | nil =>
    right
    cases oper <;> rfl
  | cons handle rest ih =>
    obtain ⟨inst, hinst⟩ := Option.isSome_iff_exists.mp (found handle List.mem_cons_self)
    have hrest := ih fun h hin => found h (List.mem_cons_of_mem _ hin)
    have hlists := w.lists handle inst hinst
    have hseen : seen c anySamples (handle :: rest) =
        (c.admitted anySamples handle).map (Prod.mk handle) ++ seen c anySamples rest :=
      List.flatMap_cons
    have hsnd : (unread c ∘ Prod.snd) ∘ Prod.mk handle = unread c := rfl
    rw [hseen, outcome_append, outcome_map, hsnd]
    unfold Cache.search
    rw [deref_eq_ok hinst]
    dsimp only [bind, Except.bind]
    have hshort : (∃ h ∈ rest, fuel ≤ (samples h).length) →
        ∃ h ∈ handle :: rest, fuel ≤ (samples h).length := by
      rintro ⟨h, hin, hle⟩
      exact ⟨h, List.mem_cons_of_mem _ hin, hle⟩
    by_cases hadmits : notReadSamples.admitsInstance inst.instanceState = true
    · have hadmitted : c.admitted anySamples handle = (samples handle).filter fun item =>
          anySamples.admitsSample (c.element item) := admitted_eq w hinst hadmits
      rw [if_pos hadmits, hadmitted, hlists.head]
      rcases scan_eq oper fuel hlists.forward with ⟨hle, hrunning⟩ | hend
      · left
        rw [hrunning]
        exact ⟨⟨handle, List.mem_cons_self, hle⟩, rfl⟩
      · rw [hend]
        cases outcome oper (unread c)
            ((samples handle).filter fun item => anySamples.admitsSample (c.element item)) with
        | none => exact .inr rfl
        | some first =>
          cases first with
          | none => exact hrest.imp_left fun h => ⟨hshort h.1, h.2⟩
          | some first => exact .inr rfl
    · have hnone : c.admitted anySamples handle = [] := by
        unfold admitted
        rw [hinst]
        exact if_neg hadmits
      rw [if_neg hadmits, hnone]
      have hempty : outcome oper (unread c) [] = some none := by
        cases oper <;> rfl
      rw [hempty]
      exact hrest.imp_left fun h => ⟨hshort h.1, h.2⟩

theorem seen_unread (c : Cache δ) (handles : List Nat) : seen c notReadSamples handles =
    (seen c anySamples handles).filter (unread c ∘ Prod.snd) := by
  unfold seen
  rw [List.filter_flatMap]
  congr
  funext handle
  rw [List.filter_map]
  unfold admitted
  split
  · rfl
  · rename_i inst hinst
    have hsame : anySamples.admitsInstance inst.instanceState =
        notReadSamples.admitsInstance inst.instanceState := rfl
    rw [hsame]
    split
    · rw [List.filter_filter]
      congr
      funext item
      rw [admits_any]
      rfl
    · rfl

end OpenDDS.Source.ReaderCache
