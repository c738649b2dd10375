import OpenDDS.Library.Folds
import OpenDDS.Source.CacheInvariant

/-!
`OpenDDS::DCPS::RakeResults` (dds/DCPS/RakeResults_T.{h,cpp}) and the functions of a typed data
reader that use it: `read_i`, `take_i`, `read_instance_i` and `take_instance_i`
(dds/idl/CPPTemplate.txt), for a subscriber whose access scope is not GROUP: `read_i` and
`take_i` refuse such a reader outside of `begin_access`, and with coherent and ordered access they
take one sample of `group_coherent_ordered_data_`. Return codes follow from the number of samples,
and statuses are not part of the cache.

`sorted_` is a multiset: a sample goes behind those that it does not precede. The generation
counts are unbounded in the cache, and they are cut to 32 bits for the user.
-/
namespace OpenDDS.Source.ReaderCache
open Library.LinkedList

def SampleStateKind.bits : SampleStateKind → Nat
  | .read => 1
  | .notRead => 2

end OpenDDS.Source.ReaderCache

namespace OpenDDS.Source

def ViewStateKind.bits : ViewStateKind → Nat
  | .unset => 0
  | .new => 1
  | .notNew => 2

def InstanceStateKind.bits : InstanceStateKind → Nat
  | .unset => 0
  | .alive => 1
  | .notAliveDisposed => 2
  | .notAliveNoWriters => 4

end OpenDDS.Source

namespace OpenDDS.Source.ReaderCache
open Library.LinkedList

structure Masks where
  sampleStates : Nat
  viewStates : Nat
  instanceStates : Nat

def Masks.admitsInstance (masks : Masks) (state : InstanceState) : Bool :=
  decide (state.viewState.bits &&& masks.viewStates ≠ 0) &&
    decide (state.instanceState.bits &&& masks.instanceStates ≠ 0)

/-- The mask on the state of a sample, which must not belong to an open coherent set. -/
def Masks.admitsSample {δ : Type} (masks : Masks) (item : ReceivedDataElement δ) : Bool :=
  decide (item.sampleState.bits &&& masks.sampleStates ≠ 0) && !item.coherentChange

/-- A query condition: its filter and the comparison of its ORDER BY fields, if it has them. -/
structure QueryCondition (δ : Type) where
  filter : Option (δ → Bool)
  orderBys : Option (δ → δ → Bool)

/-- What a `RakeResults` is constructed with. `orderedTopic` is ordered access with TOPIC
presentation, `zeroCopy` a sequence without room of its own. -/
structure Request (δ : Type) where
  maxSamples : Int
  orderedTopic : Bool
  cond : Option (QueryCondition δ)
  zeroCopy : Bool

/-- `max_samples_`, which is unsigned. -/
def Request.limit {δ : Type} (req : Request δ) : Nat := (req.maxSamples % 2 ^ 32).toNat

def Request.doSort {δ : Type} (req : Request δ) : Bool :=
  match req.cond with
  | some cond => cond.orderBys.isSome
  | none => req.orderedTopic

structure RakeData where
  rde : Nat
  si : Nat
  indexInInstance : Nat
  deriving DecidableEq, Repr

structure Results where
  sorted : List RakeData
  unsorted : List RakeData

namespace Cache

variable {δ : Type} (c : Cache δ)

/-- `SortedSetCmp`. -/
def precedes (req : Request δ) (lhs rhs : RakeData) : Bool :=
  match req.cond.bind QueryCondition.orderBys with
  | none => decide ((c.element lhs.rde).sourceTimestamp < (c.element rhs.rde).sourceTimestamp)
  | some compare =>
    match (c.element lhs.rde).registeredData, (c.element rhs.rde).registeredData with
    | some a, some b => compare a b
    | _, _ => false

/-- `sorted_.insert`. -/
def insertSorted (req : Request δ) (rd : RakeData) (sorted : List RakeData) : List RakeData :=
  sorted.takeWhile (fun other => !c.precedes req rd other) ++ rd ::
    sorted.dropWhile (fun other => !c.precedes req rd other)

/-- The filter of the query condition; a sample without data cannot be filtered. -/
def passes (req : Request δ) (rd : RakeData) : Except Fault Bool :=
  match req.cond.bind QueryCondition.filter with
  | none => .ok true
  | some filter =>
    match (c.element rd.rde).registeredData with
    | none => .error .nullData
    | some data => .ok (filter data)

def place (req : Request δ) (results : Results) (rd : RakeData) : Results :=
  if req.doSort then
    if req.cond.isSome && (c.element rd.rde).registeredData.isNone then results
    else { results with sorted := c.insertSorted req rd results.sorted }
  else if results.unsorted.length = req.limit then results
  else { results with unsorted := results.unsorted ++ [rd] }

def insertSample (req : Request δ) (results : Results) (rd : RakeData) : Except Fault Results := do
  let passed ← c.passes req rd
  .ok (if passed then c.place req results rd else results)

/-- The samples of one instance that the masks let through, numbered from 1. -/
def insertInstance (req : Request δ) (masks : Masks) (results : Results) (handle : Nat) :
    Except Fault Results := do
  let inst ← c.deref handle
  if masks.admitsInstance inst.instanceState then
    match walk c.links.nextDataSample inst.rcvdSamples.size.toNat inst.rcvdSamples.head with
    | none => .error .brokenList
    | some items =>
      ((items.filter fun item => masks.admitsSample (c.element item)).zipIdx 1).foldlM
        (fun results numbered => c.insertSample req results ⟨numbered.1, handle, numbered.2⟩) results
  else .ok results

end Cache

inductive Operation where
  | read
  | take
  deriving DecidableEq, Repr

/-- A place of the sequence for the user: a loan, or a copy of the data. A sample without data
is copied as a default value. -/
inductive Received (δ : Type) where
  | loaned (rde : Nat)
  | copied (data : Option δ)

structure SampleInfo where
  sampleState : SampleStateKind
  viewState : ViewStateKind
  instanceState : InstanceStateKind
  disposedGenerationCount : Int
  noWritersGenerationCount : Int
  sourceTimestamp : Int
  instanceHandle : Nat
  publication : Nat
  validData : Bool
  sampleRank : Int
  generationRank : Int
  absoluteGenerationRank : Int
  deriving DecidableEq

/-- `static_cast<CORBA::Long>`. -/
def toLong (n : Nat) : Int := Int.bmod n (2 ^ 32)

/-- `InstanceState::sample_info`, with the sums that the ranks are computed from. -/
def sampleInfo {δ : Type} (state : InstanceState) (de : ReceivedDataElement δ) : SampleInfo where
  sampleState := de.sampleState
  viewState := state.viewState
  instanceState := state.instanceState
  disposedGenerationCount := toLong state.disposedGenerationCount
  noWritersGenerationCount := toLong state.noWritersGenerationCount
  sourceTimestamp := de.sourceTimestamp
  instanceHandle := state.handle
  publication := de.pub
  validData := de.registeredData.isSome
  sampleRank := 0
  generationRank := toLong (de.disposedGenerationCount + de.noWritersGenerationCount)
  absoluteGenerationRank := toLong (de.disposedGenerationCount + de.noWritersGenerationCount)

def mostRecentGeneration {δ : Type} (state : InstanceState) (item : ReceivedDataElement δ) : Bool :=
  decide (item.disposedGenerationCount = state.disposedGenerationCount) &&
    decide (item.noWritersGenerationCount = state.noWritersGenerationCount)

structure InstanceData where
  mostRecentGeneration : Bool
  mrsicIndex : Nat
  sampleinfoPositions : List Nat
  mrsicDisposedGc : Int
  mrsicNowritersGc : Int
  mrsDisposedGc : Int
  mrsNowritersGc : Int

/-- The first time an instance is seen, with its most recent sample. -/
def InstanceData.start {δ : Type} (mrs : ReceivedDataElement δ) : InstanceData where
  mostRecentGeneration := false
  mrsicIndex := 0
  sampleinfoPositions := []
  mrsicDisposedGc := 0
  mrsicNowritersGc := 0
  mrsDisposedGc := toLong mrs.disposedGenerationCount
  mrsNowritersGc := toLong mrs.noWritersGenerationCount

def InstanceData.note {δ : Type} (id : InstanceData) (state : InstanceState)
    (item : ReceivedDataElement δ) (index idx : Nat) : InstanceData :=
  { id with
    mrsicIndex := if index ≥ id.mrsicIndex then index else id.mrsicIndex
    mrsicDisposedGc :=
      if index ≥ id.mrsicIndex then toLong item.disposedGenerationCount else id.mrsicDisposedGc
    mrsicNowritersGc :=
      if index ≥ id.mrsicIndex then toLong item.noWritersGenerationCount else id.mrsicNowritersGc
    mostRecentGeneration := id.mostRecentGeneration || ReaderCache.mostRecentGeneration state item
    sampleinfoPositions := id.sampleinfoPositions ++ [idx] }

/-- What the loop of `copy_into` puts together for the user. -/
structure Rake (δ : Type) where
  receivedData : List (Received δ)
  infoSeq : List SampleInfo
  instMap : List (Nat × InstanceData)

def Rake.start {δ : Type} : Rake δ := ⟨[], [], []⟩

def Rake.record {δ : Type} (r : Rake δ) (zeroCopy : Bool) (state : InstanceState)
    (item : ReceivedDataElement δ) (rd : RakeData) (id : InstanceData) : Rake δ where
  receivedData := r.receivedData ++
    [if zeroCopy then .loaned rd.rde else .copied item.registeredData]
  infoSeq := r.infoSeq ++ [sampleInfo state item]
  instMap := (rd.si, id.note state item rd.indexInInstance r.infoSeq.length) ::
    r.instMap.filter fun entry => entry.1 ≠ rd.si

/-- The ranks of the samples of one instance. -/
def InstanceData.rank (id : InstanceData) (infoSeq : List SampleInfo) : List SampleInfo :=
  infoSeq.mapIdx fun idx si =>
    if idx ∈ id.sampleinfoPositions then
      { si with
        sampleRank := id.sampleinfoPositions.length - 1 - id.sampleinfoPositions.idxOf idx
        generationRank := id.mrsicDisposedGc + id.mrsicNowritersGc - si.generationRank
        absoluteGenerationRank :=
          id.mrsDisposedGc + id.mrsNowritersGc - si.absoluteGenerationRank }
    else si

structure Copying (δ : Type) where
  rake : Rake δ
  releasedInstances : List Nat
  cache : Cache δ

namespace Cache

variable {δ : Type} (c : Cache δ)

/-- `READ_SAMPLE_STATE` is set, and a loan takes a reference. -/
def markRead (zeroCopy : Bool) (rde : Nat) : Cache δ :=
  { c with
    element := Function.update c.element rde { c.element rde with sampleState := .read }
    refCount := if zeroCopy then Function.update c.refCount rde (c.refCount rde + 1)
      else c.refCount }

/-- The data of an instance, from its most recent sample when it is seen first. -/
def instanceData (inst : SubscriptionInstance) (seen : Option InstanceData) :
    Except Fault InstanceData :=
  match seen with
  | some id => .ok id
  | none =>
    match inst.rcvdSamples.tail with
    | none => .error .brokenList
    | some mrs => .ok (.start (c.element mrs))

/-- The end of the loop body: a taken sample is removed, which may release its instance. -/
def takeSample (oper : Operation) (released : List Nat) (rd : RakeData) :
    Except Fault (List Nat × Cache δ) :=
  match oper with
  | .read => .ok (released, c)
  | .take => do
    let removed ← c.removeSample rd.si rd.rde
    .ok (if removed.1 then rd.si :: released else released, removed.2.decRefDataElement rd.rde)

end Cache

/-- The body of the loop of `copy_into`. -/
def Copying.copyOne {δ : Type} (oper : Operation) (zeroCopy : Bool) (s : Copying δ) (rd : RakeData) :
    Except Fault (Copying δ) :=
  if s.cache.refCount rd.rde = 0 then .error .releasedElement
  else do
    let inst ← s.cache.deref rd.si
    let id ← s.cache.instanceData inst (s.rake.instMap.lookup rd.si)
    let rest ← (s.cache.markRead zeroCopy rd.rde).takeSample oper s.releasedInstances rd
    .ok ⟨s.rake.record zeroCopy inst.instanceState (s.cache.element rd.rde) rd id, rest.1, rest.2⟩

/-- The state of an instance whose most recent generation was read. -/
def Cache.access {δ : Type} (c : Cache δ) (released : List Nat) (entry : Nat × InstanceData) :
    Except Fault (Cache δ) :=
  if entry.1 ∈ released then .ok c
  else if entry.2.mostRecentGeneration then do
    let inst ← c.deref entry.1
    .ok (c.setInstance entry.1 { inst with instanceState := inst.instanceState.accessed })
  else .ok c

/-- The sequences for the user. -/
structure Output (δ : Type) where
  receivedData : List (Received δ)
  infoSeq : List SampleInfo

def Rake.output {δ : Type} (r : Rake δ) : Output δ :=
  ⟨r.receivedData, r.instMap.foldl (fun infoSeq entry => entry.2.rank infoSeq) r.infoSeq⟩

namespace Cache

variable {δ : Type} (c : Cache δ)

def copyInto (oper : Operation) (zeroCopy : Bool) (chosen : List RakeData) :
    Except Fault (Output δ × Cache δ) := do
  let s ← chosen.foldlM (Copying.copyOne oper zeroCopy) ⟨.start, [], c⟩
  let accessed ← s.rake.instMap.foldlM (fun c entry => c.access s.releasedInstances entry) s.cache
  .ok (s.rake.output, accessed)

/-- `copy_to_user` takes the samples up to `max_samples_`. -/
def chosen (req : Request δ) (results : Results) : List RakeData :=
  (if req.doSort then results.sorted else results.unsorted).take req.limit

/-- The samples of the instances `handles`. -/
def gather (req : Request δ) (masks : Masks) (handles : List Nat) : Except Fault Results :=
  handles.foldlM (c.insertInstance req masks) ⟨[], []⟩

def rake (oper : Operation) (req : Request δ) (masks : Masks) (handles : List Nat) :
    Except Fault (Output δ × Cache δ) := do
  let results ← c.gather req masks handles
  c.copyInto oper req.zeroCopy (chosen req results)

def readI (req : Request δ) (masks : Masks) : Except Fault (Output δ × Cache δ) :=
  c.rake .read req masks (c.instanceMap.map Prod.snd)

def takeI (req : Request δ) (masks : Masks) : Except Fault (Output δ × Cache δ) :=
  c.rake .take req masks (c.instanceMap.map Prod.snd)

def readInstanceI (req : Request δ) (masks : Masks) (handle : Nat) :
    Except Fault (Output δ × Cache δ) :=
  c.rake .read req masks [handle]

def takeInstanceI (req : Request δ) (masks : Masks) (handle : Nat) :
    Except Fault (Output δ × Cache δ) :=
  c.rake .take req masks [handle]

end Cache

end OpenDDS.Source.ReaderCache

/-!
# The samples that are selected

Gathering samples from a cache in order succeeds where the filter of the query condition is
defined, and each sample that is selected is on the list of its instance and is selected once.
-/
namespace OpenDDS.Source.ReaderCache
open Library.LinkedList Library.Folds SampleLinks Cache

variable {δ : Type} {c : Cache δ} {samples : Nat → List Nat} {handle : Nat}
  {inst : SubscriptionInstance} {req : Request δ} {masks : Masks} {rd : RakeData}
  {list list' : List RakeData} {seen seen' : Nat → Nat → Prop} {results : Results}

/-- Samples that were met on the lists, each of them once. -/
structure Drawn (seen : Nat → Nat → Prop) (list : List RakeData) : Prop where
  nodup : (list.map RakeData.rde).Nodup
  seen : ∀ rd ∈ list, seen rd.si rd.rde

theorem Drawn.nil : Drawn seen [] := ⟨List.nodup_nil, fun _ h => nomatch h⟩

theorem Drawn.mono (h : Drawn seen list) (mono : ∀ i a, seen i a → seen' i a) : Drawn seen' list :=
  ⟨h.nodup, fun rd hrd => mono _ _ (h.seen rd hrd)⟩

theorem Drawn.insert (h : Drawn seen list) (fresh : ∀ i, ¬ seen i rd.rde)
    (perm : list'.Perm (rd :: list)) (mono : ∀ i a, seen i a → seen' i a)
    (new : seen' rd.si rd.rde) : Drawn seen' list' where
  nodup := by
    rw [(perm.map RakeData.rde).nodup_iff, List.map_cons]
    refine List.nodup_cons.mpr ⟨?_, h.nodup⟩
    intro hin
    obtain ⟨other, hother, heq⟩ := List.mem_map.mp hin
    have hseen := h.seen other hother
    rw [heq] at hseen
    exact fresh _ hseen
  seen other hother := by
    rcases List.mem_cons.mp (perm.mem_iff.mp hother) with rfl | hin
    · exact new
    · exact mono _ _ (h.seen other hin)

theorem insertSorted_perm (c : Cache δ) (req : Request δ) (rd : RakeData) (list : List RakeData) :
    (c.insertSorted req rd list).Perm (rd :: list) := by
  refine List.perm_middle.trans ?_
  rw [List.takeWhile_append_dropWhile]

/-- A list of results stays, or the sample is put in. -/
def Extends (rd : RakeData) (list list' : List RakeData) : Prop :=
  list' = list ∨ list'.Perm (rd :: list)

theorem place_extends (c : Cache δ) (req : Request δ) (results : Results) (rd : RakeData) :
    Extends rd results.sorted (c.place req results rd).sorted ∧
      Extends rd results.unsorted (c.place req results rd).unsorted := by
  unfold place
  by_cases hsort : req.doSort = true
  · rw [if_pos hsort]
    split
    · exact ⟨.inl rfl, .inl rfl⟩
    · exact ⟨.inr (insertSorted_perm c req rd _), .inl rfl⟩
  · rw [if_neg hsort]
    split
    · exact ⟨.inl rfl, .inl rfl⟩
    · exact ⟨.inl rfl, .inr (List.perm_append_singleton rd _)⟩

def FilterDefined (c : Cache δ) (req : Request δ) (a : Nat) : Prop :=
  (req.cond.bind QueryCondition.filter).isSome → (c.element a).registeredData.isSome

theorem insertSample_extends (rd : RakeData) (defined : FilterDefined c req rd.rde)
    (results : Results) :
    ∃ results', c.insertSample req results rd = .ok results' ∧
      Extends rd results.sorted results'.sorted ∧
      Extends rd results.unsorted results'.unsorted := by
  have hpasses : ∃ passed, c.passes req rd = .ok passed := by
    unfold passes
    unfold FilterDefined at defined
    cases hfilter : req.cond.bind QueryCondition.filter with
    | none => exact ⟨true, rfl⟩
    | some filter =>
      rw [hfilter] at defined
      obtain ⟨data, hdata⟩ := Option.isSome_iff_exists.mp (defined rfl)
      rw [hdata]
      exact ⟨filter data, rfl⟩
  obtain ⟨passed, hpassed⟩ := hpasses
  have hinsert : c.insertSample req results rd =
      .ok (if passed then c.place req results rd else results) := by
    unfold insertSample
    rw [hpassed]
    rfl
  refine ⟨_, hinsert, ?_⟩
  cases passed with
  | true => exact place_extends c req results rd
  | false => exact ⟨.inl rfl, .inl rfl⟩

theorem Drawn.extends (h : Drawn seen list) (fresh : ∀ i, ¬ seen i rd.rde)
    (extended : Extends rd list list') (mono : ∀ i a, seen i a → seen' i a)
    (new : seen' rd.si rd.rde) : Drawn seen' list' := by
  rcases extended with rfl | hperm
  · exact h.mono mono
  · exact h.insert fresh hperm mono new

/-- Both lists of results were drawn from the lists of the cache. -/
def BothDrawn (seen : Nat → Nat → Prop) (results : Results) : Prop :=
  Drawn seen results.sorted ∧ Drawn seen results.unsorted

/-- The samples of the instances `handles`. -/
def seenIn (samples : Nat → List Nat) (handles : List Nat) (i a : Nat) : Prop :=
  i ∈ handles ∧ a ∈ samples i

/-- The filter is defined on every sample that the masks let through. -/
def Defined (c : Cache δ) (samples : Nat → List Nat) (req : Request δ) (masks : Masks)
    (handles : List Nat) : Prop :=
  ∀ handle ∈ handles, ∀ inst, c.getHandleInstance handle = some inst →
    masks.admitsInstance inst.instanceState = true →
    ∀ a ∈ samples handle, masks.admitsSample (c.element a) = true → FilterDefined c req a

variable {handles : List Nat}

theorem insertAll_drawn (w : Wf c samples) (other : handle ∉ handles) (numbered : List (Nat × Nat))
    (nodup : (numbered.map Prod.fst).Nodup) (within : ∀ n ∈ numbered, n.1 ∈ samples handle)
    (defined : ∀ n ∈ numbered, FilterDefined c req n.1)
    (drawn : BothDrawn (seenIn samples handles) results) :
    ∃ results', numbered.foldlM (fun results n => c.insertSample req results ⟨n.1, handle, n.2⟩)
        results = .ok results' ∧ BothDrawn (seenIn samples (handles ++ [handle])) results' := by
  have hfold : ∃ results', numbered.foldlM
        (fun results n => c.insertSample req results ⟨n.1, handle, n.2⟩) results = .ok results' ∧
      BothDrawn (fun i a => seenIn samples handles i a ∨ i = handle ∧ a ∈ numbered.map Prod.fst)
        results' := by
    apply foldlM_total (fun done results => BothDrawn (fun i a => seenIn samples handles i a ∨
      i = handle ∧ a ∈ done.map Prod.fst) results)
    · exact ⟨drawn.1.mono fun _ _ => .inl, drawn.2.mono fun _ _ => .inl⟩
    · intro done n rest results hsplit hdrawn
      have hn : n ∈ numbered := by simp [hsplit]
      obtain ⟨results', hok, hsorted, hunsorted⟩ :=
        insertSample_extends ⟨n.1, handle, n.2⟩ (defined n hn) results
      have hfresh : ∀ i, ¬ (seenIn samples handles i n.1 ∨
          i = handle ∧ n.1 ∈ done.map Prod.fst) := by
        rintro i (⟨hi, hmem⟩ | ⟨-, hin⟩)
        · exact other (w.own _ (within n hn) i hmem ▸ hi)
        · rw [hsplit, List.map_append, List.map_cons] at nodup
          exact (List.nodup_append.mp nodup).2.2 _ hin _ List.mem_cons_self rfl
      have hmono : ∀ i a, seenIn samples handles i a ∨ i = handle ∧ a ∈ done.map Prod.fst →
          seenIn samples handles i a ∨ i = handle ∧ a ∈ (done ++ [n]).map Prod.fst := by
        rintro i a (h | ⟨hi, hin⟩)
        · exact .inl h
        · exact .inr ⟨hi, by simp [hin]⟩
      have hnew : seenIn samples handles handle n.1 ∨
          handle = handle ∧ n.1 ∈ (done ++ [n]).map Prod.fst := Or.inr ⟨rfl, by simp⟩
      exact ⟨results', hok, hdrawn.1.extends hfresh hsorted hmono hnew,
        hdrawn.2.extends hfresh hunsorted hmono hnew⟩
  obtain ⟨results', hok, hdrawn⟩ := hfold
  have hseen : ∀ i a, seenIn samples handles i a ∨ i = handle ∧ a ∈ numbered.map Prod.fst →
      seenIn samples (handles ++ [handle]) i a := by
    rintro i a (h | ⟨rfl, hin⟩)
    · exact ⟨List.mem_append_left _ h.1, h.2⟩
    · obtain ⟨n, hn, rfl⟩ := List.mem_map.mp hin
      exact ⟨by simp, within n hn⟩
  exact ⟨results', hok, hdrawn.1.mono hseen, hdrawn.2.mono hseen⟩

theorem insertInstance_drawn (w : Wf c samples) (found : c.getHandleInstance handle = some inst)
    (other : handle ∉ handles) (defined : Defined c samples req masks [handle])
    (drawn : BothDrawn (seenIn samples handles) results) :
    ∃ results', c.insertInstance req masks results handle = .ok results' ∧
      BothDrawn (seenIn samples (handles ++ [handle])) results' := by
  unfold insertInstance
  rw [deref_eq_ok found]
  dsimp only [bind, Except.bind]
  by_cases hmasks : masks.admitsInstance inst.instanceState = true
  · rw [if_pos hmasks]
    rw [(w.lists handle inst found).walk]
    have hmem : ∀ n ∈ ((samples handle).filter fun item =>
        masks.admitsSample (c.element item)).zipIdx 1,
        n.1 ∈ samples handle ∧ masks.admitsSample (c.element n.1) = true := by
      intro n hn
      exact List.mem_filter.mp (List.fst_mem_of_mem_zipIdx hn)
    apply insertAll_drawn w other
    · rw [List.zipIdx_map_fst]
      exact (w.apart.nodup handle).filter _
    · exact fun n hn => (hmem n hn).1
    · exact fun n hn => defined handle (by simp) inst found hmasks n.1 (hmem n hn).1 (hmem n hn).2
    · exact drawn
  · rw [if_neg hmasks]
    have hgrow : ∀ i a, seenIn samples handles i a → seenIn samples (handles ++ [handle]) i a :=
      fun i a h => ⟨List.mem_append_left _ h.1, h.2⟩
    exact ⟨results, rfl, drawn.1.mono hgrow, drawn.2.mono hgrow⟩

theorem gather_drawn (w : Wf c samples) (nodup : handles.Nodup)
    (found : ∀ h ∈ handles, (c.getHandleInstance h).isSome)
    (defined : Defined c samples req masks handles) :
    ∃ results, c.gather req masks handles = .ok results ∧
      BothDrawn (seenIn samples handles) results := by
  apply foldlM_total (fun done results => BothDrawn (seenIn samples done) results)
  · exact ⟨Drawn.nil, Drawn.nil⟩
  · intro done handle rest results hsplit hdrawn
    have hin : handle ∈ handles := by simp [hsplit]
    obtain ⟨inst, hinst⟩ := Option.isSome_iff_exists.mp (found handle hin)
    have hother : handle ∉ done := by
      intro hdone
      rw [hsplit] at nodup
      exact (List.nodup_append.mp nodup).2.2 _ hdone _ List.mem_cons_self rfl
    apply insertInstance_drawn w hinst hother _ hdrawn
    intro h hh
    rw [List.mem_singleton.mp hh]
    exact defined handle hin

structure Selected (samples : Nat → List Nat) (chosen : List RakeData) : Prop where
  nodup : (chosen.map RakeData.rde).Nodup
  own : ∀ rd ∈ chosen, rd.rde ∈ samples rd.si

theorem gather_selected (w : Wf c samples) (nodup : handles.Nodup)
    (found : ∀ h ∈ handles, (c.getHandleInstance h).isSome)
    (defined : Defined c samples req masks handles) :
    ∃ results, c.gather req masks handles = .ok results ∧
      Selected samples (chosen req results) := by
  obtain ⟨results, hok, hsorted, hunsorted⟩ := gather_drawn w nodup found defined
  refine ⟨results, hok, ?_⟩
  have hdrawn : Drawn (seenIn samples handles)
      (if req.doSort then results.sorted else results.unsorted) := by
    split
    · exact hsorted
    · exact hunsorted
  have hsub := List.take_sublist req.limit (if req.doSort then results.sorted else results.unsorted)
  exact ⟨hdrawn.nodup.sublist (hsub.map _), fun rd hrd => (hdrawn.seen rd (hsub.subset hrd)).2⟩

end OpenDDS.Source.ReaderCache
