import OpenDDS.Source.QosPolicies
import OpenDDS.Library.AssociationList
import Mathlib.Data.List.DropRight

/-!
# Cache of durable data

`DataDurabilityCache::insert` (dds/DCPS/DataDurabilityCache.cpp) with the depth of
`get_instance_sample_list_depth`. The samples of a topic are kept in one array with a queue for
each data writer that left some; a slot is null when its queue was cleaned up. What the allocator,
the file system and the reactor answer is given by an environment. Growing the array does not
fail, and a slot that was grown for a queue which is then not allocated is null.
-/
namespace OpenDDS.Source.DataDurabilityCache

open QosHelper

variable {σ : Type}

def durationToTimeValue (t : Duration_t) : Int :=
  (t.sec.toInt + (t.nanosec.toNat / 1000 / 1000000 : Nat)) * 1000000 +
    (t.nanosec.toNat / 1000 % 1000000 : Nat)

def getInstanceSampleListDepth (historyKind : PolicyKind)
    (historyDepth maxSamplesPerInstance : Int) : Int :=
  let depth := if historyKind = keepAllHistoryQos then maxSamplesPerInstance else historyDepth
  if depth = lengthUnlimited then 0x7fffffff else depth

/-- `key_type`. -/
structure Key where
  domainId : Int
  topicName : String
  typeName : String
  deriving DecidableEq

/-- `sample` is the user's data, without the header. -/
structure DataSampleElement (σ : Type) where
  sourceTimestamp : Time_t
  coherentChange : Bool
  sample : σ
  deriving DecidableEq

/-- `sample_data_type`. -/
structure SampleData (σ : Type) where
  sample : σ
  sourceTimestamp : Time_t
  deriving DecidableEq

def SampleData.ofElement (element : DataSampleElement σ) : SampleData σ :=
  ⟨element.sample, element.sourceTimestamp⟩

structure DurabilityQueue (σ : Type) where
  samples : List (SampleData σ)
  fsPath : List String
  deriving DecidableEq

/-- `sample_list_type`. -/
abbrev SampleList (σ : Type) := List (Option (DurabilityQueue σ))

/-- `files` are those under `data_dir_`, each with its directory. -/
structure Cache (σ : Type) where
  kind : PolicyKind
  samples : List (Key × SampleList σ)
  cleanupTimerIds : List Int
  files : List (List String × SampleData σ)
  deriving DecidableEq

/-- `create_next_file` may throw, and the file need not be opened. -/
inductive FileWrite where
  | written
  | notOpened
  | threw
  deriving DecidableEq

structure Environment where
  /-- The directory made for the data writer, or none if an exception is thrown. -/
  createNextDir : Option String
  mallocList : Bool
  bind : Bool
  mallocQueue : Bool
  /-- By the number of samples that the queue has. -/
  enqueueTail : Nat → Bool
  /-- By the number of samples that the queue has. -/
  write : Nat → FileWrite
  /-- `schedule_timer`, −1 on failure. -/
  scheduleTimer : Int

/-- The loop over the samples. It is left early with `false`. -/
def insertSamples (env : Environment) (dir : Option (List String)) :
    List (DataSampleElement σ) → DurabilityQueue σ → List (List String × SampleData σ) →
      Bool × DurabilityQueue σ × List (List String × SampleData σ)
  | [], samples, files => (true, samples, files)
  | elem :: rest, samples, files =>
    if elem.coherentChange then insertSamples env dir rest samples files
    else
      let sample := SampleData.ofElement elem
      if !env.enqueueTail samples.samples.length then (false, samples, files)
      else
        let queued := { samples with samples := samples.samples ++ [sample] }
        match dir with
        | none => insertSamples env dir rest queued files
        | some path =>
          match env.write samples.samples.length with
          | .written => insertSamples env dir rest queued (files ++ [(path, sample)])
          | .notOpened => (false, queued, files)
          | .threw => insertSamples env dir rest queued files

/-- The array of a topic is put in place of the one before. -/
def Cache.store (cache : Cache σ) (key : Key) (list : SampleList σ) : Cache σ :=
  { cache with
    samples := match cache.samples.lookup key with
      | none => cache.samples ++ [(key, list)]
      | some _ => cache.samples.map fun entry => if entry.1 = key then (key, list) else entry }

/-- The first null slot, or the one past the end. -/
def emptySlot (list : SampleList σ) : Nat := list.findIdx Option.isNone

def grow (list : SampleList σ) : SampleList σ :=
  if emptySlot list = list.length then list ++ [none] else list

/-- The rest of `insert`, from the scheduling of the cleanup on. -/
def scheduleCleanup (env : Environment) (qos : DurabilityServiceQosPolicy) (key : Key)
    (list : SampleList σ) (slot : Nat) (cache : Cache σ) : Bool × Cache σ :=
  if 0 < durationToTimeValue qos.serviceCleanupDelay then
    if env.scheduleTimer = -1 then (false, cache.store key (list.set slot none))
    else (true, { cache with cleanupTimerIds := cache.cleanupTimerIds ++ [env.scheduleTimer] })
  else (true, cache)

/-- The part of `insert` that puts a queue into the array of the topic. -/
def insertQueue (env : Environment) (qos : DurabilityServiceQosPolicy) (key : Key)
    (dir : Option (List String)) (elements : List (DataSampleElement σ)) (cache : Cache σ)
    (found : SampleList σ) : Bool × Cache σ :=
  let slot := emptySlot found
  let list := grow found
  if !env.mallocQueue then (false, cache.store key list)
  else
    let result := insertSamples env dir elements ⟨[], dir.getD []⟩ cache.files
    let filled := list.set slot (some result.2.1)
    let cache' := { cache.store key filled with files := result.2.2 }
    if !result.1 then (false, cache') else scheduleCleanup env qos key filled slot cache'

def insert (env : Environment) (domainId : Int) (topicName typeName : String)
    (theData : List (DataSampleElement σ)) (qos : DurabilityServiceQosPolicy) (cache : Cache σ) :
    Bool × Cache σ :=
  if theData.length = 0 then (true, cache)
  else
    let depth :=
      getInstanceSampleListDepth qos.historyKind qos.historyDepth qos.maxSamplesPerInstance
    if depth < 0 then (false, cache)
    else if depth = 0 then (true, cache)
    else
      let elements :=
        if theData.length > depth then theData.drop (theData.length - depth).toNat else theData
      let key : Key := ⟨domainId, topicName, typeName⟩
      let dir :=
        if cache.kind = persistentDurabilityQos then
          env.createNextDir.map fun name => [toString domainId, topicName, typeName, name]
        else none
      match cache.samples.lookup key with
      | some found => insertQueue env qos key dir elements cache found
      | none =>
        if !env.mallocList then (false, cache)
        else if !env.bind then (false, cache)
        else insertQueue env qos key dir elements (cache.store key [none]) [none]

theorem lookup_store (cache : Cache σ) (key : Key) (list : SampleList σ) :
    (cache.store key list).samples.lookup key = some list := by
  unfold Cache.store
  cases h : cache.samples.lookup key with
  | none => simp [Library.AssociationList.lookup_concat h]
  | some found =>
    simp only [Library.AssociationList.lookup_replace, h]
    simp

variable {env : Environment}

variable {elements : List (DataSampleElement σ)} {dir : Option (List String)}

theorem insertSamples_samples (hcoherent : ∀ elem ∈ elements, elem.coherentChange = false)
    (queue : DurabilityQueue σ) (files : List (List String × SampleData σ))
    (h : (insertSamples env dir elements queue files).1 = true) :
    (insertSamples env dir elements queue files).2.1.samples =
      queue.samples ++ elements.map SampleData.ofElement := by
  induction elements generalizing queue files with
  | nil => simp [insertSamples]
  | cons elem rest ih =>
    have helem : elem.coherentChange = false := hcoherent elem List.mem_cons_self
    have hrest : ∀ elem ∈ rest, elem.coherentChange = false :=
      fun other hother => hcoherent other (List.mem_cons_of_mem _ hother)
    rw [insertSamples] at h ⊢
    simp only [helem, Bool.false_eq_true, if_false] at h ⊢
    by_cases henqueue : env.enqueueTail queue.samples.length = true
    · cases dir with
      | none =>
        simp only [henqueue, Bool.not_true, Bool.false_eq_true, if_false] at h ⊢
        simp [ih hrest _ _ h]
      | some path =>
        cases hwrite : env.write queue.samples.length with
        | written =>
          simp only [henqueue, hwrite, Bool.not_true, Bool.false_eq_true, if_false] at h ⊢
          simp [ih hrest _ _ h]
        | notOpened => simp [henqueue, hwrite] at h
        | threw =>
          simp only [henqueue, hwrite, Bool.not_true, Bool.false_eq_true, if_false] at h ⊢
          simp [ih hrest _ _ h]
    · simp [henqueue] at h

theorem emptySlot_lt (list : SampleList σ) : emptySlot list < (grow list).length := by
  unfold grow
  split
  · next heq => simp [heq]
  · next hne =>
    have hle : emptySlot list ≤ list.length := List.findIdx_le_length
    omega

/-- The samples of the queue in a slot, none if the slot is null. -/
def Cache.queued (cache : Cache σ) (key : Key) (slot : Nat) : List (SampleData σ) :=
  match (cache.samples.lookup key).bind (·[slot]?) with
  | some (some queue) => queue.samples
  | _ => []

def Cache.nextSlot (cache : Cache σ) (key : Key) : Nat :=
  emptySlot ((cache.samples.lookup key).getD [none])

theorem queued_nextSlot (cache : Cache σ) (key : Key) :
    cache.queued key (cache.nextSlot key) = [] := by
  unfold Cache.queued Cache.nextSlot emptySlot
  cases hfound : cache.samples.lookup key with
  | none => rfl
  | some found =>
    cases hslot : found[found.findIdx Option.isNone]? with
    | none => simp [hslot]
    | some slot =>
      have hnull : slot.isNone := by
        rw [← (List.getElem?_eq_some_iff.mp hslot).2]
        exact List.findIdx_getElem
      rw [Option.isNone_iff_eq_none.mp hnull] at hslot
      simp [hslot]

variable {qos : DurabilityServiceQosPolicy} {cache : Cache σ}

theorem scheduleCleanup_samples {key : Key} {list : SampleList σ} {slot : Nat}
    (h : (scheduleCleanup env qos key list slot cache).1 = true) :
    (scheduleCleanup env qos key list slot cache).2.samples = cache.samples := by
  unfold scheduleCleanup at h ⊢
  grind

theorem queued_insertQueue {key : Key} {found : SampleList σ}
    (hcoherent : ∀ elem ∈ elements, elem.coherentChange = false)
    (h : (insertQueue env qos key dir elements cache found).1 = true) :
    (insertQueue env qos key dir elements cache found).2.queued key (emptySlot found) =
      elements.map SampleData.ofElement := by
  unfold insertQueue at h ⊢
  by_cases hmalloc : env.mallocQueue = true
  · simp only [hmalloc, Bool.not_true, Bool.false_eq_true, if_false] at h ⊢
    by_cases hsamples : (insertSamples env dir elements ⟨[], dir.getD []⟩ cache.files).1 = true
    · simp only [hsamples, Bool.not_true, Bool.false_eq_true, if_false] at h ⊢
      rw [Cache.queued, scheduleCleanup_samples h, lookup_store]
      simp [List.getElem?_set_self (emptySlot_lt found),
        insertSamples_samples hcoherent _ _ hsamples]
    · simp [hsamples] at h
  · simp [hmalloc] at h

theorem queued_insert {domainId : Int} {topicName typeName : String}
    {theData : List (DataSampleElement σ)} (hkind : qos.historyKind = keepLastHistoryQos)
    (hdepth : 1 ≤ qos.historyDepth) (hcoherent : ∀ elem ∈ theData, elem.coherentChange = false)
    (h : (insert env domainId topicName typeName theData qos cache).1 = true) (hne : theData ≠ []) :
    (insert env domainId topicName typeName theData qos cache).2.queued
        ⟨domainId, topicName, typeName⟩ (cache.nextSlot ⟨domainId, topicName, typeName⟩) =
      (theData.rtake qos.historyDepth.toNat).map SampleData.ofElement := by
  have hget : getInstanceSampleListDepth qos.historyKind qos.historyDepth qos.maxSamplesPerInstance
      = qos.historyDepth := by
    have hlast : qos.historyKind ≠ keepAllHistoryQos := by rw [hkind]; decide
    have hlimited : qos.historyDepth ≠ lengthUnlimited := by unfold lengthUnlimited; omega
    simp [getInstanceSampleListDepth, hlast, hlimited]
  have hdrop : (if (theData.length : Int) > qos.historyDepth
      then theData.drop (theData.length - qos.historyDepth).toNat else theData)
      = theData.rtake qos.historyDepth.toNat := by
    unfold List.rtake
    split
    · congr 1
      omega
    · have hzero : theData.length - qos.historyDepth.toNat = 0 := by omega
      rw [hzero, List.drop_zero]
  have hlength : theData.length ≠ 0 := by simpa using hne
  have hpos : ¬ qos.historyDepth < 0 := by omega
  have hzero : qos.historyDepth ≠ 0 := by omega
  have hkept : ∀ elem ∈ theData.rtake qos.historyDepth.toNat, elem.coherentChange = false :=
    fun elem helem => hcoherent elem (List.mem_of_mem_drop helem)
  unfold insert at h ⊢
  simp only [hlength, hget, hpos, hzero, hdrop, if_false] at h ⊢
  unfold Cache.nextSlot
  cases hfound : cache.samples.lookup ⟨domainId, topicName, typeName⟩ with
  | some found =>
    simp only [hfound] at h
    exact queued_insertQueue hkept h
  | none =>
    simp only [hfound] at h
    by_cases hmalloc : env.mallocList = true
    · by_cases hbind : env.bind = true
      · simp only [hmalloc, hbind, Bool.not_true, Bool.false_eq_true, if_false] at h ⊢
        exact queued_insertQueue hkept h
      · simp [hmalloc, hbind] at h
    · simp [hmalloc] at h

end OpenDDS.Source.DataDurabilityCache
