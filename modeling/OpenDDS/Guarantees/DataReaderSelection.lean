import OpenDDS.Guarantees.SampleRanks
import OpenDDS.Guarantees.ReadAccess
import OpenDDS.Source.DataReaders

/-!
# The readers that have something to read

For every subscriber and all masks, `get_datareaders` returns exactly the readers for which
`contains_sample` is true if and only if no reader meets the masks piecemeal: a reader of the set is
returned when some sample has one of the sample states, some instance one of the view states and
some instance one of the instance states, be they different ones or the sample pending. With
ordered access to a GROUP the masks are matched on one sample, which must have data.
-/
namespace OpenDDS.Guarantees.DataReaderSelection
open Library Library.AssociationList Source.ReaderCache Cache

variable {δ : Type} {c : Cache δ} {samples : Nat → List Nat} {masks : Masks}
  {run run' : Except Fault Bool} {P Q : Prop}

/-- A search comes to an end and says whether `P`. -/
def Answers (run : Except Fault Bool) (P : Prop) : Prop := ∃ b, run = .ok b ∧ (b = true ↔ P)

theorem answers_ok {b : Bool} (h : b = true ↔ P) : Answers (.ok b) P := ⟨b, rfl, h⟩

theorem Answers.congr (h : Answers run P) (hiff : P ↔ Q) : Answers run Q := by
  obtain ⟨b, hok, hb⟩ := h
  exact ⟨b, hok, hb.trans hiff⟩

theorem Answers.ok_true (h : Answers run P) : run = .ok true ↔ P := by
  obtain ⟨b, rfl, hb⟩ := h
  rw [← hb]
  constructor
  · intro hok
    exact Except.ok.inj hok
  · intro htrue
    rw [htrue]

theorem Answers.and (h : Answers run P) (h' : Answers run' Q) :
    Answers (do let found ← run; if found then run' else .ok false) (P ∧ Q) := by
  obtain ⟨b, rfl, hb⟩ := h
  cases b with
  | false =>
    apply answers_ok
    exact iff_of_false Bool.false_ne_true fun hpq => Bool.false_ne_true (hb.mpr hpq.1)
  | true =>
    obtain ⟨b', rfl, hb'⟩ := h'
    exact answers_ok ⟨fun htrue => ⟨hb.mp rfl, hb'.mp htrue⟩, fun hpq => hb'.mpr hpq.2⟩

variable {inst : SubscriptionInstance}

theorem items_eq (w : Wf c samples) {handle : Nat} (found : c.getHandleInstance handle = some inst) :
    c.items inst = .ok (samples handle) := by
  unfold items
  rw [(w.lists handle inst found).walk]

variable {holds : SubscriptionInstance → Except Fault Bool}

theorem anySubscription_answers {Holds : Nat → SubscriptionInstance → Prop} {handles : List Nat}
    (found : ∀ h ∈ handles, (c.getHandleInstance h).isSome)
    (spec : ∀ handle inst, c.getHandleInstance handle = some inst →
      Answers (holds inst) (Holds handle inst)) : Answers (c.anySubscription holds handles)
      (∃ handle ∈ handles, ∃ inst, c.getHandleInstance handle = some inst ∧ Holds handle inst) := by
  induction handles with
  | nil => exact answers_ok (by simp)
  | cons handle handles ih =>
    obtain ⟨inst, hinst⟩ := Option.isSome_iff_exists.mp (found handle List.mem_cons_self)
    obtain ⟨b, hok, hb⟩ := spec handle inst hinst
    have hrest := ih fun h hh => found h (List.mem_cons_of_mem _ hh)
    unfold anySubscription
    rw [deref_eq_ok hinst]
    dsimp only [bind, Except.bind]
    rw [hok]
    cases b with
    | true =>
      exact answers_ok (iff_of_true rfl ⟨handle, List.mem_cons_self, inst, hinst, hb.mp rfl⟩)
    | false =>
      obtain ⟨b', hok', hb'⟩ := hrest
      refine ⟨b', hok', hb'.trans ?_⟩
      constructor
      · rintro ⟨other, hin, rest⟩
        exact ⟨other, List.mem_cons_of_mem _ hin, rest⟩
      · rintro ⟨other, hin, inst', hinst', hholds⟩
        rcases List.mem_cons.mp hin with rfl | hin
        · cases hinst.symm.trans hinst'
          exact absurd (hb.mpr hholds) Bool.false_ne_true
        · exact ⟨other, hin, inst', hinst', hholds⟩

theorem mem_handlesInOrder {handle : Nat} (found : c.getHandleInstance handle = some inst) :
    handle ∈ c.handlesInOrder :=
  List.mem_mergeSort.mpr (List.mem_map_of_mem (mem_of_lookup found))

theorem search_answers (Holds : Nat → SubscriptionInstance → Prop)
    (spec : ∀ handle inst, c.getHandleInstance handle = some inst →
      Answers (holds inst) (Holds handle inst)) : Answers (c.anySubscription holds c.handlesInOrder)
      (∃ handle inst, c.getHandleInstance handle = some inst ∧ Holds handle inst) := by
  refine (anySubscription_answers ReadAccess.handlesInOrder_found spec).congr ?_
  constructor
  · rintro ⟨handle, -, inst, hinst, hholds⟩
    exact ⟨handle, inst, hinst, hholds⟩
  · rintro ⟨handle, inst, hinst, hholds⟩
    exact ⟨handle, mem_handlesInOrder hinst, inst, hinst, hholds⟩

def SampleStateMet (c : Cache δ) (samples : Nat → List Nat) (sampleStates : Nat) : Prop :=
  ∃ handle inst, c.getHandleInstance handle = some inst ∧
    ∃ a ∈ samples handle, (c.element a).sampleState.bits &&& sampleStates ≠ 0

def ViewStateMet (c : Cache δ) (viewStates : Nat) : Prop :=
  ∃ handle inst, c.getHandleInstance handle = some inst ∧
    inst.instanceState.viewState.bits &&& viewStates ≠ 0

def InstanceStateMet (c : Cache δ) (instanceStates : Nat) : Prop :=
  ∃ handle inst, c.getHandleInstance handle = some inst ∧
    inst.instanceState.instanceState.bits &&& instanceStates ≠ 0

/-- A sample that is not pending meets all masks. -/
def Readable (c : Cache δ) (samples : Nat → List Nat) (masks : Masks) (a : Nat) : Prop :=
  ∃ handle inst, c.getHandleInstance handle = some inst ∧
    masks.admitsInstance inst.instanceState = true ∧ a ∈ samples handle ∧
    masks.admitsSample (c.element a) = true

theorem containsSample_answers (w : Wf c samples) (masks : Masks) :
    Answers (c.containsSample masks) (∃ a, Readable c samples masks a) := by
  have hsearch : Answers (c.containsSample masks) (∃ handle inst,
      c.getHandleInstance handle = some inst ∧ masks.admitsInstance inst.instanceState = true ∧
        ∃ a ∈ samples handle, masks.admitsSample (c.element a) = true) := by
    apply search_answers
    intro handle inst hinst
    by_cases hadmits : masks.admitsInstance inst.instanceState = true
    · rw [if_pos hadmits, items_eq w hinst]
      exact answers_ok (by simp [hadmits])
    · rw [if_neg hadmits]
      exact answers_ok (by simp [hadmits])
  apply hsearch.congr
  constructor
  · rintro ⟨handle, inst, hinst, hadmits, a, ha, hsample⟩
    exact ⟨a, handle, inst, hinst, hadmits, ha, hsample⟩
  · rintro ⟨a, handle, inst, hinst, hadmits, ha, hsample⟩
    exact ⟨handle, inst, hinst, hadmits, a, ha, hsample⟩

theorem haveStates_answers (w : Wf c samples) (masks : Masks) :
    Answers (c.haveStates masks) (SampleStateMet c samples masks.sampleStates ∧
      ViewStateMet c masks.viewStates ∧ InstanceStateMet c masks.instanceStates) := by
  have hsample : Answers (c.haveSampleStates masks.sampleStates)
      (SampleStateMet c samples masks.sampleStates) := by
    apply search_answers
    intro handle inst hinst
    rw [items_eq w hinst]
    exact answers_ok (by simp)
  have hview : Answers (c.haveViewStates masks.viewStates) (ViewStateMet c masks.viewStates) := by
    apply search_answers
    intro handle inst hinst
    exact answers_ok decide_eq_true_iff
  have hinstance : Answers (c.haveInstanceStates masks.instanceStates)
      (InstanceStateMet c masks.instanceStates) := by
    apply search_answers
    intro handle inst hinst
    exact answers_ok decide_eq_true_iff
  exact hsample.and (hview.and hinstance)

theorem insertGroupSample_perm (sorted : List GroupSample) (sample : GroupSample) :
    (insertGroupSample sorted sample).Perm (sample :: sorted) := by
  refine List.perm_middle.trans ?_
  rw [List.takeWhile_append_dropWhile]

theorem insertGroupSamples_perm (sorted found : List GroupSample) :
    (found.foldl insertGroupSample sorted).Perm (sorted ++ found) := by
  induction found generalizing sorted with
  | nil => rw [List.append_nil]; exact List.Perm.refl sorted
  | cons sample found ih =>
    refine (ih (insertGroupSample sorted sample)).trans ?_
    refine ((insertGroupSample_perm sorted sample).append_right found).trans ?_
    exact List.perm_middle.symm

/-- An instance has a readable sample with data. -/
def Lists (c : Cache δ) (samples : Nat → List Nat) (masks : Masks) (handle : Nat) : Prop :=
  ∃ inst, c.getHandleInstance handle = some inst ∧
    masks.admitsInstance inst.instanceState = true ∧ ∃ a ∈ samples handle,
      masks.admitsSample (c.element a) = true ∧ (c.element a).registeredData.isSome = true

theorem mem_groupSamples {reader other : Nat} {items : List Nat} :
    other ∈ (c.groupSamples masks reader items).map GroupSample.dataReader ↔
      other = reader ∧ ∃ a ∈ items, masks.admitsSample (c.element a) = true ∧
        (c.element a).registeredData.isSome = true := by
  unfold groupSamples
  simp only [List.map_map, List.mem_map, List.mem_filter, Function.comp_apply, Bool.and_eq_true]
  constructor
  · rintro ⟨a, ⟨ha, hsample⟩, rfl⟩
    exact ⟨rfl, a, ha, hsample⟩
  · rintro ⟨rfl, a, ha, hsample⟩
    exact ⟨a, ⟨ha, hsample⟩, rfl⟩

theorem mem_insertGroupSamples {other : Nat} (sorted found : List GroupSample) :
    other ∈ (found.foldl insertGroupSample sorted).map GroupSample.dataReader ↔
      other ∈ sorted.map GroupSample.dataReader ∨ other ∈ found.map GroupSample.dataReader := by
  rw [((insertGroupSamples_perm sorted found).map _).mem_iff, List.map_append, List.mem_append]

theorem getOrderedData_mem (w : Wf c samples) (masks : Masks) (reader : Nat)
    (data : List GroupSample) :
    ∃ data', c.getOrderedData masks reader data = .ok data' ∧
      ∀ other, other ∈ data'.map GroupSample.dataReader ↔
        other ∈ data.map GroupSample.dataReader ∨
          other = reader ∧ ∃ handle, Lists c samples masks handle := by
  have hloop : ∃ data', c.getOrderedData masks reader data = .ok data' ∧
      ∀ other, other ∈ data'.map GroupSample.dataReader ↔
        other ∈ data.map GroupSample.dataReader ∨
          other = reader ∧ ∃ handle ∈ c.handlesInOrder, Lists c samples masks handle := by
    apply Folds.foldlM_total (fun done (data' : List GroupSample) => ∀ other,
      other ∈ data'.map GroupSample.dataReader ↔ other ∈ data.map GroupSample.dataReader ∨
        other = reader ∧ ∃ handle ∈ done, Lists c samples masks handle)
    · simp
    · intro done handle rest data' hsplit hdata
      have hin : handle ∈ c.handlesInOrder := by simp [hsplit]
      obtain ⟨inst, hinst⟩ :=
        Option.isSome_iff_exists.mp (ReadAccess.handlesInOrder_found handle hin)
      rw [deref_eq_ok hinst]
      dsimp only [bind, Except.bind]
      by_cases hadmits : masks.admitsInstance inst.instanceState = true
      · rw [if_pos hadmits, items_eq w hinst]
        refine ⟨_, rfl, ?_⟩
        intro other
        rw [mem_insertGroupSamples, hdata, mem_groupSamples]
        simp only [List.mem_append, List.mem_singleton, or_and_right, exists_or, exists_eq_left,
          and_or_left, or_assoc]
        simp [Lists, hinst, hadmits]
      · rw [if_neg hadmits]
        refine ⟨_, rfl, ?_⟩
        intro other
        rw [hdata]
        simp [Lists, hinst, hadmits, or_and_right, exists_or]
  obtain ⟨data', hok, hdata⟩ := hloop
  refine ⟨data', hok, ?_⟩
  intro other
  rw [hdata]
  apply or_congr_right
  apply and_congr_right
  intro _
  constructor
  · rintro ⟨handle, -, hlists⟩
    exact ⟨handle, hlists⟩
  · rintro ⟨handle, inst, hinst, hlists⟩
    exact ⟨handle, mem_handlesInOrder hinst, inst, hinst, hlists⟩

/-- The caches of all readers are in order. -/
def Sound (sub : Subscriber δ) (samples : Nat → Nat → List Nat) : Prop :=
  ∀ reader ∈ sub.datareaderSet, Wf reader.2 (samples reader.1)

/-- What a reader must meet to be returned. -/
def Selected (sub : Subscriber δ) (masks : Masks) (c : Cache δ) (samples : Nat → List Nat) : Prop :=
  if sub.ordered then ∃ handle, Lists c samples masks handle
  else SampleStateMet c samples masks.sampleStates ∧ ViewStateMet c masks.viewStates ∧
    InstanceStateMet c masks.instanceStates

/-- The masks are not met piecemeal: where each of them is met in a reader, one sample that is not
pending meets them all. Where the samples are listed, it is one with data if there is any. -/
def Aligned (sub : Subscriber δ) (masks : Masks) (c : Cache δ) (samples : Nat → List Nat) : Prop :=
  if sub.ordered then
    ∀ a, Readable c samples masks a → ∃ b, Readable c samples masks b ∧
      (c.element b).registeredData.isSome = true
  else SampleStateMet c samples masks.sampleStates → ViewStateMet c masks.viewStates →
    InstanceStateMet c masks.instanceStates → ∃ a, Readable c samples masks a

theorem lists_iff : (∃ handle, Lists c samples masks handle) ↔
    ∃ a, Readable c samples masks a ∧ (c.element a).registeredData.isSome = true := by
  constructor
  · rintro ⟨handle, inst, hinst, hadmits, a, ha, hsample, hdata⟩
    exact ⟨a, ⟨handle, inst, hinst, hadmits, ha, hsample⟩, hdata⟩
  · rintro ⟨a, ⟨handle, inst, hinst, hadmits, ha, hsample⟩, hdata⟩
    exact ⟨handle, inst, hinst, hadmits, a, ha, hsample, hdata⟩

theorem Readable.met {a : Nat} (h : Readable c samples masks a) :
    SampleStateMet c samples masks.sampleStates ∧ ViewStateMet c masks.viewStates ∧
      InstanceStateMet c masks.instanceStates := by
  obtain ⟨handle, inst, hinst, hadmits, ha, hsample⟩ := h
  simp only [Masks.admitsInstance, Masks.admitsSample, Bool.and_eq_true, decide_eq_true_eq]
    at hadmits hsample
  exact ⟨⟨handle, inst, hinst, a, ha, hsample.1⟩, ⟨handle, inst, hinst, hadmits.1⟩,
    ⟨handle, inst, hinst, hadmits.2⟩⟩

theorem selected_iff_aligned (sub : Subscriber δ) :
    (Selected sub masks c samples ↔ ∃ a, Readable c samples masks a) ↔
      Aligned sub masks c samples := by
  unfold Selected Aligned
  by_cases hordered : sub.ordered = true
  · rw [if_pos hordered, if_pos hordered, lists_iff]
    constructor
    · intro h a ha
      exact h.mpr ⟨a, ha⟩
    · intro h
      constructor
      · rintro ⟨a, ha, -⟩
        exact ⟨a, ha⟩
      · rintro ⟨a, ha⟩
        exact h a ha
  · rw [if_neg hordered, if_neg hordered]
    constructor
    · intro h hsample hview hinstance
      exact h.mp ⟨hsample, hview, hinstance⟩
    · intro h
      constructor
      · rintro ⟨hsample, hview, hinstance⟩
        exact h hsample hview hinstance
      · rintro ⟨a, ha⟩
        exact ha.met

/-- Exactly the readers of `done` that `Meets` are among `readers`. -/
def Among (Meets : Nat × Cache δ → Prop) (done : List (Nat × Cache δ)) (readers : List Nat) : Prop :=
  ∀ other, other ∈ readers ↔ ∃ reader ∈ done, other = reader.1 ∧ Meets reader

variable {sub : Subscriber δ}

theorem orderedReaders_among {samples : Nat → Nat → List Nat} (sound : Sound sub samples)
    (masks : Masks) : ∃ data, sub.datareaderSet.foldlM
        (fun data reader => reader.2.getOrderedData masks reader.1 data) [] = .ok data ∧
      Among (fun reader => ∃ handle, Lists reader.2 (samples reader.1) masks handle)
        sub.datareaderSet (data.map GroupSample.dataReader) := by
  apply Folds.foldlM_total (fun done (data : List GroupSample) =>
    Among (fun reader => ∃ handle, Lists reader.2 (samples reader.1) masks handle) done
      (data.map GroupSample.dataReader))
  · simp [Among]
  · intro done reader rest data hsplit hdata
    have hin : reader ∈ sub.datareaderSet := by simp [hsplit]
    obtain ⟨data', hok, hdata'⟩ := getOrderedData_mem (sound reader hin) masks reader.1 data
    refine ⟨data', hok, ?_⟩
    intro other
    rw [hdata', hdata]
    simp [or_and_right, exists_or]

theorem setReaders_among {samples : Nat → Nat → List Nat} (sound : Sound sub samples)
    (masks : Masks) : ∃ readers, sub.datareaderSet.foldlM (fun readers reader => do
        let found ← reader.2.haveStates masks
        .ok (if found then readers ++ [reader.1] else readers)) [] = .ok readers ∧
      Among (fun reader => SampleStateMet reader.2 (samples reader.1) masks.sampleStates ∧
        ViewStateMet reader.2 masks.viewStates ∧ InstanceStateMet reader.2 masks.instanceStates)
        sub.datareaderSet readers := by
  apply Folds.foldlM_total (fun done (readers : List Nat) =>
    Among (fun reader => SampleStateMet reader.2 (samples reader.1) masks.sampleStates ∧
      ViewStateMet reader.2 masks.viewStates ∧ InstanceStateMet reader.2 masks.instanceStates)
      done readers)
  · simp [Among]
  · intro done reader rest readers hsplit hreaders
    have hin : reader ∈ sub.datareaderSet := by simp [hsplit]
    obtain ⟨b, hok, hb⟩ := haveStates_answers (sound reader hin) masks
    rw [hok]
    refine ⟨_, rfl, ?_⟩
    intro other
    cases b with
    | false =>
      rw [if_neg Bool.false_ne_true, hreaders]
      simp [← hb, or_and_right, exists_or]
    | true =>
      rw [if_pos rfl, List.mem_append, hreaders]
      simp [← hb, or_and_right, exists_or]

theorem getDatareaders_spec {samples : Nat → Nat → List Nat} (sound : Sound sub samples)
    (masks : Masks) (granted : sub.refuses = false) :
    ∃ readers, sub.getDatareaders masks = .ok (.ok, readers) ∧
      Among (fun reader => Selected sub masks reader.2 (samples reader.1)) sub.datareaderSet
        readers := by
  unfold Subscriber.getDatareaders Selected
  rw [if_neg (by simp [granted])]
  by_cases hordered : sub.ordered = true
  · obtain ⟨data, hok, hdata⟩ := orderedReaders_among sound masks
    rw [if_pos hordered, hok]
    simp only [if_pos hordered]
    exact ⟨_, rfl, hdata⟩
  · obtain ⟨readers, hok, hreaders⟩ := setReaders_among sound masks
    rw [if_neg hordered, hok]
    simp only [if_neg hordered]
    exact ⟨readers, rfl, hreaders⟩

/-- The readers returned are those that contain a sample, which are those that hold a sample that
meets all masks. -/
def Agrees (sub : Subscriber δ) (samples : Nat → Nat → List Nat) (masks : Masks) : Prop :=
  ∃ readers, sub.getDatareaders masks = .ok (.ok, readers) ∧
    (∀ other ∈ readers, other ∈ sub.datareaderSet.map Prod.fst) ∧
    ∀ reader ∈ sub.datareaderSet,
      (reader.1 ∈ readers ↔ reader.2.containsSample masks = .ok true) ∧
      (reader.1 ∈ readers ↔ ∃ a, Readable reader.2 (samples reader.1) masks a)

/-- The selection agrees with the search if and only if no reader meets the masks piecemeal. -/
theorem datareaders_agree_iff (sub : Subscriber δ) (samples : Nat → Nat → List Nat)
    (sound : Sound sub samples) (masks : Masks) (granted : sub.refuses = false) :
    Agrees sub samples masks ↔
      ∀ reader ∈ sub.datareaderSet, Aligned sub masks reader.2 (samples reader.1) := by
  obtain ⟨readers, hok, hreaders⟩ := getDatareaders_spec sound masks granted
  have hreturned : ∀ reader ∈ sub.datareaderSet,
      reader.1 ∈ readers ↔ Selected sub masks reader.2 (samples reader.1) := by
    intro reader hin
    rw [hreaders reader.1]
    constructor
    · rintro ⟨other, hother, heq, hselected⟩
      cases List.inj_on_of_nodup_map sub.distinct hin hother heq
      exact hselected
    · intro hselected
      exact ⟨reader, hin, rfl, hselected⟩
  constructor
  · rintro ⟨readers', hok', -, hagrees⟩ reader hin
    cases hok.symm.trans hok'
    rw [← selected_iff_aligned, ← hreturned reader hin]
    exact (hagrees reader hin).2
  · intro haligned
    refine ⟨readers, hok, ?_, ?_⟩
    · intro other hother
      obtain ⟨reader, hin, rfl, -⟩ := (hreaders other).mp hother
      exact List.mem_map_of_mem hin
    · intro reader hin
      have hreadable : reader.1 ∈ readers ↔ ∃ a, Readable reader.2 (samples reader.1) masks a :=
        (hreturned reader hin).trans (selected_iff_aligned sub |>.mpr (haligned reader hin))
      exact ⟨hreadable.trans (containsSample_answers (sound reader hin) masks).ok_true.symm,
        hreadable⟩

open SampleRanks (Happens keepTwo nothing sampleAt anySample anyState)

/-- What a reader has after a sample that was read, and then one of another instance. -/
def firstReceived : Cache Nat :=
  (nothing.dataReceived keepTwo (sampleAt 10)).toOption.getD nothing

def firstRead : Cache Nat :=
  ((firstReceived.readI anySample anyState).toOption.map Prod.snd).getD nothing

def secondKey : Message Nat := { sampleAt 11 with key := 2 }

def twoInstances : Cache Nat := (firstRead.dataReceived keepTwo secondKey).toOption.getD nothing

theorem twoInstances_run : ∃ events, Run nothing (Happens keepTwo) events twoInstances := by
  have hreceived : Run nothing (Happens keepTwo) [.received (sampleAt 10)] firstReceived :=
    .next .start ⟨⟨rfl, rfl, rfl, by decide⟩, rfl⟩
  have hread : Run nothing (Happens keepTwo)
      [.received (sampleAt 10), .accessed .read anySample anyState [10]] firstRead :=
    hreceived.next ⟨by decide, by decide, _, rfl⟩
  have hsecond : Happens keepTwo firstRead (.received secondKey) twoInstances :=
    ⟨⟨rfl, rfl, rfl, by decide⟩, rfl⟩
  exact ⟨_, hread.next hsecond⟩

theorem twoInstances_wf : ∃ samples, Wf twoInstances samples := by
  obtain ⟨events, hrun⟩ := twoInstances_run
  obtain ⟨samples, w, -⟩ := SampleRanks.run_grown rfl SampleRanks.nothing_blank hrun
  exact ⟨samples, w⟩

def oneReader : Subscriber Nat where
  presentation := ⟨false, false, false⟩
  accessDepth := 0
  datareaderSet := [(5, twoInstances)]
  distinct := List.nodup_singleton 5

/-- Samples that were not read of instances that were seen before. -/
def unreadSeen : Masks := ⟨2, 2, 0xffff⟩

theorem oneReader_sound (w : Wf twoInstances samples) : Sound oneReader fun _ => samples := by
  intro reader hin
  rw [List.mem_singleton.mp hin]
  exact w

theorem twoInstances_handles : twoInstances.handlesInOrder = [10, 11] := by
  apply List.mergeSort_of_pairwise
  decide

/-- Samples that were not read of new instances. -/
def unreadNew : Masks := ⟨2, 1, 0xffff⟩

theorem datareaders_agree_iff_one : ∃ samples, Agrees oneReader samples unreadNew ∧
    (Agrees oneReader samples unreadSeen ↔ ∀ reader ∈ oneReader.datareaderSet,
      Aligned oneReader unreadSeen reader.2 (samples reader.1)) := by
  obtain ⟨samples, w⟩ := twoInstances_wf
  have hcontains : twoInstances.containsSample unreadNew = .ok true := by
    unfold containsSample
    rw [twoInstances_handles]
    decide +kernel
  have hreadable := (containsSample_answers w unreadNew).ok_true.mp hcontains
  refine ⟨fun _ => samples, ?_, datareaders_agree_iff oneReader _ (oneReader_sound w) unreadSeen rfl⟩
  apply (datareaders_agree_iff oneReader _ (oneReader_sound w) unreadNew rfl).mpr
  intro reader hin _ _ _
  rw [List.mem_singleton.mp hin]
  exact hreadable

/-- A read sample of an instance that was seen and an unread one of a new instance: the reader is
returned, and there is nothing to read. -/
theorem piecemeal_selected : ∃ (sub : Subscriber Nat) (samples : Nat → Nat → List Nat)
    (masks : Masks), Sound sub samples ∧ sub.presentation.group = false ∧
      sub.getDatareaders masks = .ok (.ok, [5]) ∧
      (∀ reader ∈ sub.datareaderSet, reader.2.containsSample masks = .ok false) ∧
      ¬ Agrees sub samples masks := by
  obtain ⟨samples, w⟩ := twoInstances_wf
  have hstates : twoInstances.haveStates unreadSeen = .ok true := by
    unfold haveStates haveSampleStates haveViewStates haveInstanceStates
    rw [twoInstances_handles]
    decide +kernel
  have hcontains : twoInstances.containsSample unreadSeen = .ok false := by
    unfold containsSample
    rw [twoInstances_handles]
    decide +kernel
  have hselected : oneReader.getDatareaders unreadSeen = .ok (.ok, [5]) := by
    unfold Subscriber.getDatareaders oneReader
    rw [if_neg (by decide), if_neg (by decide), List.foldlM_cons, hstates]
    rfl
  refine ⟨oneReader, fun _ => samples, unreadSeen, oneReader_sound w, rfl, hselected, ?_, ?_⟩
  · intro reader hin
    rw [List.mem_singleton.mp hin]
    exact hcontains
  · rintro ⟨readers, hok, -, hagrees⟩
    cases hselected.symm.trans hok
    have htrue := (hagrees (5, twoInstances) List.mem_cons_self).1.mp List.mem_cons_self
    exact absurd (hcontains.symm.trans htrue) (by decide)

end OpenDDS.Guarantees.DataReaderSelection
