import OpenDDS.Source.NextSample

/-!
# One sample alone

What a read or take of one sample copies and leaves, with and without a loan, and that
`read_next_sample` and `take_next_sample` leave the same.
-/
namespace OpenDDS.Source.ReaderCache
open Library.LinkedList Cache

variable {δ : Type} {c : Cache δ} {samples : Nat → List Nat} {oper : Operation}
  {handle a : Nat} {inst : SubscriptionInstance}

def soleRequest (zeroCopy : Bool) : Request δ := ⟨1, false, none, zeroCopy⟩

theorem gather_first (zeroCopy : Bool) (w : Wf c samples) {handles : List Nat}
    (found : ∀ h ∈ handles, (c.getHandleInstance h).isSome) :
    ∃ results, c.gather (soleRequest zeroCopy) notReadSamples handles = .ok results ∧
      (chosen (soleRequest (δ := δ) zeroCopy) results).map (fun rd => (rd.si, rd.rde)) =
        (seen c notReadSamples handles).take 1 := by
  have htotal : FilterTotal c (soleRequest zeroCopy) notReadSamples handles := by
    intro _ _ _ _ hfilter
    cases hfilter
  refine ⟨_, gather_eq w found htotal, ?_⟩
  rw [chosen_collected]
  have hselects : c.selects (soleRequest zeroCopy) = fun _ => true := by
    funext rd
    cases (c.element rd.rde).registeredData <;> rfl
  unfold matching inOrder
  rw [hselects, List.filter_true, List.map_take]
  congr 1
  show (handles.flatMap (c.numbered notReadSamples)).map _ = _
  rw [List.map_flatMap]
  congr 1
  funext handle
  have hnumbers : ∀ list : List Nat, ((list.zipIdx 1).map fun n => (handle, n.1)) =
      list.map (Prod.mk handle) := by
    intro list
    conv => rhs; rw [← List.zipIdx_map_fst 1 list, List.map_map]
    rfl
  unfold numbered
  rw [List.map_map]
  exact hnumbers _

def soleInfo (state : InstanceState) (item mrs : ReceivedDataElement δ) : SampleInfo :=
  { ReaderCache.sampleInfo state item with
    sampleRank := 0
    generationRank := toLong item.disposedGenerationCount + toLong item.noWritersGenerationCount -
      toLong (item.disposedGenerationCount + item.noWritersGenerationCount)
    absoluteGenerationRank :=
      toLong mrs.disposedGenerationCount + toLong mrs.noWritersGenerationCount -
        toLong (item.disposedGenerationCount + item.noWritersGenerationCount) }

/-- The sequences with one sample. -/
def soleOutput (zeroCopy : Bool) (a : Nat) (state : InstanceState)
    (item mrs : ReceivedDataElement δ) : Output δ :=
  ⟨[if zeroCopy then .loaned a else .copied item.registeredData], [soleInfo state item mrs]⟩

theorem record_output (zeroCopy : Bool) (state : InstanceState) (item mrs : ReceivedDataElement δ)
    (rd : RakeData) :
    (Rake.start.record zeroCopy state item rd (.start mrs)).output =
      soleOutput zeroCopy rd.rde state item mrs := by
  have hindex : rd.indexInInstance ≥ 0 := Nat.zero_le _
  have hrank : ((InstanceData.start mrs).note state item rd.indexInInstance 0).rank
      [ReaderCache.sampleInfo state item] = [soleInfo state item mrs] := by
    unfold InstanceData.rank soleInfo
    rw [List.mapIdx_cons, List.mapIdx_nil]
    unfold InstanceData.note InstanceData.start
    simp only [if_pos hindex, List.nil_append, List.mem_singleton, if_true, List.idxOf_cons_self,
      List.length_singleton, ReaderCache.sampleInfo]
    have hzero : ((1 : Nat) : Int) - 1 - ((0 : Nat) : Int) = 0 := rfl
    rw [hzero]
  unfold soleOutput
  rw [← hrank]
  rfl

theorem copyInto_single {rd : RakeData} {mrs : Nat} {rest : List Nat × Cache δ} (zeroCopy : Bool)
    (live : 0 < c.refCount rd.rde) (found : c.getHandleInstance rd.si = some inst)
    (tail : inst.rcvdSamples.tail = some mrs)
    (rested : (c.markRead zeroCopy rd.rde).takeSample oper [] rd = .ok rest) :
    c.copyInto oper zeroCopy [rd] = (if rd.si ∈ rest.1 then .ok rest.2 else
      rest.2.accessRecent (mostRecentGeneration inst.instanceState (c.element rd.rde)) rd.si).map
        fun accessed => (soleOutput zeroCopy rd.rde inst.instanceState (c.element rd.rde)
          (c.element mrs), accessed) := by
  have hlive : ¬ c.refCount rd.rde = 0 := by omega
  have hdata : c.instanceData inst (Rake.start (δ := δ).instMap.lookup rd.si) =
      .ok (.start (c.element mrs)) := by
    unfold instanceData
    rw [tail]
    rfl
  have hcopy : Copying.copyOne oper zeroCopy ⟨.start, [], c⟩ rd =
      .ok ⟨Rake.start.record zeroCopy inst.instanceState (c.element rd.rde) rd
        (.start (c.element mrs)), rest.1, rest.2⟩ := by
    unfold Copying.copyOne
    rw [if_neg hlive, deref_eq_ok found]
    dsimp only [bind, Except.bind]
    rw [hdata]
    rw [rested]
  have haccess : ∀ id : InstanceData, id.mostRecentGeneration =
      mostRecentGeneration inst.instanceState (c.element rd.rde) →
      [(rd.si, id)].foldlM (fun c entry => c.access rest.1 entry) rest.2 =
        if rd.si ∈ rest.1 then .ok rest.2 else rest.2.accessRecent
          (mostRecentGeneration inst.instanceState (c.element rd.rde)) rd.si := by
    intro id hid
    rw [← hid, List.foldlM_cons]
    show (rest.2.access rest.1 (rd.si, id) >>= pure) = _
    rw [bind_pure]
    rfl
  unfold copyInto
  rw [List.foldlM_cons, hcopy]
  show ((Rake.start.record zeroCopy inst.instanceState (c.element rd.rde) rd
    (.start (c.element mrs))).instMap.foldlM (fun c entry => c.access rest.1 entry) rest.2 >>=
      fun accessed => _) = _
  rw [record_output, Rake.record, Rake.start, List.filter_nil, haccess]
  · cases (if rd.si ∈ rest.1 then Except.ok rest.2 else rest.2.accessRecent _ rd.si) with
    | error fault => rfl
    | ok accessed => rfl
  · exact Bool.false_or _

def soleCopy (c : Cache δ) (oper : Operation) (zeroCopy mrg : Bool) (handle a : Nat) :
    Except Fault (Cache δ) :=
  match oper with
  | .read => (c.markRead zeroCopy a).accessRecent mrg handle
  | .take => do
    let removed ← (c.markRead zeroCopy a).removeSample handle a
    if removed.1 then .ok (removed.2.decRefDataElement a)
    else (removed.2.decRefDataElement a).accessRecent mrg handle

theorem copyInto_sole {rd : RakeData} {mrs : Nat} (zeroCopy : Bool) (w : Wf c samples)
    (own : rd.rde ∈ samples rd.si) (found : c.getHandleInstance rd.si = some inst)
    (tail : inst.rcvdSamples.tail = some mrs) :
    c.copyInto oper zeroCopy [rd] =
      (soleCopy c oper zeroCopy (mostRecentGeneration inst.instanceState (c.element rd.rde)) rd.si
        rd.rde).map fun accessed => (soleOutput zeroCopy rd.rde inst.instanceState
          (c.element rd.rde) (c.element mrs), accessed) := by
  have hlive := w.live rd.si rd.rde own
  cases oper with
  | read =>
    rw [copyInto_single zeroCopy hlive found tail rfl, if_neg List.not_mem_nil]
    rfl
  | take =>
    have hfound : (c.markRead zeroCopy rd.rde).getHandleInstance rd.si = some inst := found
    obtain ⟨released, c', hremove, -⟩ :=
      removeSample_spec (w.markRead zeroCopy rd.rde) hfound own
    have hrested : (c.markRead zeroCopy rd.rde).takeSample .take [] rd =
        .ok (if released then [rd.si] else [], c'.decRefDataElement rd.rde) := by
      unfold takeSample
      rw [hremove]
      rfl
    rw [copyInto_single zeroCopy hlive found tail hrested]
    unfold soleCopy
    rw [hremove]
    cases released with
    | true =>
      rw [if_pos rfl, if_pos (List.mem_singleton_self rd.si)]
      rfl
    | false =>
      rfl

/-- One more reference to a sample. -/
def lend (c : Cache δ) (a : Nat) : Cache δ :=
  { c with refCount := Function.update c.refCount a (c.refCount a + 1) }

theorem accessRecent_lend (mrg : Bool) (handle a : Nat) :
    (lend c a).accessRecent mrg handle = (c.accessRecent mrg handle).map (lend · a) := by
  have hderef : (lend c a).deref handle = c.deref handle := rfl
  unfold accessRecent
  rw [hderef]
  cases mrg with
  | false => rfl
  | true =>
    cases c.deref handle with
    | error fault => rfl
    | ok inst => rfl

theorem removed_lend (handle a : Nat) (inst : SubscriptionInstance)
    (result : Bool × SampleLinks × Header Nat) :
    (lend c a).removed handle inst result =
      ((c.removed handle inst result).1, lend (c.removed handle inst result).2 a) := by
  unfold removed
  split
  · dsimp only
    split <;> rfl
  · rfl

theorem removeSample_lend (handle a item : Nat) :
    (lend c a).removeSample handle item =
      (c.removeSample handle item).map fun removed => (removed.1, lend removed.2 a) := by
  have hderef : (lend c a).deref handle = c.deref handle := rfl
  have hlinks : (lend c a).links = c.links := rfl
  unfold removeSample
  rw [hderef, hlinks]
  cases c.deref handle with
  | error fault => rfl
  | ok inst =>
    dsimp only [bind, Except.bind]
    cases ReceivedDataElementList.remove c.links inst.rcvdSamples item with
    | none => rfl
    | some result => exact congrArg Except.ok (removed_lend handle a inst result)

theorem decRef_lend (live : 0 < c.refCount a) :
    (lend c a).decRefDataElement a = lend (c.decRefDataElement a) a := by
  have hback : c.refCount a - 1 + 1 = c.refCount a := by omega
  unfold decRefDataElement lend
  simp only [Function.update_self, Function.update_idem, hback, Nat.add_sub_cancel]

theorem removed_refCount (handle : Nat) (inst : SubscriptionInstance)
    (result : Bool × SampleLinks × Header Nat) :
    (c.removed handle inst result).2.refCount = c.refCount := by
  unfold removed
  split
  · dsimp only
    split <;> rfl
  · rfl

theorem soleCopy_lend (zeroCopy mrg : Bool) (w : Wf c samples) (own : a ∈ samples handle) :
    soleCopy c oper zeroCopy mrg handle a = (soleCopy c oper false mrg handle a).map
      fun c' => if zeroCopy then lend c' a else c' := by
  cases zeroCopy with
  | false => cases hcopy : soleCopy c oper false mrg handle a <;> rfl
  | true =>
    have hmark : c.markRead true a = lend (c.markRead false a) a := rfl
    cases oper with
    | read =>
      unfold soleCopy
      rw [hmark, accessRecent_lend]
      rfl
    | take =>
      have hlive : 0 < (c.markRead false a).refCount a := w.live handle a own
      obtain ⟨inst, -, hinst, -⟩ := w.owner own
      have hfound : (c.markRead false a).getHandleInstance handle = some inst := hinst
      obtain ⟨links, list, -, -, hremove⟩ := removeSample_eq (w.markRead false a) hfound own
      have hrefs := removed_refCount (c := c.markRead false a) handle inst
        (decide ((samples handle).erase a = []), links, list)
      unfold soleCopy
      rw [hmark, removeSample_lend, hremove]
      generalize (c.markRead false a).removed handle inst _ = result at hrefs
      dsimp only [bind, Except.bind, Except.map]
      rw [decRef_lend (hrefs ▸ hlive), accessRecent_lend]
      cases result.1 with
      | true => rfl
      | false => rfl

def foundNext (c : Cache δ) (receivedData : δ) (state : InstanceState) (a mrs : Nat)
    (accessed : Cache δ) : Next δ :=
  ⟨.ok, (c.element a).registeredData.getD receivedData,
    some ((ReaderCache.sampleInfo state (c.element a)).withRanks (c.element mrs)), accessed⟩

theorem accessRecent_tail {mrg : Bool} {c' : Cache δ} {mrs : Nat}
    (found : c.getHandleInstance handle = some inst) (tail : inst.rcvdSamples.tail = some mrs)
    (accessed : c.accessRecent mrg handle = .ok c') (info : SampleInfo) :
    c'.tailRanks handle info = .ok (info.withRanks (c.element mrs)) := by
  unfold accessRecent at accessed
  rw [deref_eq_ok found] at accessed
  unfold tailRanks
  cases mrg with
  | false =>
    cases accessed
    rw [deref_eq_ok found]
    dsimp only [bind, Except.bind]
    rw [tail]
  | true =>
    cases accessed
    rw [deref_eq_ok (found_setInstance c.links _ found)]
    dsimp only [bind, Except.bind]
    rw [tail]
    rfl

theorem withRanks_markRead (info : SampleInfo) (zeroCopy : Bool) (a b : Nat) :
    info.withRanks ((c.markRead zeroCopy a).element b) = info.withRanks (c.element b) := by
  have hcounts : ((c.markRead zeroCopy a).element b).disposedGenerationCount =
        (c.element b).disposedGenerationCount ∧
      ((c.markRead zeroCopy a).element b).noWritersGenerationCount =
        (c.element b).noWritersGenerationCount := by
    unfold markRead
    dsimp only
    by_cases hb : b = a
    · rw [hb, Function.update_self]
      exact ⟨rfl, rfl⟩
    · rw [Function.update_of_ne hb]
      exact ⟨rfl, rfl⟩
  unfold SampleInfo.withRanks
  rw [hcounts.1, hcounts.2]

theorem readFound_eq {mrs : Nat} (receivedData : δ) (found : c.getHandleInstance handle = some inst)
    (tail : inst.rcvdSamples.tail = some mrs) :
    c.readFound receivedData handle a = (soleCopy c .read false
      (mostRecentGeneration inst.instanceState (c.element a)) handle a).map
        (foundNext c receivedData inst.instanceState a mrs) := by
  unfold readFound soleCopy
  rw [deref_eq_ok found]
  dsimp only [bind, Except.bind]
  cases haccess : (c.markRead false a).accessRecent
      (mostRecentGeneration inst.instanceState (c.element a)) handle with
  | error fault => rfl
  | ok c' =>
    dsimp only
    rw [accessRecent_tail (c := c.markRead false a) found tail haccess, withRanks_markRead]
    rfl

theorem setInstance_setInstance (c : Cache δ) (handle : Nat) (inst inst' : SubscriptionInstance) :
    (c.setInstance handle inst).setInstance handle inst' = c.setInstance handle inst' := by
  unfold setInstance
  rw [List.map_map]
  congr 1
  apply List.map_congr_left
  intro entry _
  by_cases h : entry.1 = handle
  · rw [Function.comp_apply, if_pos h, if_pos h, if_pos rfl]
  · rw [Function.comp_apply, if_neg h, if_neg h]

theorem release_setInstance (c : Cache δ) (handle : Nat) (inst : SubscriptionInstance) :
    (c.setInstance handle inst).release handle = c.release handle := by
  unfold setInstance release
  congr 1
  induction c.instances with
  | nil => rfl
  | cons entry rest ih =>
    rw [List.map_cons]
    by_cases h : entry.1 = handle
    · rw [if_pos h, List.filter_cons_of_neg (by simp), List.filter_cons_of_neg (by simp [h]), ih]
    · rw [if_neg h, List.filter_cons_of_pos (by simp [h]), ih,
        List.filter_cons_of_pos (by simp [h])]

theorem accessRecent_decRef (mrg : Bool) (handle a : Nat) :
    (c.decRefDataElement a).accessRecent mrg handle =
      (c.accessRecent mrg handle).map (·.decRefDataElement a) := by
  have hderef : (c.decRefDataElement a).deref handle = c.deref handle := rfl
  unfold accessRecent
  rw [hderef]
  cases mrg with
  | false => rfl
  | true =>
    cases c.deref handle with
    | error fault => rfl
    | ok inst => rfl

/-- An instance that was accessed. -/
def recent (inst : SubscriptionInstance) : SubscriptionInstance :=
  { inst with instanceState := inst.instanceState.accessed }

theorem removed_recent {links : SampleLinks} {list : Header Nat} {told : Bool}
    (found : c.getHandleInstance handle = some inst) :
    .ok ((c.setInstance handle (recent inst)).removed handle (recent inst)
        (told, links, list)).2 =
      if (c.removed handle inst (told, links, list)).1 then
        .ok (c.removed handle inst (told, links, list)).2
      else (c.removed handle inst (told, links, list)).2.accessRecent true handle := by
  by_cases hreleases : Releases inst.instanceState told
  · have hreleases' : Releases (recent inst).instanceState told := hreleases
    rw [removed_released hreleases, removed_released hreleases']
    exact congrArg Except.ok (release_setInstance { c with links := links } handle _)
  · have hkept : ¬ Releases (recent inst).instanceState told := hreleases
    rw [removed_kept hreleases, removed_kept hkept]
    unfold accessRecent
    rw [deref_eq_ok (found_setInstance links _ found)]
    show _ = Except.ok _
    rw [setInstance_setInstance]
    exact congrArg Except.ok (setInstance_setInstance { c with links := links } handle _ _)

theorem removeSample_of (found : c.getHandleInstance handle = some inst)
    {result : Bool × SampleLinks × Header Nat}
    (removal : ReceivedDataElementList.remove c.links inst.rcvdSamples a = some result) :
    c.removeSample handle a = .ok (c.removed handle inst result) := by
  unfold removeSample
  rw [deref_eq_ok found]
  dsimp only [bind, Except.bind]
  rw [removal]

theorem soleCopy_take {mrg : Bool} {removed : Bool × Cache δ}
    (removal : (c.markRead false a).removeSample handle a = .ok removed) :
    soleCopy c .take false mrg handle a =
      (if removed.1 then .ok removed.2 else removed.2.accessRecent mrg handle).map
        (·.decRefDataElement a) := by
  unfold soleCopy
  rw [removal]
  dsimp only [bind, Except.bind]
  rw [accessRecent_decRef]
  cases removed.1 with
  | true => rfl
  | false => rfl

section

variable (receivedData : δ) (w : Wf c samples) (own : a ∈ samples handle)
  (found : c.getHandleInstance handle = some inst)
include w own found

theorem takeLast_eq (tail : inst.rcvdSamples.tail = some a) :
    c.takeFound receivedData handle a = (soleCopy c .take false
      (mostRecentGeneration inst.instanceState (c.element a)) handle a).map
        (foundNext c receivedData inst.instanceState a a) := by
  have hfound : (c.markRead false a).getHandleInstance handle = some inst := found
  obtain ⟨links, list, hremove, -, -⟩ := ReceivedDataElementList.remove_spec
    (w.lists handle inst found) (w.apart.nodup handle) own
  have hremoved := removeSample_of (c := c.markRead false a) hfound hremove
  rw [soleCopy_take hremoved]
  unfold takeFound foundNext
  rw [deref_eq_ok found]
  dsimp only [bind, Except.bind]
  rw [if_pos tail, ← withRanks_markRead _ false a a]
  cases mostRecentGeneration inst.instanceState (c.element a) with
  | false =>
    have hsame : (c.markRead false a).accessRecent false handle = .ok (c.markRead false a) := rfl
    rw [hsame]
    dsimp only
    rw [hremoved]
    cases ((c.markRead false a).removed handle inst _).1 with
    | true => rfl
    | false => rfl
  | true =>
    have haccess : (c.markRead false a).accessRecent true handle =
        .ok ((c.markRead false a).setInstance handle (recent inst)) := by
      unfold accessRecent
      rw [deref_eq_ok hfound]
      rfl
    have hrecent := removeSample_of
      (found_setInstance (c.markRead false a).links (recent inst) hfound) hremove
    rw [haccess, ← removed_recent hfound]
    dsimp only
    rw [hrecent]
    rfl

theorem takeEarlier_eq {mrs : Nat} (tail : inst.rcvdSamples.tail = some mrs) (earlier : mrs ≠ a) :
    c.takeFound receivedData handle a = (soleCopy c .take false
      (mostRecentGeneration inst.instanceState (c.element a)) handle a).map
        (foundNext c receivedData inst.instanceState a mrs) := by
  have hfound : (c.markRead false a).getHandleInstance handle = some inst := found
  have hlast : (samples handle).getLast? = some mrs := by
    rw [← (w.lists handle inst found).tail, tail]
  have herase : ((samples handle).erase a).getLast? = some mrs := by
    obtain ⟨front, hfront⟩ := List.getLast?_eq_some_iff.mp hlast
    have ha : a ∈ front := by
      have hin := own
      rw [hfront, List.mem_append, List.mem_singleton] at hin
      exact hin.resolve_right fun h => earlier h.symm
    rw [hfront, List.erase_append_left _ ha, List.getLast?_concat]
  obtain ⟨links, list, hlists, -, hremove⟩ := removeSample_eq (w.markRead false a) hfound own
  have hmore : ¬ Releases inst.instanceState (decide ((samples handle).erase a = [])) := by
    intro hreleases
    rw [of_decide_eq_true hreleases.1] at herase
    cases herase
  rw [removed_kept hmore] at hremove
  have htail : ¬ inst.rcvdSamples.tail = some a := by
    rw [tail]
    exact fun h => earlier (Option.some.inj h)
  unfold takeFound soleCopy
  rw [deref_eq_ok found]
  dsimp only [bind, Except.bind]
  rw [if_neg htail, hremove]
  dsimp only
  cases haccess : accessRecent _ (mostRecentGeneration inst.instanceState (c.element a)) handle with
  | error fault => rfl
  | ok c' =>
    have hheld := found_setInstance links
      ⟨emptied inst.instanceState (decide ((samples handle).erase a = [])), list⟩ hfound
    have hranks := fun info => accessRecent_tail
      (c := (({ c.markRead false a with links := links }).setInstance handle _).decRefDataElement a)
      hheld (hlists.tail.trans herase) haccess info
    dsimp only
    rw [hranks]
    show Except.ok (Next.mk _ _
      (some (SampleInfo.withRanks _ ((c.markRead false a).element mrs))) _) = _
    rw [withRanks_markRead]
    rfl

theorem takeFound_eq {mrs : Nat} (tail : inst.rcvdSamples.tail = some mrs) :
    c.takeFound receivedData handle a = (soleCopy c .take false
      (mostRecentGeneration inst.instanceState (c.element a)) handle a).map
        (foundNext c receivedData inst.instanceState a mrs) := by
  by_cases hlast : mrs = a
  · subst hlast
    exact takeLast_eq receivedData w own found tail
  · exact takeEarlier_eq receivedData w own found tail hlast

end

theorem soleCopy_ok (oper : Operation) (mrg : Bool) (w : Wf c samples) (own : a ∈ samples handle)
    (found : c.getHandleInstance handle = some inst) :
    ∃ c', soleCopy c oper false mrg handle a = .ok c' := by
  have haccess : ∀ {c : Cache δ} {inst}, c.getHandleInstance handle = some inst →
      ∃ c', c.accessRecent mrg handle = .ok c' := by
    intro c inst hinst
    unfold accessRecent
    rw [deref_eq_ok hinst]
    cases mrg with
    | true => exact ⟨_, rfl⟩
    | false => exact ⟨_, rfl⟩
  cases oper with
  | read => exact haccess (c := c.markRead false a) found
  | take =>
    have hfound : (c.markRead false a).getHandleInstance handle = some inst := found
    obtain ⟨released, c', hremove, -, -, -, hgone, hkept⟩ :=
      removeSample_spec (w.markRead false a) hfound own
    rw [soleCopy_take hremove]
    cases released with
    | true => exact ⟨_, rfl⟩
    | false =>
      by_cases hcase : Gone inst.instanceState (samples handle) ((samples handle).erase a)
      · exact absurd (hgone hcase).1 Bool.false_ne_true
      · obtain ⟨list, empty, hfound⟩ := hkept hcase
        obtain ⟨accessed, hok⟩ := haccess hfound
        rw [hok]
        exact ⟨_, rfl⟩

end OpenDDS.Source.ReaderCache
