import OpenDDS.Source.SoleSample
import OpenDDS.Guarantees.GenerationCounts

/-!
# One sample at a time

`read_next_sample` and `take_next_sample`, compared with a `read` or `take` of one sample that was
not read. The generation rank is computed from the generation of the instance and not from that of
the sample, a variable is not written for a sample without data, and `take_next_sample` does not
come back once it meets a sample that was read.
-/
namespace OpenDDS.Guarantees.NextSample
open Library.LinkedList Source Source.ReaderCache Cache

variable {δ : Type} {c : Cache δ} {samples : Nat → List Nat} {oper : ReaderCache.Operation}
  {handle fuel a : Nat} {inst : SubscriptionInstance}

/-- A read or take with `max_samples` 1, of samples that were not read. -/
def accessOne (c : Cache δ) (oper : ReaderCache.Operation) (sequences : Sequences) :
    Except Fault (Access δ) :=
  match oper with
  | .read => c.read ⟨sequences, 1, .states notReadSamples, false⟩
  | .take => c.take ⟨sequences, 1, .states notReadSamples, false⟩

/-- The value in a place of the sequence, where `blank` is the default value. -/
def valueOf (c : Cache δ) (blank : δ) : Received δ → δ
  | .loaned rde => (c.element rde).registeredData.getD blank
  | .copied data => data.getD blank

/-- The reference that a loan takes. -/
def lendReceived (c : Cache δ) : Received δ → Cache δ
  | .loaned rde => lend c rde
  | .copied _ => c

/-- The two calls return the same sample, with the same info, and leave the same behind. -/
structure Same (c : Cache δ) (blank receivedData : δ) (next : Next δ) (access : Access δ)
    (output : Output δ) : Prop where
  code : next.code = access.code
  written : access.output = some output
  data : next.receivedData = ((output.receivedData.map (valueOf c blank)).head?).getD receivedData
  info : next.sampleInfo.toList = output.infoSeq
  cache : access.cache = output.receivedData.foldl lendReceived next.cache

/-- The call for the next sample comes back with what the call for one sample returns. -/
def SameAsOne (c : Cache δ) (oper : ReaderCache.Operation) (sequences : Sequences)
    (blank receivedData : δ) : Prop :=
  ∃ fuel next access output, c.nextSample oper fuel receivedData = .ok (some next) ∧
    accessOne c oper sequences = .ok access ∧ Same c blank receivedData next access output

/-- The instance has no more generations than when the sample was received. -/
def Current (state : InstanceState) (item : ReceivedDataElement δ) : Prop :=
  toLong state.disposedGenerationCount + toLong state.noWritersGenerationCount =
    toLong item.disposedGenerationCount + toLong item.noWritersGenerationCount

def inTurn (c : Cache δ) (masks : Masks) : List (Nat × Nat) :=
  seen c masks (c.instanceMap.map Prod.snd)

/-- A take meets no sample that was read, and the sample that is found is of the generation of its
instance and has data, unless the variable of the caller has the default value anyway. -/
structure Plain (c : Cache δ) (oper : ReaderCache.Operation) (blank receivedData : δ) : Prop where
  unread : oper = .take → ∀ s ∈ (inTurn c anySamples).head?, (c.element s.2).sampleState = .notRead
  current : ∀ s ∈ (inTurn c notReadSamples).head?, ∀ inst, c.getHandleInstance s.1 = some inst →
    Current inst.instanceState (c.element s.2)
  valid : ∀ s ∈ (inTurn c notReadSamples).head?, (c.element s.2).registeredData = none →
    receivedData = blank

theorem withRanks_iff {state : InstanceState} {item mrs : ReceivedDataElement δ} :
    (ReaderCache.sampleInfo state item).withRanks mrs = soleInfo state item mrs ↔
      Current state item := by
  unfold Current
  constructor
  · intro h
    have hrank := congrArg SampleInfo.generationRank h
    simp only [SampleInfo.withRanks, soleInfo, ReaderCache.sampleInfo] at hrank
    omega
  · intro h
    simp only [SampleInfo.withRanks, soleInfo, ReaderCache.sampleInfo, h]

theorem outcome_cases {β : Type} (oper : ReaderCache.Operation) (unread : β → Bool)
    (seen : List β) :
    (oper = .take ∧ (∃ first ∈ seen.head?, unread first = false) ∧
        outcome oper unread seen = none) ∨
      ((oper = .take → ∀ first ∈ seen.head?, unread first = true) ∧
        outcome oper unread seen = some (seen.filter unread).head?) := by
  cases oper with
  | read =>
    right
    rw [List.head?_filter]
    exact ⟨nofun, rfl⟩
  | take =>
    cases seen with
    | nil => exact .inr ⟨fun _ => nofun, rfl⟩
    | cons first rest =>
      cases hunread : unread first with
      | false => exact .inl ⟨rfl, ⟨first, rfl, hunread⟩, outcome_skip hunread⟩
      | true =>
        right
        rw [outcome_found hunread, List.filter_cons_of_pos hunread]
        refine ⟨fun _ other hother => ?_, rfl⟩
        cases hother
        exact hunread

section

variable {sequences : Sequences} {receivedData blank : δ}

theorem inTurn_own {masks : Masks} {s : Nat × Nat} (w : Wf c samples) (h : s ∈ inTurn c masks) :
    ∃ inst mrs, c.getHandleInstance s.1 = some inst ∧ inst.rcvdSamples.tail = some mrs ∧
      s.2 ∈ samples s.1 := by
  obtain ⟨handle, hhandle, hs⟩ := List.mem_flatMap.mp h
  obtain ⟨a, ha, rfl⟩ := List.mem_map.mp hs
  obtain ⟨inst, hinst⟩ := Option.isSome_iff_exists.mp (w.found handle hhandle)
  have hadmits : masks.admitsInstance inst.instanceState = true := by
    by_contra hnot
    unfold admitted at ha
    rw [hinst] at ha
    dsimp only at ha
    rw [if_neg hnot] at ha
    cases ha
  rw [admitted_eq w hinst hadmits] at ha
  have hown := (List.mem_filter.mp ha).1
  obtain ⟨-, mrs, -, hmrs⟩ := w.owner hown
  exact ⟨inst, mrs, hinst, (w.lists handle inst hinst).tail.trans hmrs, hown⟩

theorem accessOne_eq (ready : checkInputs sequences 1 = .ok) :
    accessOne c oper sequences = (c.rake oper (soleRequest (decide (sequences.maximum = 0)))
      notReadSamples (c.instanceMap.map Prod.snd)).map .answer := by
  cases oper with
  | read =>
    unfold accessOne Cache.read checked
    rw [if_neg (not_not_intro ready)]
    rfl
  | take =>
    unfold accessOne Cache.take checked
    rw [if_neg (not_not_intro ready)]
    rfl

section

variable (oper : ReaderCache.Operation) (w : Wf c samples) (ready : checkInputs sequences 1 = .ok)
include w ready

theorem accessOne_none (nothing : inTurn c notReadSamples = []) :
    accessOne c oper sequences = .ok ⟨.noData, some ⟨[], []⟩, c⟩ := by
  obtain ⟨results, hgather, hchosen⟩ :=
    gather_first (decide (sequences.maximum = 0)) w w.found
  have hnone : seen c notReadSamples (c.instanceMap.map Prod.snd) = [] := nothing
  rw [hnone, List.take_nil, List.map_eq_nil_iff] at hchosen
  rw [accessOne_eq ready]
  unfold rake
  rw [hgather]
  dsimp only [bind, Except.bind]
  rw [hchosen]
  rfl

theorem accessOne_some {mrs : Nat} (first : (inTurn c notReadSamples).head? = some (handle, a))
    (found : c.getHandleInstance handle = some inst) (tail : inst.rcvdSamples.tail = some mrs)
    (own : a ∈ samples handle) :
    accessOne c oper sequences = (soleCopy c oper (decide (sequences.maximum = 0))
      (mostRecentGeneration inst.instanceState (c.element a)) handle a).map fun c' =>
        ⟨.ok, some (soleOutput (decide (sequences.maximum = 0)) a inst.instanceState (c.element a)
          (c.element mrs)), c'⟩ := by
  obtain ⟨results, hgather, hchosen⟩ :=
    gather_first (decide (sequences.maximum = 0)) w w.found
  have hsplit : seen c notReadSamples (c.instanceMap.map Prod.snd) =
      (handle, a) :: (inTurn c notReadSamples).tail :=
    (List.cons_head?_tail first).symm
  rw [hsplit, List.take_succ_cons, List.take_zero] at hchosen
  obtain ⟨rd, hsingle, hrd⟩ := List.map_eq_singleton_iff.mp hchosen
  obtain ⟨rfl, rfl⟩ := Prod.mk.inj hrd
  rw [accessOne_eq ready]
  unfold rake
  rw [hgather]
  show ((c.copyInto oper (decide (sequences.maximum = 0)) _).map _) = _
  rw [hsingle, copyInto_sole _ w own found tail]
  cases soleCopy c oper _ _ rd.si rd.rde with
  | error fault => rfl
  | ok c' => rfl

end

theorem nextSample_some {mrs : Nat} (receivedData : δ) (w : Wf c samples)
    (located : c.search oper fuel (c.instanceMap.map Prod.snd) = .ok (some (some (handle, a))))
    (found : c.getHandleInstance handle = some inst) (tail : inst.rcvdSamples.tail = some mrs)
    (own : a ∈ samples handle) :
    c.nextSample oper fuel receivedData = (soleCopy c oper false
      (mostRecentGeneration inst.instanceState (c.element a)) handle a).map
        fun c' => some (foundNext c receivedData inst.instanceState a mrs c') := by
  unfold nextSample
  rw [located]
  dsimp only [bind, Except.bind]
  cases oper with
  | read =>
    rw [readFound_eq receivedData found tail]
    cases soleCopy c .read false _ handle a <;> rfl
  | take =>
    rw [takeFound_eq receivedData w own found tail]
    cases soleCopy c .take false _ handle a <;> rfl

theorem same_iff {mrs : Nat} {state : InstanceState} (zeroCopy : Bool) (c' : Cache δ) :
    Same c blank receivedData (foundNext c receivedData state a mrs c')
        ⟨.ok, some (soleOutput zeroCopy a state (c.element a) (c.element mrs)),
          if zeroCopy then lend c' a else c'⟩
        (soleOutput zeroCopy a state (c.element a) (c.element mrs)) ↔
      Current state (c.element a) ∧
        ((c.element a).registeredData = none → receivedData = blank) := by
  have hvalue : (((soleOutput zeroCopy a state (c.element a) (c.element mrs)).receivedData.map
      (valueOf c blank)).head?).getD receivedData = (c.element a).registeredData.getD blank := by
    cases zeroCopy <;> rfl
  have hdata : (c.element a).registeredData.getD receivedData =
      (c.element a).registeredData.getD blank ↔
        ((c.element a).registeredData = none → receivedData = blank) := by
    cases (c.element a).registeredData with
    | none => simp
    | some data => simp
  constructor
  · intro h
    have hinfo : [(ReaderCache.sampleInfo state (c.element a)).withRanks (c.element mrs)] =
        [soleInfo state (c.element a) (c.element mrs)] := h.info
    exact ⟨withRanks_iff.mp (List.singleton_injective hinfo), hdata.mp (h.data.trans hvalue)⟩
  · rintro ⟨hcurrent, hvalid⟩
    refine ⟨rfl, rfl, (hdata.mpr hvalid).trans hvalue.symm, ?_, ?_⟩
    · exact congrArg (fun info => [info]) (withRanks_iff.mpr hcurrent)
    · cases zeroCopy <;> rfl

theorem inTurn_unread (c : Cache δ) : inTurn c notReadSamples =
    (inTurn c anySamples).filter (unread c ∘ Prod.snd) :=
  seen_unread c _

theorem unread_iff : unread c a = true ↔ (c.element a).sampleState = .notRead := by
  unfold unread
  cases (c.element a).sampleState with
  | read => decide
  | notRead => decide

theorem nextSample_search (w : Wf c samples) {next : Next δ}
    (h : c.nextSample oper fuel receivedData = .ok (some next)) :
    (oper = .take → ∀ s ∈ (inTurn c anySamples).head?, (c.element s.2).sampleState = .notRead) ∧
      c.search oper fuel (c.instanceMap.map Prod.snd) =
        .ok (some (inTurn c notReadSamples).head?) := by
  have hrunning : c.search oper fuel (c.instanceMap.map Prod.snd) ≠ .ok none := by
    intro hnone
    unfold nextSample at h
    rw [hnone] at h
    cases h
  rcases search_eq oper fuel w w.found with ⟨-, hnone⟩ | hsearch
  · exact absurd hnone hrunning
  · rcases outcome_cases oper (unread c ∘ Prod.snd)
      (seen c anySamples (c.instanceMap.map Prod.snd)) with ⟨-, -, hnone⟩ | ⟨hfirst, hsome⟩
    · exact absurd (hsearch.trans (congrArg Except.ok hnone)) hrunning
    · refine ⟨fun htake s hs => unread_iff.mp (hfirst htake s hs), ?_⟩
      rw [hsearch, hsome, inTurn_unread]
      rfl

theorem plain_of_same (w : Wf c samples) (ready : checkInputs sequences 1 = .ok)
    (h : SameAsOne c oper sequences blank receivedData) : Plain c oper blank receivedData := by
  obtain ⟨fuel, next, access, output, hnext, haccess, hsame⟩ := h
  obtain ⟨hunread, hsearch⟩ := nextSample_search w hnext
  have hfirst : ∀ s ∈ (inTurn c notReadSamples).head?, ∀ inst,
      c.getHandleInstance s.1 = some inst → Current inst.instanceState (c.element s.2) ∧
        ((c.element s.2).registeredData = none → receivedData = blank) := by
    rintro ⟨handle, a⟩ hs inst' hinst'
    obtain ⟨inst, mrs, hinst, htail, hown⟩ := inTurn_own w (List.mem_of_mem_head? hs)
    obtain rfl := Option.some.inj (hinst.symm.trans hinst')
    obtain ⟨c', hcopy⟩ := soleCopy_ok oper
      (mostRecentGeneration inst.instanceState (c.element a)) w hown hinst
    have hfound : c.search oper fuel (c.instanceMap.map Prod.snd) =
        .ok (some (some (handle, a))) := hsearch.trans (congrArg (fun s => Except.ok (some s)) hs)
    rw [nextSample_some receivedData w hfound hinst htail hown, hcopy] at hnext
    rw [accessOne_some oper w ready hs hinst htail hown, soleCopy_lend _ _ w hown, hcopy] at haccess
    cases hnext
    cases haccess
    cases hsame.written
    exact (same_iff _ c').mp hsame
  refine ⟨hunread, fun s hs inst hinst => (hfirst s hs inst hinst).1, fun s hs => ?_⟩
  obtain ⟨inst, -, hinst, -⟩ := inTurn_own w (List.mem_of_mem_head? hs)
  exact (hfirst s hs inst hinst).2

theorem steps_enough (steps : Nat → Nat) (handles : List Nat) :
    ∃ fuel, ∀ h ∈ handles, steps h < fuel := by
  induction handles with
  | nil => exact ⟨0, nofun⟩
  | cons handle rest ih =>
    obtain ⟨fuel, hfuel⟩ := ih
    refine ⟨fuel + (steps handle + 1), ?_⟩
    intro h hin
    rcases List.mem_cons.mp hin with rfl | hrest
    · omega
    · have hlt := hfuel h hrest
      omega

theorem search_first (w : Wf c samples)
    (unread : oper = .take → ∀ s ∈ (inTurn c anySamples).head?,
      (c.element s.2).sampleState = .notRead) :
    ∃ fuel, c.search oper fuel (c.instanceMap.map Prod.snd) =
      .ok (some (inTurn c notReadSamples).head?) := by
  obtain ⟨fuel, hfuel⟩ := steps_enough (fun h => (samples h).length) (c.instanceMap.map Prod.snd)
  refine ⟨fuel, ?_⟩
  rcases search_eq oper fuel w w.found with
    ⟨⟨h, hin, hshort⟩, -⟩ | hsearch
  · have hlong := hfuel h hin
    omega
  · rw [hsearch]
    rcases outcome_cases oper (ReaderCache.unread c ∘ Prod.snd)
      (seen c anySamples (c.instanceMap.map Prod.snd)) with
        ⟨htake, ⟨first, hfirst, hread⟩, -⟩ | ⟨-, hsome⟩
    · have hunread := unread_iff.mpr (unread htake first hfirst)
      exact absurd (hread.symm.trans hunread) Bool.false_ne_true
    · rw [hsome, inTurn_unread]
      rfl

theorem same_of_plain (w : Wf c samples) (ready : checkInputs sequences 1 = .ok)
    (h : Plain c oper blank receivedData) : SameAsOne c oper sequences blank receivedData := by
  obtain ⟨fuel, hsearch⟩ := search_first w h.unread
  cases hfirst : (inTurn c notReadSamples).head? with
  | none =>
    have hnext : c.nextSample oper fuel receivedData =
        .ok (some ⟨.noData, receivedData, none, c⟩) := by
      unfold nextSample
      rw [hsearch, hfirst]
      rfl
    have haccess := accessOne_none oper w ready (List.head?_eq_none_iff.mp hfirst)
    exact ⟨fuel, _, _, ⟨[], []⟩, hnext, haccess, rfl, rfl, rfl, rfl, rfl⟩
  | some s =>
    obtain ⟨handle, a⟩ := s
    obtain ⟨inst, mrs, hinst, htail, hown⟩ := inTurn_own w (List.mem_of_mem_head? hfirst)
    obtain ⟨c', hcopy⟩ := soleCopy_ok oper
      (mostRecentGeneration inst.instanceState (c.element a)) w hown hinst
    have hnext := nextSample_some receivedData w
      (hsearch.trans (congrArg (fun s => Except.ok (some s)) hfirst)) hinst htail hown
    have haccess := accessOne_some oper w ready hfirst hinst htail hown
    rw [hcopy] at hnext
    rw [soleCopy_lend _ _ w hown, hcopy] at haccess
    exact ⟨fuel, _, _, _, hnext, haccess, (same_iff _ c').mpr
      ⟨h.current (handle, a) hfirst inst hinst, h.valid (handle, a) hfirst⟩⟩

/-- A call for the next sample does what a read or take of one sample does, if and only if it meets
no sample that it stays at and what it finds is of the generation of its instance and has data. -/
theorem next_same_iff (w : Wf c samples) (ready : checkInputs sequences 1 = .ok) :
    SameAsOne c oper sequences blank receivedData ↔ Plain c oper blank receivedData :=
  ⟨plain_of_same w ready, same_of_plain w ready⟩

/-- A call of `take_next_sample` that meets a sample that was read first does not come back. -/
theorem take_stays {s : Nat × Nat} (w : Wf c samples) (first : (inTurn c anySamples).head? = some s)
    (taken : (c.element s.2).sampleState = .read) (fuel : Nat) :
    c.takeNextSample fuel receivedData = .ok none := by
  have hread : (unread c ∘ Prod.snd) s = false := by
    rw [Bool.eq_false_iff]
    intro hunread
    rw [Function.comp_apply, unread_iff, taken] at hunread
    cases hunread
  have hnone : outcome .take (unread c ∘ Prod.snd) (inTurn c anySamples) = none := by
    rw [← List.cons_head?_tail first]
    exact outcome_skip hread
  have hsearch : c.search .take fuel (c.instanceMap.map Prod.snd) = .ok none := by
    rcases search_eq .take fuel w w.found with ⟨-, hrunning⟩ | hend
    · exact hrunning
    · exact hend.trans (congrArg Except.ok hnone)
  unfold takeNextSample nextSample
  rw [hsearch]
  rfl

end

open SampleRanks (nothing nothing_blank anySample anyState Happens sampleAt)
open GenerationCounts (keepThree oneSample reborn first_stored reborn_run)

def roomForFive : Sequences := ⟨0, 0, 5, true, 0⟩

theorem oneSample_wf : ∃ samples, Wf oneSample samples := by
  obtain ⟨samples, w, -⟩ := nothing_blank.grown
  exact GenerationCounts.happens_wf ⟨samples, w⟩ first_stored.happens

theorem reborn_wf : ∃ samples, Wf reborn samples :=
  (GenerationCounts.run_counts oneSample_wf first_stored.held reborn_run).1

/-- The samples of both generations were read, and one more of the second came. -/
def allRead : Cache Nat :=
  ((reborn.readI anySample anyState).toOption.map Prod.snd).getD reborn

def readOn : Cache Nat := (allRead.dataReceived keepThree (sampleAt 13)).toOption.getD allRead

theorem readOn_wf : ∃ samples, Wf readOn samples := by
  have hread : Happens keepThree reborn (.accessed .read anySample anyState [10]) allRead :=
    ⟨by decide, by decide, _, rfl⟩
  have hreceived : Happens keepThree allRead (.received (sampleAt 13)) readOn :=
    ⟨⟨rfl, rfl, rfl, by decide⟩, rfl⟩
  exact GenerationCounts.happens_wf (GenerationCounts.happens_wf reborn_wf hread) hreceived

/-- The only sample of a cache is taken, and the only one is read that was not read before. -/
theorem next_same_first :
    SameAsOne oneSample .take roomForFive 0 0 ∧ SameAsOne readOn .read roomForFive 0 0 := by
  constructor
  · obtain ⟨samples, w⟩ := oneSample_wf
    have hany : (inTurn oneSample anySamples).head? = some (10, 10) := by decide
    have hunread : (inTurn oneSample notReadSamples).head? = some (10, 10) := by decide
    have hinst : oneSample.getHandleInstance 10 =
        some ⟨GenerationCounts.firstState, ⟨some 10, some 10, 1⟩⟩ := rfl
    apply (next_same_iff w rfl).mpr
    constructor
    · intro _ s hs
      obtain rfl := Option.some.inj (hany.symm.trans hs)
      rfl
    · intro s hs inst hfound
      obtain rfl := Option.some.inj (hunread.symm.trans hs)
      obtain rfl := Option.some.inj (hinst.symm.trans hfound)
      unfold Current
      decide +kernel
    · intro s hs hdata
      obtain rfl := Option.some.inj (hunread.symm.trans hs)
      cases hdata
  · obtain ⟨samples, w⟩ := readOn_wf
    have hunread : (inTurn readOn notReadSamples).head? = some (10, 13) := by decide +kernel
    have hcurrent : ∀ inst ∈ readOn.getHandleInstance 10,
        Current inst.instanceState (readOn.element 13) := by
      unfold Current
      decide +kernel
    apply (next_same_iff w rfl).mpr
    constructor
    · intro htake
      cases htake
    · intro s hs inst hfound
      obtain rfl := Option.some.inj (hunread.symm.trans hs)
      exact hcurrent inst hfound
    · intro s hs hdata
      obtain rfl := Option.some.inj (hunread.symm.trans hs)
      cases hdata

def wasRead : Cache Nat :=
  ((oneSample.readI anySample anyState).toOption.map Prod.snd).getD oneSample

theorem wasRead_wf : ∃ samples, Wf wasRead samples := by
  have hread : Happens keepThree oneSample (.accessed .read anySample anyState [10]) wasRead :=
    ⟨by decide, by decide, _, rfl⟩
  exact GenerationCounts.happens_wf oneSample_wf hread

/-- After a rebirth the generation rank of the first sample is 1 and not 0, and `take_next_sample`
does not come back where the only sample was read, although a take finds no data. -/
theorem next_differs :
    (∃ samples, Wf reborn samples ∧ ¬ SameAsOne reborn .read roomForFive 0 0) ∧
      ∃ samples, Wf wasRead samples ∧ (∀ fuel, wasRead.takeNextSample fuel 0 = .ok none) ∧
        (accessOne wasRead .take roomForFive).map Access.code = .ok .noData := by
  obtain ⟨samples, w⟩ := reborn_wf
  obtain ⟨samples', w'⟩ := wasRead_wf
  refine ⟨⟨samples, w, ?_⟩, samples', w', ?_, ?_⟩
  · intro hsame
    have hplain := plain_of_same w rfl hsame
    have hfirst : (inTurn reborn notReadSamples).head? = some (10, 10) := by decide
    have hcurrent := hplain.current (10, 10) hfirst _ rfl
    exact absurd hcurrent (by unfold Current; decide +kernel)
  · exact take_stays w' (s := (10, 10)) (by decide) rfl
  · decide

end OpenDDS.Guarantees.NextSample
